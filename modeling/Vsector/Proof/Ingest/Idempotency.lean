import Vsector.Impl.Index.Flat
import Vsector.Proof.Ingest.Service
import Vsector.Proof.Models.Documents

/-!
# What an idempotency key protects

The results of upserts are kept by their key alone, and also those with
errors (`upsert_new`). So a key keeps its promise, that a request is not
carried out only where one to the same namespace was carried out in full
(`Scoped`), exactly in the runs in which it is not used again for another
namespace or after errors (`keys_scoped_iff`).
-/

namespace Vsector.Ingest

open Framework Models Storage Sharding Index

variable {ι : Type} {X : Externals}

structure UpsertCall (ι : Type) where
  ns : String
  records : List (Raw × RecordEnv ι)
  idempotencyKey : Option String
  background : String → FlushEnv

/-- The key; an empty one is none. -/
def UpsertCall.key (c : UpsertCall ι) : Option String := c.idempotencyKey.filter (· ≠ "")

/-- An upsert that came back, and whether with a kept result, without a look at its records. -/
structure Answered (ι : Type) where
  call : UpsertCall ι
  recalled : Bool
  result : Except Exc UpsertResult

/-- A service, and the upserts so far. -/
structure Upserts (ι : Type) where
  svc : IngestService ι
  answered : List (Answered ι)

/-! ## One upsert -/

namespace IngestService

variable [BaseIndex ι] {svc svc' : IngestService ι} {settings : Namespace} {ns : String}

theorem getOrCreateCtx_idempotency {shard : Shard} {ctx : ShardContext ι}
    (h : svc.getOrCreateCtx X ns shard = .ok (svc', ctx)) : svc'.idempotency = svc.idempotency := by
  unfold getOrCreateCtx at h
  split at h
  · cases h
    rfl
  · split at h
    · cases h
    · split at h
      · cases h
      · cases h
        rfl

variable (X settings ns) in
/-- A record is counted, as written or as an error, and no result is kept. -/
theorem upsertRecord_counts (s : UpsertState ι) (raw : Raw) (env : RecordEnv ι) :
    let t := upsertRecord X ns settings s raw env
    t.svc.idempotency = s.svc.idempotency ∧
      t.upserted.length + t.errors.length = s.upserted.length + s.errors.length + 1 := by
  have herr : ∀ e : UpsertError, s.upserted.length + (s.errors ++ [e]).length =
      s.upserted.length + s.errors.length + 1 := by
    intro e
    rw [List.length_append, List.length_singleton, Nat.add_assoc]
  unfold upsertRecord
  dsimp only
  split
  · exact ⟨rfl, herr _⟩
  · split
    · exact ⟨rfl, herr _⟩
    · split
      · exact ⟨rfl, herr _⟩
      · rename_i svc' ctx hg
        have hsvc := getOrCreateCtx_idempotency hg
        split
        · exact ⟨hsvc, herr _⟩
        · split
          · exact ⟨hsvc, herr _⟩
          · split
            · exact ⟨hsvc, herr _⟩
            · refine ⟨hsvc, ?_⟩
              show (s.upserted ++ [_]).length + s.errors.length = _
              rw [List.length_append, List.length_singleton]
              omega

variable (X settings ns) in
theorem upsertRecords_counts (s : UpsertState ι) (records : List (Raw × RecordEnv ι)) :
    let t := records.foldl (fun s r => upsertRecord X ns settings s r.1 r.2) s
    t.svc.idempotency = s.svc.idempotency ∧
      t.upserted.length + t.errors.length = s.upserted.length + s.errors.length +
        records.length := by
  induction records generalizing s with
  | nil => exact ⟨rfl, rfl⟩
  | cons r records ih =>
    obtain ⟨hsvc, hcount⟩ := upsertRecord_counts X settings ns s r.1 r.2
    obtain ⟨hsvc', hcount'⟩ := ih (upsertRecord X ns settings s r.1 r.2)
    refine ⟨hsvc'.trans hsvc, ?_⟩
    simp only [List.foldl_cons, List.length_cons]
    omega

omit [BaseIndex ι] in
theorem flushIfFull_idempotency (background : String → FlushEnv) (key : String) :
    (flushIfFull X background svc key).1.idempotency = svc.idempotency := by
  unfold flushIfFull
  split
  · rfl
  · split <;> rfl

variable (X svc) in
/-- An upsert whose key is new. -/
theorem upsert_new {c : UpsertCall ι} (hkey : c.key.bind svc.idempotency.get? = none) :
    (∃ svc' exc, svc.upsert X c.ns c.records c.idempotencyKey c.background = (svc', .error exc) ∧
        svc'.idempotency = svc.idempotency) ∨
      ∃ svc' r, svc.upsert X c.ns c.records c.idempotencyKey c.background = (svc', .ok r) ∧
        r.upserted + r.errors.length = c.records.length ∧
        svc'.idempotency = c.key.elim svc.idempotency fun key => svc.idempotency.set key r := by
  unfold upsert
  dsimp only
  rw [show (c.idempotencyKey.filter (· ≠ "")).bind svc.idempotency.get? = none from hkey]
  dsimp only
  split
  · exact .inl ⟨svc, _, rfl, rfl⟩
  · rename_i settings _
    split
    · exact .inl ⟨svc, _, rfl, rfl⟩
    · obtain ⟨hsvc, hcount⟩ := upsertRecords_counts X settings c.ns ⟨svc, [], [], ∅, []⟩ c.records
      set s := c.records.foldl (fun s r => upsertRecord X c.ns settings s r.1 r.2)
        ⟨svc, [], [], ∅, []⟩
      have hflushed : (forEach (flushIfFull X c.background) (s.svc.flushLogs s.touched)
          s.touched.keys).1.idempotency =
          svc.idempotency :=
        forEach_invariant (I := fun svc' : IngestService ι => svc'.idempotency = svc.idempotency)
          ((flushLogs_ok s.svc s.touched).1.idempotency.trans hsvc) fun key _ t ht =>
            (flushIfFull_idempotency c.background key).trans ht
      rcases hf : forEach (flushIfFull X c.background) (s.svc.flushLogs s.touched)
        s.touched.keys with ⟨svc', exc | ⟨⟩⟩
      · rw [hf] at hflushed
        exact .inl ⟨svc', exc, rfl, hflushed⟩
      · rw [hf] at hflushed
        refine .inr ⟨_, _, rfl, ?_, ?_⟩
        · simpa using hcount
        · rw [show svc.idempotency = svc'.idempotency from hflushed.symm]
          unfold UpsertCall.key
          rcases c.idempotencyKey.filter (· ≠ "") with _ | key <;> rfl

end IngestService

/-! ## Runs -/

namespace Upserts

/-- The result kept under the call's key. -/
def kept (s : Upserts ι) (c : UpsertCall ι) : Option UpsertResult :=
  c.key.bind s.svc.idempotency.get?

variable [BaseIndex ι]

variable (X) in
def step (s : Upserts ι) (c : UpsertCall ι) : Upserts ι :=
  let answer := s.svc.upsert X c.ns c.records c.idempotencyKey c.background
  ⟨answer.1, s.answered ++ [⟨c, (s.kept c).isSome, answer.2⟩]⟩

/-- The call's records are written, unless an earlier upsert to the same namespace with the same
key wrote all of its own records: then it is answered with that upsert's result. -/
def Scoped (s : Upserts ι) (c : UpsertCall ι) : Prop :=
  ∀ r, s.kept c = some r → ∃ a ∈ s.answered, a.recalled = false ∧ a.call.ns = c.ns ∧
    a.call.key = c.key ∧
    a.result = .ok r ∧ r.upserted = a.call.records.length

/-- Every earlier upsert with the call's key that returned was to the same namespace, and reported
no errors. -/
def KeyFits (s : Upserts ι) (c : UpsertCall ι) : Prop :=
  ∀ key, c.key = some key → ∀ a ∈ s.answered, a.call.key = some key → ∀ r, a.result = .ok r →
    a.call.ns = c.ns ∧ r.errors = []

/-- The results that are kept are those of the first upserts with their keys that returned. -/
structure Keeps (s : Upserts ι) : Prop where
  ran : ∀ key r, s.svc.idempotency.get? key = some r → ∃ a ∈ s.answered, a.recalled = false ∧
    a.call.key = some key ∧
    a.result = .ok r
  kept : ∀ a ∈ s.answered, ∀ key r, a.call.key = some key → a.result = .ok r →
    s.svc.idempotency.get? key = some r
  counts : ∀ a ∈ s.answered, a.recalled = false → ∀ r, a.result = .ok r →
    r.upserted + r.errors.length = a.call.records.length

/-- Upserts with one key that returned were to one namespace. -/
def OneNamespace (s : Upserts ι) : Prop :=
  ∀ a ∈ s.answered, ∀ b ∈ s.answered, ∀ key r r', a.call.key = some key → b.call.key = some key →
    a.result = .ok r → b.result = .ok r' → a.call.ns = b.call.ns

variable {s : Upserts ι} {c : UpsertCall ι}

/-- What a call adds. -/
theorem step_cases :
    (∃ key r, c.key = some key ∧ s.kept c = some r ∧ s.svc.idempotency.get? key = some r ∧
        s.step X c = ⟨s.svc, s.answered ++ [⟨c, true, .ok r⟩]⟩) ∨
      s.kept c = none ∧
        ((∃ svc exc, svc.idempotency = s.svc.idempotency ∧
            s.step X c = ⟨svc, s.answered ++ [⟨c, false, .error exc⟩]⟩) ∨
          ∃ svc r, (∀ key, svc.idempotency.get? key = if c.key = some key then some r
            else s.svc.idempotency.get? key) ∧
            r.upserted + r.errors.length = c.records.length ∧
            s.step X c = ⟨svc, s.answered ++ [⟨c, false, .ok r⟩]⟩) := by
  unfold step
  dsimp only
  rcases hkept : s.kept c with _ | r
  · refine .inr ⟨rfl, ?_⟩
    rcases IngestService.upsert_new X s.svc
      hkept with ⟨svc, exc, h, hidem⟩ | ⟨svc, r, h, hcount, hidem⟩
    · exact .inl ⟨svc, exc, hidem, by rw [h]; rfl⟩
    · refine .inr ⟨svc, r, fun key => ?_, hcount, by rw [h]; rfl⟩
      rw [hidem]
      rcases c.key with _ | k
      · rfl
      · show (s.svc.idempotency.set k r).get? key = _
        rw [Dict.get?_set]
        simp only [Option.some.injEq, eq_comm]
  · obtain ⟨key, hkey, hr⟩ := Option.bind_eq_some_iff.mp hkept
    have hupsert : s.svc.upsert X c.ns c.records c.idempotencyKey c.background =
        (s.svc, .ok r) := by
      unfold IngestService.upsert
      dsimp only
      rw [show (c.idempotencyKey.filter (· ≠ "")).bind s.svc.idempotency.get? = some r from hkept]
    exact .inl ⟨key, r, hkey, rfl, hr, by rw [hupsert]; rfl⟩

omit [BaseIndex ι] in
/-- One more answer, and the results kept after it. -/
theorem Keeps.add (hs : s.Keeps) {svc : IngestService ι} {a : Answered ι}
    (hold : ∀ key r, s.svc.idempotency.get? key = some r → svc.idempotency.get? key = some r)
    (hnew : ∀ key r, svc.idempotency.get? key = some r → s.svc.idempotency.get? key = some r ∨
      a.recalled = false ∧ a.call.key = some key ∧ a.result = .ok r)
    (hkept : ∀ key r, a.call.key = some key → a.result = .ok r → svc.idempotency.get? key = some r)
    (hcount : a.recalled = false → ∀ r, a.result = .ok r →
      r.upserted + r.errors.length = a.call.records.length) :
    Upserts.Keeps ⟨svc, s.answered ++ [a]⟩ := by
  refine ⟨fun key r hr => ?_, fun b hb key r hk hr => ?_, fun b hb hrecalled r hr => ?_⟩
  · rcases hnew key r hr with hr | hran
    · obtain ⟨b, hb, hran⟩ := hs.ran key r hr
      exact ⟨b, List.mem_append_left _ hb, hran⟩
    · exact ⟨a, List.mem_append_right _ List.mem_cons_self, hran⟩
  · rcases List.mem_append.mp hb with hb | hb
    · exact hold key r (hs.kept b hb key r hk hr)
    · cases List.mem_singleton.mp hb
      exact hkept key r hk hr
  · rcases List.mem_append.mp hb with hb | hb
    · exact hs.counts b hb hrecalled r hr
    · cases List.mem_singleton.mp hb
      exact hcount hrecalled r hr

theorem Keeps.step (hs : s.Keeps) (c : UpsertCall ι) : (s.step X c).Keeps := by
  rcases step_cases (X := X) (s := s) (c := c) with
    ⟨key, r, hkey, -, hr, h⟩ | ⟨hnone, ⟨svc, exc, hmemo, h⟩ | ⟨svc, r, hmemo, hcount, h⟩⟩
  · rw [h]
    refine hs.add (fun _ _ h => h) (fun _ _ h => .inl h) (fun key' r' hk hr' => ?_) fun hrecalled =>
      by cases hrecalled
    cases hr'
    rw [show c.key = some key' from hk] at hkey
    cases hkey
    exact hr
  · rw [h]
    refine hs.add (fun key r hr => ?_) (fun key r hr => ?_) (fun _ _ _ hr => by cases hr)
      fun _ _ hr => by cases hr
    · rw [hmemo]
      exact hr
    · rw [hmemo] at hr
      exact .inl hr
  · rw [h]
    refine hs.add (fun key r' hr => ?_) (fun key r' hr => ?_) (fun key r' hk hr => ?_)
      fun _ r' hr => ?_
    · rw [hmemo, if_neg, hr]
      intro hk
      rw [Upserts.kept, hk, Option.bind_some, hr] at hnone
      cases hnone
    · rw [hmemo] at hr
      split_ifs at hr with hk
      · cases hr
        exact .inr ⟨rfl, hk, rfl⟩
      · exact .inl hr
    · cases hr
      rw [hmemo]
      exact if_pos hk
    · cases hr
      exact hcount

omit [BaseIndex ι] in
/-- The key of a call that is answered with a kept result. -/
theorem kept_eq_some {r : UpsertResult} :
    s.kept c = some r ↔ ∃ key, c.key = some key ∧ s.svc.idempotency.get? key = some r :=
  Option.bind_eq_some_iff

omit [BaseIndex ι] in
theorem Keeps.scoped (hs : s.Keeps) (hc : s.KeyFits c) : s.Scoped c := by
  intro r hkept
  obtain ⟨key, hkey, hr⟩ := kept_eq_some.mp hkept
  obtain ⟨a, ha, hrecalled, hak, har⟩ := hs.ran key r hr
  obtain ⟨hns, herrors⟩ := hc key hkey a ha hak r har
  have hcount := hs.counts a ha hrecalled r har
  rw [herrors, List.length_nil, Nat.add_zero] at hcount
  exact ⟨a, ha, hrecalled, hns, hak.trans hkey.symm, har, hcount⟩

omit [BaseIndex ι] in
theorem Keeps.keyFits (hs : s.Keeps) (hone : s.OneNamespace) (hc : s.Scoped c) : s.KeyFits c := by
  intro key hkey b hb hbk r' hbr
  have hr := hs.kept b hb key r' hbk hbr
  obtain ⟨a, ha, hrecalled, hns, hak, har, hwrote⟩ := hc r' (kept_eq_some.mpr ⟨key, hkey, hr⟩)
  have hcount := hs.counts a ha hrecalled r' har
  refine ⟨(hone b hb a ha key r' r' hbk (hak.trans hkey) hbr har).trans hns, ?_⟩
  exact List.length_eq_zero_iff.mp (by omega)

theorem OneNamespace.step (hone : s.OneNamespace) (hc : s.KeyFits c) :
    (s.step X c).OneNamespace := by
  have hadd : ∀ svc recalled result, Upserts.OneNamespace
      ⟨svc, s.answered ++ [⟨c, recalled, result⟩]⟩ := by
    intro svc recalled result a ha b hb key r r' hak hbk har hbr
    rcases List.mem_append.mp ha with ha | ha
    · rcases List.mem_append.mp hb with hb | hb
      · exact hone a ha b hb key r r' hak hbk har hbr
      · cases List.mem_singleton.mp hb
        exact (hc key hbk a ha hak r har).1
    · cases List.mem_singleton.mp ha
      rcases List.mem_append.mp hb with hb | hb
      · exact (hc key hak b hb hbk r' hbr).1.symm
      · cases List.mem_singleton.mp hb
        rfl
  exact hadd _ _ _

/-- Every key protects what it was used for exactly if none is used again for another namespace or
after errors. -/
theorem keys_scoped_iff {svc : IngestService ι} (hsvc : svc.idempotency = ∅)
    (calls : List (UpsertCall ι)) :
    Along (total (step X)) Scoped ⟨svc, []⟩ calls ↔
      Along (total (step X)) KeyFits ⟨svc, []⟩ calls := by
  have hstart : (⟨svc, []⟩ : Upserts ι).Keeps ∧ (⟨svc, []⟩ : Upserts ι).OneNamespace := by
    refine ⟨⟨fun key r hr => ?_, fun a ha => absurd ha List.not_mem_nil, fun a ha =>
      absurd ha List.not_mem_nil⟩, fun a ha => absurd ha List.not_mem_nil⟩
    rw [show (⟨svc, []⟩ : Upserts ι).svc.idempotency = ∅ from hsvc] at hr
    cases hr
  refine Along.iff_of_invariant (I := fun s => s.Keeps ∧ s.OneNamespace) (C := fun _ _ => True)
    (fun s c hs _ => ⟨hs.1.keyFits hs.2, hs.1.scoped⟩) (fun s c t hs _ hc ht => ?_) hstart
    (Along.of_forall (fun _ _ => trivial) _ _)
  cases ht
  exact ⟨hs.1.step c, hs.2.step hc⟩

/-! A batch for one namespace whose only record has no vector, and a good one for another, with the
same key. -/

private def tenants : IngestService FlatIndex where
  settings :=
    ⟨(Dict.set ∅ "a" ⟨"a", 1, .cosine, .flat, 1⟩).set "b" ⟨"b", 1, .cosine, .flat, 1⟩, 10000⟩
  router :=
    ⟨((InMemoryEtcd.init none).put ⟨"a#shard-000", "a", "node-1", .active, 0, 50000000, [], 1⟩).put
    ⟨"b#shard-000", "b", "node-1", .active, 0, 50000000, [], 1⟩, none⟩
  nodeId := some "node-1"
  roots := ∅
  replicator := .init ∅
  replicationStats := ∅
  shards := ∅
  idempotency := ∅

private def tenantUpsert (ns : String) (raw : Raw) : UpsertCall FlatIndex where
  ns := ns
  records := [(raw, ⟨"2026-01-01T00:00:00Z", oneId, ⟨1, 1, none⟩, none, ⟨0, fun _ => ⟨1, 1, none⟩⟩,
    none, ⟨"a", "b", none⟩⟩)]
  idempotencyKey := some "k"
  background := fun _ => ⟨1, 1, none⟩

theorem tenant_keys_scoped :
    let calls := [tenantUpsert "a" [("vector", .arr [.int 1])],
      tenantUpsert "a" [("vector", .arr [.int 1])]]
    Along (total (step fieldwise)) Scoped ⟨tenants, []⟩ calls ↔
      Along (total (step fieldwise)) KeyFits ⟨tenants, []⟩ calls :=
  keys_scoped_iff rfl _

theorem key_of_another_namespace :
    ¬ ∀ (X : Externals) (svc : IngestService FlatIndex), svc.idempotency = ∅ →
    ∀ calls, Along (total (step X)) Scoped ⟨svc, []⟩ calls := by
  intro h
  have hcalls := h fieldwise tenants rfl [tenantUpsert "a" [],
    tenantUpsert "b" [("vector", .arr [.int 1])]]
  obtain ⟨r, hr⟩ := Option.isSome_iff_exists.mp
    (show (Upserts.kept (step fieldwise ⟨tenants, []⟩ (tenantUpsert "a" []))
      (tenantUpsert "b" [("vector", .arr [.int 1])])).isSome by decide +kernel)
  obtain ⟨a, ha, -, hns, -⟩ := (hcalls.2 _ rfl).1 r hr
  cases List.mem_singleton.mp ha
  exact absurd hns (by decide)

end Upserts

end Vsector.Ingest
