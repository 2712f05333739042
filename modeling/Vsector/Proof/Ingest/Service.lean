import Vsector.Impl.Ingest.DeleteFilter
import Vsector.Proof.Ingest.ShardContext
import Vsector.Proof.Sharding.Router
import Vsector.Proof.Storage.Filling

/-!
# The contexts of the ingest service

What the service does to the context of one shard keeps that the context shows
the last operations (`Tracks`), and how it looks up and changes its contexts:
`ctxAt` is the context an operation on a shard is applied to,
`getOrCreateCtx_ok` finds it, and `upsertRecord_eq` is the block of `upsert`
for a record that nothing raises for.
-/

namespace Vsector.Storage

open Framework Models

variable {X : Externals}

theorem flush_memtable (s : SegmentStore) (env : FlushEnv) :
    (s.flush X env).1.memtable = { s.memtable with data := ∅ } := by
  rw [SegmentStore.flush]
  split
  · rename_i hc
    obtain ⟨hot, cold, ⟨threshold, ⟨entries, nodup⟩⟩, tables⟩ := s
    have hnil : entries = [] := List.length_eq_zero_iff.mp hc
    subst hnil
    rfl
  · cases env.fault <;> rfl

theorem put_memtable (s : SegmentStore) (r : VectorRecord) (env : FlushEnv) :
    (s.put X r env).1.memtable =
      if (s.memtable.put r).shouldFlush then { s.memtable with data := ∅ }
        else s.memtable.put r := by
  simp only [SegmentStore.put]
  split
  · exact flush_memtable _ env
  · rfl

end Vsector.Storage

namespace Vsector.Ingest

open Framework Models Storage Sharding Index ShardContext

variable {X : Externals} {ι : Type} {svc svc' : IngestService ι} {settings : Namespace}
  {ns : String} {shard : Shard}

/-! ## The contexts of a service -/

namespace IngestService

theorem ctxKey_inj {a b : String} : ctxKey ns a = ctxKey ns b ↔ a = b := by
  simp [ctxKey, String.append_right_inj, ToString.toString]

/-- What no operation on a context changes. -/
structure SameBase (svc svc' : IngestService ι) : Prop where
  settings : svc'.settings = svc.settings
  router : svc'.router = svc.router
  nodeId : svc'.nodeId = svc.nodeId
  roots : svc'.roots = svc.roots
  idempotency : svc'.idempotency = svc.idempotency

theorem SameBase.refl (svc : IngestService ι) : SameBase svc svc := ⟨rfl, rfl, rfl, rfl, rfl⟩

theorem SameBase.trans {svc'' : IngestService ι} (h : SameBase svc svc')
    (h' : SameBase svc' svc'') :
    SameBase svc svc'' :=
  ⟨h'.settings.trans h.settings, h'.router.trans h.router, h'.nodeId.trans h.nodeId,
    h'.roots.trans h.roots, h'.idempotency.trans h.idempotency⟩

/-- Services that differ in their statistics and kept results only. -/
structure SameContexts (svc svc' : IngestService ι) : Prop where
  settings : svc'.settings = svc.settings
  router : svc'.router = svc.router
  nodeId : svc'.nodeId = svc.nodeId
  roots : svc'.roots = svc.roots
  shards : svc'.shards = svc.shards

variable [BaseIndex ι]

/-- The context an operation on a shard is applied to, in a process that found no directories. -/
def ctxAt (svc : IngestService ι) (settings : Namespace) (ns : String) (shard : Shard) :
    ShardContext ι :=
  match svc.shards.get? (ctxKey ns shard.id) with
  | some ctx => ctx
  | none => .fresh shard settings svc.settings.memtableThreshold

theorem ctxAt_of_some {ctx : ShardContext ι} (h : svc.shards.get? (ctxKey ns shard.id) = some ctx) :
    svc.ctxAt settings ns shard = ctx := by
  rw [ctxAt, h]

theorem ctxAt_congr
    (h : svc'.shards.get? (ctxKey ns shard.id) = svc.shards.get? (ctxKey ns shard.id))
    (hs : svc'.settings = svc.settings) :
    svc'.ctxAt settings ns shard = svc.ctxAt settings ns shard := by
  rw [ctxAt, ctxAt, h, hs]

theorem setShard_eq_self {e : InMemoryEtcd} {s : Shard} (h : e.get s.id = some s) :
    e.setShard s = e := by
  have hd : e.live.shards.set s.id s = e.live.shards := Dict.set_eq_self h
  obtain ⟨⟨shards, nodes, migrations, hs, hm⟩, file⟩ := e
  simp only [InMemoryEtcd.setShard, EtcdData.setShard] at hd ⊢
  simp only [hd]

/-- Looking up the context of a shard of the store: a new one has no vectors, so no count
changes. -/
theorem getOrCreateCtx_ok (hm : svc.settings.metadata.get? ns = some settings) (hr : svc.roots = ∅)
    (hs : svc.router.etcd.get shard.id = some shard) :
    ∃ shards, svc.getOrCreateCtx X ns shard = .ok ({ svc with shards := shards },
      svc.ctxAt settings ns shard) ∧
      shards.get? (ctxKey ns shard.id) = some (svc.ctxAt settings ns shard) ∧
      ∀ key, key ≠ ctxKey ns shard.id → shards.get? key = svc.shards.get? key := by
  rw [getOrCreateCtx, ctxAt]
  cases hc : svc.shards.get? (ctxKey ns shard.id) with
  | some ctx => exact ⟨svc.shards, rfl, hc, fun _ _ => rfl⟩
  | none =>
    have hroot : (svc.roots.get? shard.id).getD ∅ = ∅ := by rw [hr]; rfl
    have hcount : svc.setCount shard
        (fresh shard settings svc.settings.memtableThreshold : ShardContext ι).shard.vectorCount =
        svc := by
      have he : svc.router.etcd.setShard { shard with vectorCount := shard.vectorCount } =
          svc.router.etcd :=
        setShard_eq_self hs
      rw [setCount]
      show { svc with router := { svc.router with
        etcd := svc.router.etcd.setShard { shard with vectorCount := shard.vectorCount } } } = svc
      rw [he]
    simp only [hm, hroot, init_empty, hcount]
    exact ⟨_, rfl, Dict.get?_set_self _ _ _, fun key hk => Dict.get?_set_ne _ _ hk⟩

/-- The block of `upsert` for a record that nothing raises for and whose shard does not split. -/
theorem upsertRecord_eq {s : UpsertState ι} {raw : Raw} {env : RecordEnv ι} {rec : VectorRecord}
    {ctx ctx' : ShardContext ι} (hp : parseRecord X ns settings raw env.now env.uuid4 = .ok rec)
    (hw : s.svc.router.routeWrite X ns rec.id.text s.svc.nodeId = .ok shard)
    (hg : s.svc.getOrCreateCtx X ns shard = .ok (svc, ctx))
    (ha : ctx.applyUpsert X rec (some (X.modelDumpJson rec)) env.flush env.index = (ctx', .ok ()))
    (hb : env.bookkeeping = none) (hs : ctx'.shard.vectorCount ≤ shard.maxVectors) :
    ∃ replicator stats replications, upsertRecord X ns settings s raw env =
      { svc := { svc.setCtx (ctxKey ns shard.id) ctx' with
          router := { svc.router with
            etcd := svc.router.etcd.setShard { shard with vectorCount := ctx'.shard.vectorCount } }
          replicator := replicator
          replicationStats := stats }
        upserted := s.upserted ++ [rec.id.text]
        errors := s.errors
        touched := s.touched.add (ctxKey ns shard.id)
        replications := replications } := by
  have hsplit : ({ shard with vectorCount := ctx'.shard.vectorCount } : Shard).shouldSplit =
      false :=
    decide_eq_false (by simpa using hs)
  simp only [upsertRecord, hp, hw, hg, ha, hb, ShardRouter.maybeSplit, hsplit, Bool.false_eq_true,
    not_false_eq_true, if_true]
  exact ⟨_, _, _, rfl⟩

/-- The block of `delete` for an id on a shard whose context is there. -/
theorem deleteId_eq {s : DeleteState ι} {id : String × Nat} (settings : Namespace)
    (env : Nat → DeliveryEnv) {ctx ctx' : ShardContext ι}
    (hk : s.svc.shards.get? (ctxKey ns shard.id) = some ctx)
    (ha : ctx.applyDelete X id.1 = (ctx', .ok ())) :
    ∃ s', deleteId X ns settings shard env s id = (s', .ok ()) ∧ SameBase s.svc s'.svc ∧
      s'.svc.shards = s.svc.shards.set (ctxKey ns shard.id) ctx' := by
  simp only [deleteId, hk, ha]
  exact ⟨_, rfl, ⟨rfl, rfl, rfl, rfl, rfl⟩, rfl⟩

omit [BaseIndex ι] in
theorem flushLogs_ok (svc : IngestService ι) (touched : PySet String) :
    SameBase svc (svc.flushLogs touched) ∧ ∀ key, (svc.flushLogs touched).shards.get? key =
      (svc.shards.get? key).map fun ctx => if key ∈ touched.keys then ctx.flushWal else ctx := by
  have hfold : ∀ (keys : List String) (svc : IngestService ι), keys.Nodup →
      let svc' := keys.foldl (fun svc key =>
        match svc.shards.get? key with
        | some ctx => svc.setCtx key ctx.flushWal
        | none => svc) svc
      SameBase svc svc' ∧ ∀ key, svc'.shards.get? key =
        (svc.shards.get? key).map fun ctx => if key ∈ keys then ctx.flushWal else ctx := by
    intro keys
    induction keys with
    | nil => exact fun svc _ => ⟨.refl svc, fun key => by simp⟩
    | cons k keys ih =>
      intro svc hn
      rw [List.nodup_cons] at hn
      simp only [List.foldl_cons]
      cases hk : svc.shards.get? k with
      | none =>
        simp only
        obtain ⟨hbase, hget⟩ := ih svc hn.2
        refine ⟨hbase, fun key => ?_⟩
        rw [hget]
        by_cases he : key = k
        · rw [he, hk]; rfl
        · simp only [List.mem_cons, he, false_or]
      | some ctx =>
        simp only
        have hset : SameBase svc (svc.setCtx k ctx.flushWal) := ⟨rfl, rfl, rfl, rfl, rfl⟩
        obtain ⟨hbase, hget⟩ := ih (svc.setCtx k ctx.flushWal) hn.2
        refine ⟨hset.trans hbase, fun key => ?_⟩
        rw [hget, setCtx, Dict.get?_set]
        by_cases he : key = k
        · rw [if_pos he, he, hk, Option.map_some, Option.map_some, if_neg hn.1,
            if_pos List.mem_cons_self]
        · rw [if_neg he]
          simp only [List.mem_cons, he, false_or]
  exact hfold touched.keys svc touched.nodup_keys

omit [BaseIndex ι] in
/-- A memtable that is full only when it is empty is not flushed. -/
theorem flushIfFull_eq {background : String → FlushEnv} {key : String}
    (h : ∀ ctx, svc.shards.get? key = some ctx → ctx.segments.memtable.shouldFlush →
      ctx.segments.memtable.count = 0) :
    flushIfFull X background svc key = (svc, .ok ()) := by
  rw [flushIfFull]
  cases hk : svc.shards.get? key with
  | none => rfl
  | some ctx =>
    by_cases hf : ctx.segments.memtable.shouldFlush
    · have hset : svc.setCtx key ctx = svc := by rw [setCtx, Dict.set_eq_self hk]
      simp only [if_pos hf, ShardContext.flushMemtable, SegmentStore.flush, if_pos (h ctx hk hf)]
      exact Prod.ext hset rfl
    · simp only [if_neg hf]

/-- `upsert` after a batch whose memtables are flushed, for a request that was not answered
before. -/
theorem upsert_cases {records : List (Raw × RecordEnv ι)} {key : Option String}
    {background : String → FlushEnv}
    (hk : (key.filter (· ≠ "")).bind svc.idempotency.get? = none)
    (hm : svc.settings.metadata.get? ns = some settings)
    (hf :
      let s := records.foldl (fun s r => upsertRecord X ns settings s r.1 r.2)
        ⟨svc, [], [], ∅, []⟩
      forEach (flushIfFull X background) (s.svc.flushLogs s.touched) s.touched.keys =
        (svc', .ok ())) :
    (∃ e, svc.upsert X ns records key background = (svc, .error e)) ∨
      ∃ svc'' result, svc.upsert X ns records key background = (svc'', .ok result) ∧
        SameContexts svc' svc'' ∧
        ∀ k, (svc''.idempotency.get? k).isSome ↔
          (svc'.idempotency.get? k).isSome ∨ key.filter (· ≠ "") = some k := by
  simp only [upsert, hk, hm]
  split
  · exact .inl ⟨_, rfl⟩
  · refine .inr ?_
    simp only at hf
    rw [hf]
    refine ⟨_, _, rfl, ⟨rfl, rfl, rfl, rfl, rfl⟩, fun k => ?_⟩
    cases key.filter (· ≠ "") with
    | none => simp
    | some a =>
      simp only [Dict.get?_set, Option.some.injEq, eq_comm (a := a)]
      by_cases ha : k = a <;> simp [ha]

variable (X ns svc) in
/-- `delete`, with `block` for what it does on one shard. -/
def deleteOnShards (block : Namespace → DeleteState ι → Shard → DeleteState ι × Except Exc Unit) :
    IngestService ι × Except Exc DeleteResult :=
  match svc.settings.metadata.get? ns with
  | none => (svc, .error (.valueError "namespace not found"))
  | some settings =>
    match svc.router.writable ns svc.nodeId with
    | .error e => (svc, .error e)
    | .ok shards =>
      match forEach (block settings) ⟨svc, 0, ∅, []⟩ shards with
      | (s, .error e) => (s.svc, .error e)
      | (s, .ok ()) =>
        let svc := s.svc.flushLogs s.touched
        (svc, .ok
          { deleted := s.deleted
            replication := aggregateReplication s.replications settings.requiredAcks
            health := svc.replicationHealthMap ns settings s.touched })

theorem delete_eq (ids : List String) (env : String → Nat → DeliveryEnv) :
    svc.delete X ns ids env = svc.deleteOnShards ns fun settings =>
      deleteOnShard X ns settings ids env := rfl

theorem deleteByFilter_eq (filter : Query.Filter) (env : String → Nat → DeliveryEnv) :
    svc.deleteByFilter X ns filter env = svc.deleteOnShards ns fun settings =>
      deleteFilterOnShard X ns settings filter env :=
  rfl

omit [BaseIndex ι] in
/-- The result of a delete that nothing raises for. -/
theorem deleteOnShards_ok
    {block : Namespace → DeleteState ι → Shard → DeleteState ι × Except Exc Unit}
    {result : DeleteResult} (h : svc.deleteOnShards ns block = (svc', .ok result)) : ∃ settings t,
      forEach (block settings) ⟨svc, 0, ∅, []⟩ (svc.router.etcd.listByNamespace ns) = (t, .ok ()) ∧
        result.deleted = t.deleted ∧ svc' = t.svc.flushLogs t.touched := by
  unfold deleteOnShards at h
  split at h
  · cases h
  · rename_i settings _
    split at h
    · cases h
    · rename_i shards hw
      rw [ShardRouter.writable_eq hw] at h
      split at h
      · cases h
      · rename_i t hloop
        cases h
        exact ⟨settings, t, hloop, rfl, rfl⟩

end IngestService

/-! ## One context -/

/-- A flush at a later time than those that wrote the files there are, without a fault. -/
def FlushLater (s : SegmentStore) (env : FlushEnv) : Prop :=
  (∀ t, sstName t env.pid ∈ s.hot.keys → t < env.ts) ∧ env.fault = none

/-- The time in a file's name decides. -/
instance (s : SegmentStore) (env : FlushEnv) : Decidable (FlushLater s env) :=
  decidable_of_iff ((∀ name ∈ s.hot.keys, name = sstName (stampOf name) env.pid →
      stampOf name < env.ts) ∧ env.fault = none) <| and_congr_left fun _ => by
    constructor
    · intro h t ht
      have hlt := h _ ht
      rw [stampOf_sstName] at hlt
      exact hlt rfl
    · intro h name hname he
      exact h _ (he ▸ hname)

theorem FlushLater.get? {s : SegmentStore} {env : FlushEnv} (h : FlushLater s env) :
    s.hot.get? (sstName env.ts env.pid) = none := by
  by_contra hn
  exact lt_irrefl _ (h.1 _ (Dict.mem_keys.mpr (Option.isSome_iff_ne_none.mpr hn)))

variable [BaseIndex ι]

/-- A context of a shard with `count` vectors that shows the last operations `last`, where a
memtable flush writes finite records, and comes before the memtable has more records than its
threshold. -/
structure Tracks (X : Externals) [LawfulIndex ι] (settings : Namespace) (count : Nat)
    (ctx : ShardContext ι) (last : String → Option Op) : Prop where
  shows : Shows X ctx last
  ns_eq : ctx.ns = settings
  count_eq : ctx.shard.vectorCount = count
  finite : ∀ r ∈ ctx.segments.memtable.data.values, r.Finite
  room : ctx.segments.memtable.shouldFlush → ctx.segments.memtable.count = 0

variable [LawfulIndex ι] {count : Nat} {ctx : ShardContext ι} {last : String → Option Op}

theorem tracks_fresh (shard : Shard) (settings : Namespace) (threshold : Nat) :
    Tracks X settings shard.vectorCount (fresh shard settings threshold : ShardContext ι)
      fun _ => none where
  shows := shows_fresh shard settings threshold
  ns_eq := rfl
  count_eq := rfl
  finite _ h := absurd h List.not_mem_nil
  room _ := rfl

theorem finite_put {m : MemTable} {r : VectorRecord} (h : ∀ r ∈ m.data.values, r.Finite)
    (hr : r.Finite) :
    ∀ r' ∈ (m.put r).data.values, r'.Finite := by
  intro r' hm
  obtain ⟨k, hk⟩ := Dict.mem_values.mp hm
  rw [MemTable.put, Dict.get?_set] at hk
  split at hk
  · cases hk; exact hr
  · exact h r' (Dict.mem_values.mpr ⟨k, hk⟩)

theorem Tracks.upsert (hX : X.Lawful) (h : Tracks X settings count ctx last) {r : VectorRecord}
    (payload : Text) {env : FlushEnv} (hr : r.Finite) (hd : r.dimension = settings.dimension)
    (hf : (ctx.segments.memtable.put r).shouldFlush → FlushLater ctx.segments env) :
    ∃ ctx', ctx.applyUpsert X r payload env none = (ctx', .ok ()) ∧
      Tracks X settings (count + 1) ctx' (write last (.upsert r)) := by
  have hfin := finite_put h.finite hr
  obtain ⟨ctx', hu, hsh, hseg, -, hns, -, -, hcount⟩ := upsert_ok hX h.shows payload
    (hd.trans (congrArg Namespace.dimension h.ns_eq.symm)) fun hs => ⟨hfin, (hf hs).get?, (hf hs).2⟩
  refine ⟨ctx', hu, hsh, hns.trans h.ns_eq, by rw [hcount, ← h.count_eq], ?_, ?_⟩
  · rw [hseg, put_memtable]
    split
    · exact fun _ h => absurd h List.not_mem_nil
    · exact hfin
  · rw [hseg, put_memtable]
    split
    · exact fun _ => rfl
    · rename_i hn
      exact fun hs => absurd hs hn

theorem Tracks.delete (h : Tracks X settings count ctx last) (id : String) :
    ∃ ctx', ctx.applyDelete X id = (ctx', .ok ()) ∧
      Tracks X settings count ctx' (write last (.delete id)) := by
  obtain ⟨ctx', hu, hsh, -, -, hns, hshard, hm⟩ := delete_ok h.shows id
  refine ⟨ctx', hu, hsh, hns.trans h.ns_eq, by rw [hshard, h.count_eq], ?_, ?_⟩
  · rcases hm with hm | hm
    · rw [hm]; exact h.finite
    · rw [hm]
      intro r hr
      obtain ⟨k, hk⟩ := Dict.mem_values.mp hr
      rw [MemTable.delete, Dict.get?_pop] at hk
      split at hk
      · cases hk
      · exact h.finite r (Dict.mem_values.mpr ⟨k, hk⟩)
  · rcases hm with hm | hm
    · rw [hm]; exact h.room
    · rw [hm]
      intro hs
      have hle : (ctx.segments.memtable.delete id).count ≤ ctx.segments.memtable.count :=
        Dict.length_pop_le _ id
      have hthr : ctx.segments.memtable.flushThreshold ≤ (ctx.segments.memtable.delete id).count :=
        of_decide_eq_true hs
      have hzero := h.room (decide_eq_true (le_trans hthr hle))
      omega

theorem Tracks.flush (hX : X.Lawful) (h : Tracks X settings count ctx last) {env : FlushEnv}
    (hf : ctx.segments.memtable.count ≠ 0 → FlushLater ctx.segments env) :
    ∃ ctx', ctx.flushMemtable X env = (ctx', .ok ()) ∧ Tracks X settings count ctx' last := by
  obtain ⟨ctx', hfl, hsh, he⟩ :=
    flushMemtable_ok hX h.shows fun hn => ⟨h.finite, (hf hn).get?, (hf hn).2⟩
  subst he
  refine ⟨_, hfl, hsh, h.ns_eq, h.count_eq, ?_, ?_⟩
  · rw [flush_memtable]; exact fun _ h => absurd h List.not_mem_nil
  · rw [flush_memtable]; exact fun _ => rfl

theorem Tracks.flushWal (h : Tracks X settings count ctx last) :
    Tracks X settings count ctx.flushWal last :=
  ⟨h.shows.congr rfl rfl rfl rfl, h.ns_eq, h.count_eq, h.finite, h.room⟩

end Vsector.Ingest
