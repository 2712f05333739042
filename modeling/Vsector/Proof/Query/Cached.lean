import Vsector.Impl.Api.Vectors
import Vsector.Proof.Api.Namespaces
import Vsector.Proof.Infra.CacheKey
import Vsector.Proof.Ingest.Elsewhere
import Vsector.Proof.Models.Documents

/-!
# Cached answers

An answer from the cache is that of an earlier query of the same key. A ledger
of the run (`Ledger`) tells which one it is, whether it timed out, and whether
its namespace was written to since; where it is for the same flags and neither
of these happened, the answer is what the shards would give
(`cached_answers_fresh`). Nothing but an upsert that returns empties the
cache, so a query may get what was deleted before (`serves_deleted`).
-/

namespace Vsector.Infra

open Framework

variable {X : Models.Externals} {α : Type} {c : TieredCache α} {now : ℚ} {q : CacheQuery}
  {key : String} {v : α}

namespace TieredCache

/-- One of the levels keeps the value under the key. -/
def Holds (c : TieredCache α) (key : String) (v : α) : Prop :=
  (∃ t, c.l1.get? key = some ⟨t, v⟩) ∨ ∃ d t, c.redis = some d ∧ d.get? key = some ⟨t, v⟩

theorem redisGet_holds (h : c.redisGet now key = some v) :
    ∃ d t, c.redis = some d ∧ d.get? key = some ⟨t, v⟩ := by
  unfold redisGet at h
  split at h
  · rename_i entry he
    obtain ⟨d, hd, hk⟩ := Option.bind_eq_some_iff.mp he
    split at h
    · cases h
      exact ⟨d, entry.time, hd, hk⟩
    · cases h
  · cases h

/-- A look-up finds what a level keeps, and moves values between the levels only. -/
theorem getQuery_holds : (∀ v, (c.getQuery X now q).2 = some v → c.Holds (hashQuery X q) v) ∧
    ∀ key v, (c.getQuery X now q).1.Holds key v → c.Holds key v := by
  -- `r` is what Redis answers, where the memory does not
  have hsecond : ∀ (d : TieredCache α) (r : TieredCache α × Option α), d.redis = c.redis →
      (∀ key v, d.Holds key v → c.Holds key v) →
        (d.redisGet now (hashQuery X q) = none → r = (d, none)) →
      (∀ u, d.redisGet now (hashQuery X q) = some u →
        r = ({ d with l1 := d.l1.set (hashQuery X q) ⟨now, u⟩ }, some u)) →
      (∀ v, r.2 = some v → c.Holds (hashQuery X q) v) ∧ ∀ key v, r.1.Holds key v →
        c.Holds key v := by
    intro d r hredis hd hnone hsome
    cases hg : d.redisGet now (hashQuery X q) with
    | none =>
      rw [hnone hg]
      exact ⟨fun v hv => (by cases hv), hd⟩
    | some u =>
      have hu : c.Holds (hashQuery X q) u := .inr (hredis ▸ redisGet_holds hg)
      rw [hsome u hg]
      refine ⟨fun v hv => by cases hv; exact hu, fun key v hv => ?_⟩
      rcases hv with ⟨t, ht⟩ | hv
      · have hset : (d.l1.set (hashQuery X q) ⟨now, u⟩).get? key = some ⟨t, v⟩ := ht
        rw [Dict.get?_set] at hset
        split at hset
        · rename_i he
          cases hset
          rw [he]
          exact hu
        · exact hd key v (.inl ⟨t, hset⟩)
      · exact hd key v (.inr hv)
  unfold getQuery
  dsimp only
  cases hk : c.l1.get? (hashQuery X q) with
  | none => exact hsecond c _ rfl (fun _ _ h => h) (fun hg => by rw [hg]) fun u hg => by rw [hg]
  | some entry =>
    dsimp only
    split
    · exact ⟨fun v hv => by cases hv; exact .inl ⟨entry.time, hk⟩, fun _ _ h => h⟩
    · refine hsecond { c with l1 := c.l1.pop (hashQuery X q) } _ rfl (fun key v hv => ?_)
        (fun hg => by rw [hg])
        fun u hg => by rw [hg]
      rcases hv with ⟨t, ht⟩ | hv
      · have hpop : (c.l1.pop (hashQuery X q)).get? key = some ⟨t, v⟩ := ht
        rw [Dict.get?_pop] at hpop
        split at hpop
        · cases hpop
        · exact .inl ⟨t, hpop⟩
      · exact .inr hv

theorem setQuery_holds {u : α} (h : (c.setQuery X now q u).Holds key v) :
    (key = hashQuery X q ∧ v = u) ∨ (key ≠ hashQuery X q ∧ c.Holds key v) := by
  have hset : ∀ (d : Dict String (Stamped α)) t,
      (d.set (hashQuery X q) ⟨now, u⟩).get? key = some ⟨t, v⟩ →
      (key = hashQuery X q ∧ v = u) ∨ (key ≠ hashQuery X q ∧ d.get? key = some ⟨t, v⟩) := by
    intro d t ht
    rw [Dict.get?_set] at ht
    split at ht
    · rename_i he
      cases ht
      exact .inl ⟨he, rfl⟩
    · rename_i he
      exact .inr ⟨he, ht⟩
  rcases h with ⟨t, ht⟩ | ⟨d, t, hd, ht⟩
  · exact (hset c.l1 t ht).imp id fun h => ⟨h.1, .inl ⟨t, h.2⟩⟩
  · obtain ⟨d₀, hd₀, rfl⟩ := Option.map_eq_some_iff.mp hd
    exact (hset d₀ t ht).imp id fun h => ⟨h.1, .inr ⟨d₀, t, hd₀, h.2⟩⟩

theorem invalidateNamespace_holds (ns : String) : ¬ (c.invalidateNamespace ns).Holds key v := by
  rintro (⟨t, ht⟩ | ⟨d, t, hd, ht⟩)
  · cases ht
  · obtain ⟨d₀, -, rfl⟩ := Option.map_eq_some_iff.mp hd
    cases ht

end TieredCache

end Vsector.Infra

namespace Vsector.Query

open Framework Models Storage Sharding Index Ingest Infra Api IngestService

variable {ι σ : Type} {X : Externals} [LinearOrder σ] {Q : QueryEngine ι σ}

/-! ## Fresh answers -/

/-- The results without the cache, where the shards answer in time. -/
def freshResults (X : Externals) (Q : QueryEngine ι σ) (svc : IngestService ι) (r : QueryRequest) :
    Except Exc (List (Candidate σ)) :=
  match svc.router.routeForQuery r.ns with
  | [] => .ok []
  | shards => (fanOut X Q svc r shards).map (ranked Q r)

/-- The flags that are no part of the key. -/
def SameFlags (r r' : QueryRequest) : Prop :=
  r.includeMetadata = r'.includeMetadata ∧ r.efSearch.getD 100 = r'.efSearch.getD 100 ∧
  r.nprobe = r'.nprobe ∧
    r.includeVector = r'.includeVector

theorem freshResults_congr {svc : IngestService ι} {r r' : QueryRequest}
    (hq : r.cacheQuery = r'.cacheQuery) (hf : SameFlags r r') :
    freshResults X Q svc r = freshResults X Q svc r' := by
  obtain ⟨ns, vector, topK, efSearch, filters, includeMetadata, includeVector, nprobe⟩ := r
  obtain ⟨ns', vector', topK', efSearch', filters', includeMetadata', includeVector', nprobe'⟩ := r'
  obtain ⟨rfl, hef, rfl, rfl⟩ := hf
  cases hq
  have hsearch : ∀ shard, searchShard X Q svc ⟨ns, vector, topK, efSearch, filters, includeMetadata,
      includeVector, nprobe⟩ shard =
      searchShard X Q svc ⟨ns, vector, topK, efSearch', filters, includeMetadata, includeVector,
        nprobe⟩ shard := by
    intro shard
    simp only [searchShard, hef]
    rfl
  simp only [freshResults, fanOut, funext hsearch]
  rfl

/-- The services have the same shards of a namespace, and the same contexts for them. -/
structure SameView (n : String) (svc svc' : IngestService ι) : Prop where
  list : svc'.router.etcd.listByNamespace n = svc.router.etcd.listByNamespace n
  contexts : ∀ id, svc'.shards.get? (ctxKey n id) = svc.shards.get? (ctxKey n id)

theorem SameView.refl (n : String) (svc : IngestService ι) : SameView n svc svc :=
  ⟨rfl, fun _ => rfl⟩

variable {svc svc' : IngestService ι} {r : QueryRequest}

omit [LinearOrder σ] in
theorem SameView.routeForQuery {n : String} (h : SameView n svc svc') :
    svc'.router.routeForQuery n = svc.router.routeForQuery n := by
  rw [ShardRouter.routeForQuery, ShardRouter.routeForQuery, h.list]

omit [LinearOrder σ] in
theorem SameView.fanOut (h : SameView r.ns svc svc') (shards : List Shard) :
    fanOut X Q svc' r shards = fanOut X Q svc r shards := by
  have hsearch : searchShard X Q svc' r = searchShard X Q svc r := by
    funext shard
    rw [searchShard, searchShard, h.contexts]
  rw [Query.fanOut, Query.fanOut, hsearch]

theorem SameView.freshResults (h : SameView r.ns svc svc') :
    freshResults X Q svc' r = freshResults X Q svc r := by
  simp only [Query.freshResults, h.routeForQuery, h.fanOut]

/-- Names without a colon end where the key of a context has its first one. -/
theorem ctxKey_ns {n n' id id' : String} (hn : isNamespaceName n = true)
    (hn' : isNamespaceName n' = true) (h : ctxKey n id = ctxKey n' id') : n = n' := by
  have hchars : ∀ m : String, isNamespaceName m = true →
      ∀ c ∈ m.toList, decide (c ≠ ':') = true := by
    intro m hm c hc
    refine decide_eq_true fun he => ?_
    subst he
    rw [isNamespaceName, Bool.and_eq_true] at hm
    exact absurd (List.all_eq_true.mp hm.2 _ hc) (by decide)
  have hlist : ∀ m i : String, (ctxKey m i).toList = m.toList ++ ':' :: i.toList := by
    intro m i
    simp [ctxKey, String.toList_append, ToString.toString]
  have hstop : ∀ l : List Char, ∀ c ∈ (':' :: l).head?, decide (c ≠ ':') = false :=
    fun l c hc => by cases hc; rfl
  have htext := congrArg String.toList h
  rw [hlist, hlist] at htext
  exact String.toList_inj.mp (takeWhile_unique (hchars n hn) (hchars n' hn') (hstop _)
    (hstop _) htext).1

theorem sameView_of_keeps {ns n : String} (h : KeepsOthers ns svc svc')
    (hns : isNamespaceName ns = true) (hn : isNamespaceName n = true) (hne : n ≠ ns) :
    SameView n svc svc' where
  list := h.store.list n hne
  contexts _ := h.contexts _ fun ⟨_, hid⟩ => hne (ctxKey_ns hn hns hid)

/-! ## The ledger -/

/-- The query whose answer was kept, whether it timed out, and how often its namespace had been
written to when it began. -/
structure Kept where
  request : QueryRequest
  timedOut : Bool
  writes : Nat

/-- What is remembered of a run: the writes to each namespace, those before each query that waits,
and the last query kept under each key. -/
structure Ledger where
  writes : String → Nat
  begun : Dict Nat Nat
  kept : Dict String Kept

def Ledger.empty : Ledger := ⟨fun _ => 0, ∅, ∅⟩

def Ledger.write (l : Ledger) (ns : String) : Ledger :=
  { l with writes := Function.update l.writes ns (l.writes ns + 1) }

/-- A query that waits is kept at its end, unless it asked for vectors or a search raised in
time. -/
def Ledger.finish (l : Ledger) (X : Externals) (id : Nat) (w : Inflight σ) (timedOut : Bool) :
    Ledger :=
  match timedOut, w.found with
  | false, some (.error _) | false, none => l
  | _, _ =>
    if w.request.includeVector then l
    else { l with kept := l.kept.set (hashQuery X w.request.cacheQuery) ⟨w.request, timedOut,
      (l.begun.get? id).getD 0⟩ }

def Ledger.next (X : Externals) (s : Server ι σ) (l : Ledger) : ServerOp ι → Ledger
  | .upsert ns _ _ _ | .delete ns _ _ _ | .deleteNamespace ns => l.write ns
  | .query id _ r => { l with begun := l.begun.set id (l.writes r.ns) }
  | .search _ => l
  | .finish id _ _ timedOut =>
    match s.inflight.get? id with
    | none => l
    | some w => l.finish X id w timedOut

variable [BaseIndex ι]

/-- A server and its ledger. -/
def tracedStep (X : Externals) (Q : QueryEngine ι σ) (s : Server ι σ × Ledger) (op : ServerOp ι) :
    Option (Server ι σ × Ledger) := (serverStep X Q s.1 op).map fun t => (t, s.2.next X s.1 op)

/-- The query whose answer is kept for a request asked with the same flags, did not time out, and
began after the last write to its namespace. -/
def Unspoiled (X : Externals) (l : Ledger) (r : QueryRequest) : Prop :=
  ∀ k, l.kept.get? (hashQuery X r.cacheQuery) = some k →
    SameFlags k.request r ∧ k.timedOut = false ∧ k.writes = l.writes r.ns

/-- A query that was made in the run. -/
def Asked (ops : List (ServerOp ι)) (r : QueryRequest) : Prop :=
  ∃ id now, ServerOp.query id now r ∈ ops

/-! ## The invariant -/

/-- What is kept under a key is what the query of the ledger left, and it is fresh where nothing
spoiled it; a query that waits asks the right shards and has found what they give, where nothing
was written since it began. -/
structure Accounted (X : Externals) (Q : QueryEngine ι σ) (ops : List (ServerOp ι)) (s : Server ι σ)
    (l : Ledger) :
    Prop where
  names : ∀ n, (s.ingest.settings.metadata.get? n).isSome → isNamespaceName n = true
  kept : ∀ key answer, s.cache.Holds key answer → ∃ k, l.kept.get? key = some k ∧
    key = hashQuery X k.request.cacheQuery ∧ Asked ops k.request ∧
    isNamespaceName k.request.ns = true ∧
    k.writes ≤ l.writes k.request.ns ∧
    (k.timedOut = false → k.writes = l.writes k.request.ns →
      freshResults X Q s.ingest k.request = .ok answer.results)
  waiting : ∀ id w, s.inflight.get? id = some w → ∃ n, l.begun.get? id = some n ∧
    Asked ops w.request ∧
    isNamespaceName w.request.ns = true ∧ n ≤ l.writes w.request.ns ∧
    (n = l.writes w.request.ns → w.shards ≠ [] ∧
      w.shards = s.ingest.router.routeForQuery w.request.ns ∧
      ∀ found, w.found = some found → found = fanOut X Q s.ingest w.request w.shards)

omit [BaseIndex ι] in
theorem Asked.mono {ops : List (ServerOp ι)} {op : ServerOp ι} {r : QueryRequest}
    (h : Asked ops r) :
    Asked (ops ++ [op]) r := by
  obtain ⟨id, now, hm⟩ := h
  exact ⟨id, now, List.mem_append_left _ hm⟩

theorem Ledger.write_ne (l : Ledger) {n ns : String} (h : n ≠ ns) :
    (l.write ns).writes n = l.writes n :=
  Function.update_of_ne h _ _

theorem Ledger.write_self (l : Ledger) (ns : String) : (l.write ns).writes ns = l.writes ns + 1 :=
  Function.update_self _ _ _

omit [BaseIndex ι] in
/-- A write to a namespace, which keeps what the cache has or less. -/
theorem Accounted.write {ops : List (ServerOp ι)} {s t : Server ι σ} {l : Ledger} {op : ServerOp ι}
    {ns : String} (h : Accounted X Q ops s l) (hin : t.inflight = s.inflight)
    (hcache : ∀ key answer, t.cache.Holds key answer → s.cache.Holds key answer)
    (hmeta : ∀ n, (t.ingest.settings.metadata.get? n).isSome →
      (s.ingest.settings.metadata.get? n).isSome)
    (hview : ∀ n, isNamespaceName n = true → n ≠ ns → SameView n s.ingest t.ingest) :
    Accounted X Q (ops ++ [op]) t (l.write ns) where
  names n hn := h.names n (hmeta n hn)
  kept key answer ha := by
    obtain ⟨k, hk, hkey, hasked, hname, hle, hfresh⟩ := h.kept key answer (hcache key answer ha)
    refine ⟨k, hk, hkey, hasked.mono, hname, ?_⟩
    by_cases hns : k.request.ns = ns
    · rw [hns, l.write_self]
      rw [hns] at hle
      exact ⟨by omega, fun _ he => by omega⟩
    · rw [l.write_ne hns, (hview _ hname hns).freshResults]
      exact ⟨hle, hfresh⟩
  waiting id w hw := by
    rw [hin] at hw
    obtain ⟨n, hn, hasked, hname, hle, hfresh⟩ := h.waiting id w hw
    refine ⟨n, hn, hasked.mono, hname, ?_⟩
    by_cases hns : w.request.ns = ns
    · rw [hns, l.write_self]
      rw [hns] at hle
      exact ⟨by omega, fun he => by omega⟩
    · rw [l.write_ne hns, (hview _ hname hns).routeForQuery, (hview _ hname hns).fanOut]
      exact ⟨hle, hfresh⟩

/-! ## Steps -/

omit [LinearOrder σ] [BaseIndex ι] in
/-- What `query` comes to before it waits. -/
theorem beginQuery_spec {cache cache' : TieredCache (QueryAnswer σ)} {now : ℚ}
    {b : Except Exc (Begun σ)} (h : beginQuery X svc cache now r = (cache', b)) :
    (∀ key v, cache'.Holds key v → cache.Holds key v) ∧
      (∀ answer, b = .ok (.cached answer) → cache.Holds (hashQuery X r.cacheQuery) answer ∧
        r.includeVector = false) ∧
      ∀ shards, b = .ok (.waiting shards) → shards ≠ [] ∧ shards = svc.router.routeForQuery r.ns ∧
        (svc.settings.metadata.get? r.ns).isSome := by
  unfold beginQuery at h
  split at h
  · cases h
    exact ⟨fun _ _ h => h, (fun _ h => by cases h), fun _ h => by cases h⟩
  · rename_i ns hns
    split at h
    · cases h
      exact ⟨fun _ _ h => h, (fun _ h => by cases h), fun _ h => by cases h⟩
    · have hfresh : ∀ shards, (Except.ok (match svc.router.routeForQuery r.ns with
          | [] => .noShards
          | shards => .waiting shards) : Except Exc (Begun σ)) = .ok (.waiting shards) →
          shards ≠ [] ∧ shards = svc.router.routeForQuery r.ns ∧
          (svc.settings.metadata.get? r.ns).isSome := by
        intro shards hs
        rcases hroute : svc.router.routeForQuery r.ns with - | ⟨a, l⟩
        · rw [hroute] at hs
          cases hs
        · rw [hroute] at hs
          cases hs
          exact ⟨List.cons_ne_nil _ _, rfl, by rw [hns]; rfl⟩
      have hnot : ∀ answer, (Except.ok (match svc.router.routeForQuery r.ns with
          | [] => .noShards
          | shards => .waiting shards) : Except Exc (Begun σ)) ≠ .ok (.cached answer) := by
        intro answer hs
        rcases hroute : svc.router.routeForQuery r.ns with - | ⟨a, l⟩
          <;> rw [hroute] at hs <;> cases hs
      obtain ⟨hfound, hkept⟩ := @TieredCache.getQuery_holds X _ cache now r.cacheQuery
      dsimp only at h
      split at h
      · rename_i c answer hg
        rw [hg] at hfound hkept
        cases h
        refine ⟨hkept, fun a ha => ?_, fun shards hs => ?_⟩
        · by_cases hv : r.includeVector
          · rw [if_pos hv] at ha
            exact absurd ha (hnot a)
          · rw [if_neg hv] at ha
            cases ha
            exact ⟨hfound _ rfl, by simpa using hv⟩
        · by_cases hv : r.includeVector
          · rw [if_pos hv] at hs
            exact hfresh shards hs
          · rw [if_neg hv] at hs
            cases hs
      · rename_i c hg
        rw [hg] at hkept
        cases h
        exact ⟨hkept, fun a ha => absurd ha (hnot a), hfresh⟩

variable {ops : List (ServerOp ι)} {s t : Server ι σ} {l : Ledger}

omit [LinearOrder σ] in
variable (X svc) in
/-- A namespace that is not there is not written to. -/
theorem upsert_of_none {ns : String} (h : svc.settings.metadata.get? ns = none)
    (records : List (Raw × RecordEnv ι)) (key : Option String) (background : String → FlushEnv) :
    (svc.upsert X ns records key background).1 = svc := by
  unfold IngestService.upsert
  simp only [h]
  split <;> rfl

omit [LinearOrder σ] in
theorem deleteRequest_of_none {ns : String} (h : svc.settings.metadata.get? ns = none)
    (ids : Option (List String)) (filter : Option Filter) (env : String → Nat → DeliveryEnv) :
    (svc.deleteRequest X ns ids filter env).1 = svc := by
  unfold IngestService.deleteRequest
  split
  · simp only [IngestService.deleteByFilter, h]
  · simp only [IngestService.delete, h]

omit [BaseIndex ι] in
/-- A write that is confined to a namespace of the store. -/
theorem Accounted.confined (h : Accounted X Q ops s l) {ns : String} {op : ServerOp ι}
    (hin : t.inflight = s.inflight)
    (hcache : ∀ key answer, t.cache.Holds key answer → s.cache.Holds key answer)
    (hkeeps : KeepsOthers ns s.ingest t.ingest)
    (hnone : s.ingest.settings.metadata.get? ns = none → t.ingest = s.ingest) :
    Accounted X Q (ops ++ [op]) t (l.write ns) := by
  refine h.write hin hcache (fun n hn => by rwa [hkeeps.settings] at hn) fun n hn hne => ?_
  cases hm : s.ingest.settings.metadata.get? ns with
  | none =>
    rw [hnone hm]
    exact .refl n s.ingest
  | some settings => exact sameView_of_keeps hkeeps (h.names ns (by rw [hm]; rfl)) hn hne

theorem Accounted.upsert (h : Accounted X Q ops s l) {op : ServerOp ι} {ns : String}
    {records : List (Raw × RecordEnv ι)} (key : Option String) (background : String → FlushEnv)
    (hnew : ∀ r ∈ records, NewHalves s.ingest.router.etcd r) :
    Accounted X Q (ops ++ [op]) (s.upsertVectors X ns records key background).1 (l.write ns) := by
  have hkeeps := keepsOthers_upsert X s.ingest ns records key background fun r hr =>
    ⟨InMemoryEtcd.owned_of_none (hnew r hr).1, InMemoryEtcd.owned_of_none (hnew r hr).2⟩
  have hnone := fun (hm : s.ingest.settings.metadata.get? ns = none) =>
    upsert_of_none X s.ingest hm records key background
  unfold Server.upsertVectors
  split
  · rename_i ingest result he
    rw [he] at hkeeps hnone
    exact h.confined rfl (fun key answer ha => absurd ha (TieredCache.invalidateNamespace_holds ns))
      hkeeps hnone
  · rename_i ingest e he
    rw [he] at hkeeps hnone
    exact h.confined rfl (fun _ _ ha => ha) hkeeps hnone

theorem Accounted.delete (h : Accounted X Q ops s l) {op : ServerOp ι} {ns : String}
    (ids : Option (List String)) (filter : Option Filter) (env : String → Nat → DeliveryEnv) :
    Accounted X Q (ops ++ [op]) (s.deleteVectors X ns ids filter env).1 (l.write ns) :=
  h.confined rfl (fun _ _ ha => ha) (keepsOthers_deleteRequest ids filter env) fun hm =>
    deleteRequest_of_none hm ids filter env

omit [BaseIndex ι] in
theorem Accounted.deleteNamespace (h : Accounted X Q ops s l) {op : ServerOp ι} (name : String) :
    Accounted X Q (ops ++ [op]) (s.deleteNamespace name).1 (l.write name) := by
  unfold Server.deleteNamespace
  split
  · exact h.write rfl (fun _ _ ha => ha) (fun _ hn => hn) fun n _ _ => .refl n s.ingest
  · refine h.write rfl (fun _ _ ha => ha) (fun n hn => ?_) fun n _ hne =>
      ⟨(keepsOthers_deleteShards _ name).list _ hne, fun _ => rfl⟩
    have hpop : ((s.ingest.settings.metadata.pop name).get? n).isSome := hn
    rw [Dict.get?_pop] at hpop
    split at hpop
    · cases hpop
    · exact hpop

theorem Accounted.query (h : Accounted X Q ops s l) {id : Nat} {now : ℚ} {r : QueryRequest}
    (hs : serverStep X Q s (.query id now r) = some t) :
    Accounted X Q (ops ++ [.query id now r]) t (l.next X s (.query id now r)) := by
  have hasked : Asked (ops ++ [.query id now r]) r :=
    ⟨id, now, List.mem_append_right _ List.mem_cons_self⟩
  have hkept : ∀ cache : TieredCache (QueryAnswer σ),
      (∀ key v, cache.Holds key v → s.cache.Holds key v) →
      ∀ key answer, cache.Holds key answer → ∃ k, l.kept.get? key = some k ∧
        key = hashQuery X k.request.cacheQuery ∧ Asked (ops ++ [.query id now r]) k.request ∧
        isNamespaceName k.request.ns = true ∧ k.writes ≤ l.writes k.request.ns ∧
        (k.timedOut = false → k.writes = l.writes k.request.ns →
          freshResults X Q s.ingest k.request = .ok answer.results) := by
    intro cache hcache key answer ha
    obtain ⟨k, hk, hkey, hasked, hrest⟩ := h.kept key answer (hcache key answer ha)
    exact ⟨k, hk, hkey, hasked.mono, hrest⟩
  have hothers : s.inflight.get? id = none → ∀ a w, s.inflight.get? a = some w →
      ∃ n, (l.begun.set id (l.writes r.ns)).get? a = some n ∧
        Asked (ops ++ [.query id now r]) w.request ∧
        isNamespaceName w.request.ns = true ∧ n ≤ l.writes w.request.ns ∧
        (n = l.writes w.request.ns → w.shards ≠ [] ∧
          w.shards = s.ingest.router.routeForQuery w.request.ns ∧
          ∀ found, w.found = some found → found = fanOut X Q s.ingest w.request w.shards) := by
    intro hid a w hw
    obtain ⟨n, hn, hasked, hrest⟩ := h.waiting a w hw
    have hne : a ≠ id := fun he => by rw [he, hid] at hw; cases hw
    exact ⟨n, by rw [Dict.get?_set_ne _ _ hne]; exact hn, hasked.mono, hrest⟩
  rcases hb : beginQuery X s.ingest s.cache now r with ⟨cache, b⟩
  obtain ⟨hcache, -, hwaiting⟩ := beginQuery_spec hb
  simp only [serverStep, hb] at hs
  split at hs
  · cases hs
  · rename_i hid heq
    cases heq
    cases hs
    obtain ⟨hne, hshards, hmeta⟩ := hwaiting _ rfl
    refine ⟨h.names, hkept _ hcache, fun a w hw => ?_⟩
    have hset : (s.inflight.set id ⟨r, _, none⟩).get? a = some w := hw
    rw [Dict.get?_set] at hset
    split at hset
    · rename_i ha
      cases hset
      exact ⟨_,
        by rw [ha]; exact Dict.get?_set_self _ _ _, hasked, h.names _ hmeta, le_rfl, fun _ =>
        ⟨hne, hshards, fun _ hf => by cases hf⟩⟩
    · exact hothers hid a w hset
  · rename_i _ hid heq
    cases heq
    cases hs
    exact ⟨h.names, hkept _ hcache, hothers hid⟩

theorem Accounted.search (h : Accounted X Q ops s l) {id : Nat}
    (hs : serverStep X Q s (.search id) = some t) :
    Accounted X Q (ops ++ [.search id]) t l := by
  simp only [serverStep] at hs
  split at hs
  · rename_i r shards hw₀
    cases hs
    refine ⟨h.names, fun key answer ha => ?_, fun a w hw => ?_⟩
    · obtain ⟨k, hk, hkey, hasked, hrest⟩ := h.kept key answer ha
      exact ⟨k, hk, hkey, hasked.mono, hrest⟩
    · have hset : (s.inflight.set id ⟨r, shards, some (fanOut X Q s.ingest r shards)⟩).get?
          a = some w := hw
      rw [Dict.get?_set] at hset
      split at hset
      · rename_i ha
        cases hset
        obtain ⟨n, hn, hasked, hname, hle, hfresh⟩ := h.waiting id _ hw₀
        exact ⟨n, by rw [ha]; exact hn, hasked.mono, hname, hle, fun he =>
          ⟨(hfresh he).1, (hfresh he).2.1, fun found hf => by cases hf; rfl⟩⟩
      · obtain ⟨n, hn, hasked, hrest⟩ := h.waiting a w hset
        exact ⟨n, hn, hasked.mono, hrest⟩
  · cases hs

theorem Accounted.finish (h : Accounted X Q ops s l) {id : Nat} {now : ℚ} {tookMs : Int}
    {timedOut : Bool} (hs : serverStep X Q s (.finish id now tookMs timedOut) = some t) :
    Accounted X Q (ops ++ [.finish id now tookMs timedOut]) t
      (l.next X s (.finish id now tookMs timedOut)) := by
  have hwaiting : ∀ a w, (s.inflight.pop id).get? a = some w → ∃ n, l.begun.get? a = some n ∧
      Asked (ops ++ [.finish id now tookMs timedOut]) w.request ∧
      isNamespaceName w.request.ns = true ∧
      n ≤ l.writes w.request.ns ∧
      (n = l.writes w.request.ns → w.shards ≠ [] ∧
        w.shards = s.ingest.router.routeForQuery w.request.ns ∧
        ∀ found, w.found = some found → found = fanOut X Q s.ingest w.request w.shards) := by
    intro a w hw
    rw [Dict.get?_pop] at hw
    split at hw
    · cases hw
    · obtain ⟨n, hn, hasked, hrest⟩ := h.waiting a w hw
      exact ⟨n, hn, hasked.mono, hrest⟩
  have hkept : ∀ key answer, s.cache.Holds key answer → ∃ k, l.kept.get? key = some k ∧
      key = hashQuery X k.request.cacheQuery ∧
      Asked (ops ++ [.finish id now tookMs timedOut]) k.request ∧
      isNamespaceName k.request.ns = true ∧ k.writes ≤ l.writes k.request.ns ∧
      (k.timedOut = false → k.writes = l.writes k.request.ns →
        freshResults X Q s.ingest k.request = .ok answer.results) := by
    intro key answer ha
    obtain ⟨k, hk, hkey, hasked, hrest⟩ := h.kept key answer ha
    exact ⟨k, hk, hkey, hasked.mono, hrest⟩
  cases hw : s.inflight.get? id with
  | none => simp only [serverStep, hw] at hs; cases hs
  | some w =>
    obtain ⟨n, hn, hasked, hname, hle, hfresh⟩ := h.waiting id w hw
    -- The answer is kept: it is the request's own, and fresh where the query was in time and
    -- nothing was written.
    have hdone : ∀ found, (timedOut = false → w.found = some (.ok found)) →
        Accounted X Q (ops ++ [.finish id now tookMs timedOut])
          { s with
            cache := (finishQuery X Q s.cache now tookMs w.request w.shards.length found).1
            inflight := s.inflight.pop id }
          (if w.request.includeVector then l
            else { l with kept := l.kept.set (hashQuery X w.request.cacheQuery) ⟨w.request,
              timedOut, (l.begun.get? id).getD 0⟩ }) := by
      intro found hfound
      by_cases hv : w.request.includeVector
      · simp only [finishQuery, if_pos hv]
        exact ⟨h.names, hkept, hwaiting⟩
      · simp only [finishQuery, if_neg hv]
        refine ⟨h.names, fun key answer ha => ?_, hwaiting⟩
        rcases TieredCache.setQuery_holds ha with ⟨rfl, rfl⟩ | ⟨hne, ha⟩
        · refine ⟨_, Dict.get?_set_self _ _ _, rfl, hasked.mono, hname,
            by rw [hn]; exact hle, fun ht hwrites => ?_⟩
          rw [hn] at hwrites
          obtain ⟨hshards, hroute, hsearch⟩ := hfresh hwrites
          have hfan := hsearch _ (hfound ht)
          simp only [freshResults, ← hroute]
          rcases hsh : w.shards with - | ⟨a, shards⟩
          · exact absurd hsh hshards
          · rw [hsh] at hfan
            simp only [← hfan]
            rfl
        · obtain ⟨k, hk, hrest⟩ := hkept key answer ha
          exact ⟨k, by rw [Dict.get?_set_ne _ _ hne]; exact hk, hrest⟩
    simp only [serverStep, hw] at hs
    simp only [Ledger.next, hw, Ledger.finish]
    rcases timedOut with - | -
    · rcases hf : w.found with - | (e | found)
      · rw [hf] at hs
        cases hs
      · rw [hf] at hs
        cases hs
        exact ⟨h.names, hkept, hwaiting⟩
      · rw [hf] at hs
        cases hs
        exact hdone found fun _ => hf
    · cases hs
      exact hdone [] fun h => by cases h

theorem Accounted.step (h : Accounted X Q ops s l) {op : ServerOp ι}
    (hs : serverStep X Q s op = some t) :
    Accounted X Q (ops ++ [op]) t (l.next X s op) := by
  cases op with
  | upsert ns records key background =>
    simp only [serverStep] at hs
    split at hs
    · rename_i hnew
      cases hs
      exact h.upsert key background hnew
    · cases hs
  | delete ns ids filter env =>
    cases hs
    exact h.delete ids filter env
  | deleteNamespace name =>
    cases hs
    exact h.deleteNamespace name
  | query id now r => exact h.query hs
  | search id => exact h.search hs
  | finish id now tookMs timedOut => exact h.finish hs

/-- In every run of a process that starts without cached answers, a query that is answered from the
cache gets what the shards would give it, unless the answer was spoiled. Keys do not collide. -/
theorem cached_answers_fresh (s₀ s : Server ι σ) (l : Ledger) (ops : List (ServerOp ι)) (now : ℚ)
    (r : QueryRequest) (answer : QueryAnswer σ)
    (hnames : ∀ n, (s₀.ingest.settings.metadata.get? n).isSome → isNamespaceName n = true)
    (hcache : s₀.cache.l1 = ∅ ∧ ∀ d, s₀.cache.redis = some d → d = ∅) (hinflight : s₀.inflight = ∅)
    (hrun : run (tracedStep X Q) (s₀, Ledger.empty) ops = some (s, l))
    (hkeys : ∀ r', Asked ops r' → hashQuery X r'.cacheQuery = hashQuery X r.cacheQuery →
      r'.cacheQuery = r.cacheQuery)
    (hserved : s.served X now r = some answer) (hc : Unspoiled X l r) :
    freshResults X Q s.ingest r = .ok answer.results := by
  have h₀ : Accounted X Q ([] : List (ServerOp ι)) s₀ Ledger.empty := by
    refine ⟨hnames, fun key answer ha => ?_, fun id w hw => ?_⟩
    · rcases ha with ⟨t, ht⟩ | ⟨d, t, hd, ht⟩
      · rw [hcache.1] at ht
        cases ht
      · rw [hcache.2 d hd] at ht
        cases ht
    · rw [hinflight] at hw
      cases hw
  have htrue : ∀ (s : Server ι σ × Ledger) (ops : List (ServerOp ι)),
      Along (tracedStep X Q) (fun _ _ => True) s ops := by
    intro s ops
    induction ops generalizing s with
    | nil => trivial
    | cons op ops ih => exact ⟨trivial, fun t _ => ih t⟩
  have h : Accounted X Q ([] ++ ops) s l :=
    invariant_history (I := fun ops (s : Server ι σ × Ledger) => Accounted X Q ops s.1 s.2)
      (fun ops s op t h _ hs => by
        obtain ⟨t', ht, rfl⟩ := Option.map_eq_some_iff.mp hs
        exact h.step ht) h₀ (htrue _ ops) hrun
  unfold Server.served at hserved
  rcases hb : beginQuery X s.ingest s.cache now r with ⟨cache, b⟩
  obtain ⟨-, hcached, -⟩ := beginQuery_spec hb
  rw [hb] at hserved
  split at hserved
  · rename_i a ha
    cases hserved
    obtain ⟨hholds, -⟩ := hcached answer ha
    obtain ⟨k, hk, hkey, hasked, -, -, hfresh⟩ := h.kept _ answer hholds
    obtain ⟨hflags, htimed, hwrites⟩ := hc k hk
    have hq := hkeys k.request hasked hkey.symm
    have hns : k.request.ns = r.ns := congrArg CacheQuery.ns hq
    rw [← hns] at hwrites
    rw [← freshResults_congr hq hflags]
    exact hfresh htimed hwrites
  · cases hserved

section

private def finiteValue : PyFloat → ℚ
  | .finite x => x
  | _ => 0

/-- `FlatIndex.search` by the inner product, in exact arithmetic. -/
private def innerProducts (i : FlatIndex) (a : SearchArgs) : Except Exc (List (AnnResult ℚ)) :=
  let score (row : FlatRow) : ℚ :=
    ((a.query.zip row.vector).map fun p => finiteValue p.1 * finiteValue p.2).sum
  match i.rows.mapM fun row => (a.filterFn.map fun f => f row.metadata).getD (.ok true) with
  | .error e => .error e
  | .ok mask =>
    let found := ((i.rows.zip mask).filter Prod.snd).map fun p =>
      (⟨p.1.id, score p.1, some p.1.vector, p.1.metadata⟩ : AnnResult ℚ)
    .ok (pyTake (found.insertionSort fun x y => y.score ≤ x.score) a.topK)

private def exactEngine : QueryEngine FlatIndex ℚ := ⟨innerProducts, noRerank⟩

/-- A server that is starting, with one namespace of one shard. -/
private def quietServer : Server FlatIndex ℚ where
  ingest :=
    { settings := ⟨Dict.set ∅ "docs" ⟨"docs", 1, .cosine, .flat, 1⟩, 10000⟩
      router := ⟨(InMemoryEtcd.init none).put ⟨"docs#shard-000", "docs", "node-1", .active, 0,
        50000000, [], 1⟩, none⟩
      nodeId := some "node-1"
      roots := ∅
      replicator := .init ∅
      replicationStats := ∅
      shards := ∅
      idempotency := ∅ }
  cache := ⟨60, ∅, none⟩
  inflight := ∅

private def zeroUpsert : ServerOp FlatIndex :=
  .upsert "docs"
    [([("id", .str zeroId.text), ("vector", .arr [.int 1])],
      ⟨"2026-01-01T00:00:00Z", oneId, ⟨1, 1, none⟩, none, ⟨0, fun _ => ⟨1, 1, none⟩⟩, none,
        ⟨"a", "b", none⟩⟩)]
    none fun _ => ⟨1, 1, none⟩

private def nearest : QueryRequest := ⟨"docs", [.finite 1], 10, none, [], true, false, none⟩

/-- The record is upserted, and found by a query. -/
private def asked : List (ServerOp FlatIndex) :=
  [zeroUpsert, .query 0 0 nearest, .search 0, .finish 0 0 1 false]

private def zeroDelete : ServerOp FlatIndex :=
  .delete "docs" (some [zeroId.text]) none fun _ _ => ⟨0, fun _ => ⟨1, 1, none⟩⟩

private def answered : Server FlatIndex ℚ × Ledger :=
  (run (tracedStep fieldwise exactEngine) (quietServer, Ledger.empty) asked).get (by decide +kernel)

private instance (r r' : QueryRequest) : Decidable (SameFlags r r') :=
  inferInstanceAs (Decidable (_ ∧ _ ∧ _ ∧ _))

private instance (l : Ledger) (r : QueryRequest) : Decidable (Unspoiled fieldwise l r) :=
  inferInstanceAs (Decidable (∀ k ∈ l.kept.get? (hashQuery fieldwise r.cacheQuery), _ ∧ _ ∧ _))

/-- The same query once more. -/
theorem cached_answers_fresh_again : ∃ answer, answered.1.served fieldwise 1 nearest = some answer ∧
    freshResults fieldwise exactEngine answered.1.ingest nearest = .ok answer.results := by
  obtain ⟨answer, ha⟩ := Option.isSome_iff_exists.mp
    (show (answered.1.served fieldwise 1 nearest).isSome by decide +kernel)
  have hrun : run (tracedStep fieldwise exactEngine) (quietServer, Ledger.empty) asked =
      some answered :=
    (Option.some_get _).symm
  refine ⟨answer, ha, cached_answers_fresh quietServer answered.1 answered.2 asked 1 nearest
    answer ?_ ⟨rfl, ?_⟩ rfl
    hrun ?_ ha (by decide +kernel)⟩
  · intro n hn
    have hdocs :
        (Dict.get? (Dict.set ∅ "docs" (⟨"docs", 1, .cosine, .flat, 1⟩ : Namespace)) n).isSome := hn
    rw [Dict.get?_set] at hdocs
    split at hdocs
    · rename_i h
      rw [h]
      decide
    · cases hdocs
  · exact fun d hd => by cases hd
  · rintro r' ⟨id, now, hm⟩ -
    simp only [asked, zeroUpsert, List.mem_cons, List.not_mem_nil, ServerOp.query.injEq,
      reduceCtorEq, or_false, false_or] at hm
    rw [hm.2.2]

private def afterDelete : Server FlatIndex ℚ × Ledger :=
  (run (tracedStep fieldwise exactEngine) (quietServer, Ledger.empty) (asked ++ [zeroDelete])).get
    (by decide +kernel)

/-- The record is deleted, and still an answer to the query. -/
theorem serves_deleted :
    run (tracedStep fieldwise exactEngine) (quietServer, Ledger.empty) (asked ++ [zeroDelete]) =
      some afterDelete ∧
      (afterDelete.1.served fieldwise 1 nearest).map
        (fun answer => answer.results.map Candidate.id) =
        some [zeroId.text] ∧
      ((freshResults fieldwise exactEngine afterDelete.1.ingest nearest).map
        (·.map Candidate.id)).toOption = some [] :=
  ⟨(Option.some_get _).symm, by decide +kernel, by decide +kernel⟩

end

end Vsector.Query
