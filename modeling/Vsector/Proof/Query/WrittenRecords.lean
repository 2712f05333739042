import Vsector.Proof.Ingest.IndexRows
import Vsector.Proof.Query.ShardedSearch

/-!
# What a query finds of what was written

After any run of the service a query ranks all versions of every id that were
written since it was deleted last (`query_ranks_versions`), the scores those
of the versions, and the vectors those of the records that are shown. Where no
id is written while it is shown, it ranks the records that `fetch` returns, and
returns no id twice (`query_ranks_shown`).
-/

namespace Vsector.Query

open Framework Models Storage Sharding Index Ingest Infra IngestService ShardContext ShardRouter
open FlatIndex (accepts Filters PicksBest search search_ok_iff search_eq result
  top_picked not_sunk_iff)

variable {X : Externals} {K : Type} [Field K] [LinearOrder K]
  {score : List PyFloat → List PyFloat → K} {pick : List K → Int → List Nat} {settings : Namespace}
  {ids : List String} {writes : List (String × Option VectorRecord)} {svc : IngestService FlatIndex}
  {r : QueryRequest} {s : Shard}

/-- The versions that the filter accepts and that a search does not drop for their score. -/
def reached (X : Externals) (score : List PyFloat → List PyFloat → K) (r : QueryRequest)
    (vs : List VectorRecord) :
    List VectorRecord :=
  vs.filter fun v => accepts (r.filterFn X) v.metadata &&
    !(exactScoring score).sunk (score r.vector v.vector)

/-- What a query makes of a version, where the records `last` are shown. -/
def item (score : List PyFloat → List PyFloat → K) (last : String → Option VectorRecord)
    (r : QueryRequest) (v : VectorRecord) : Candidate K :=
  let shown := if r.includeVector then (last (idOf v)).getD v else v
  { id := idOf v
    score := score r.vector v.vector
    metadata := if r.includeMetadata then shown.metadata else []
    vector := if r.includeVector then some shown.vector else none }

/-- A query that raises exactly if the filter does for one of the versions, and returns the best of
those that it may return otherwise. -/
def Ranks (X : Externals) (score : List PyFloat → List PyFloat → K) (r : QueryRequest)
    (last : String → Option VectorRecord) (vs : List VectorRecord) :
    Except Exc (QueryAnswer K) → Prop
  | .ok answer => Filters (r.filterFn X) (vs.map rowOf) ∧
    Top Candidate.score r.topK.toNat ((reached X score r vs).map (item score last r)) answer.results
  | .error _ => ¬ Filters (r.filterFn X) (vs.map rowOf)

/-! ## One shard -/

/-- The result of a search for a version. -/
def resultOf (score : List PyFloat → List PyFloat → K) (r : QueryRequest) (v : VectorRecord) :
    IndexResult K :=
  ⟨idOf v, score r.vector v.vector, v.vector, v.metadata⟩

variable (X score r) in
/-- Of the scored rows of versions, those that do not sink. -/
theorem kept_versions [IsStrictOrderedRing K] (vs : List VectorRecord) :
    (((vs.map rowOf).map (result (exactScoring score) r.vector
      (some (accepts (r.filterFn X))))).filter
      fun a => !(exactScoring score).sunk a.score) = (reached X score r vs).map
        (resultOf score r) := by
  have hscore : ∀ v, (result (exactScoring score) r.vector (some (accepts (r.filterFn X)))
      (rowOf v)).score =
      if accepts (r.filterFn X) v.metadata then score r.vector v.vector else -10 ^ 9 := fun _ => rfl
  have hsunk : ¬ (-10 ^ 8 : K) < -10 ^ 9 := by norm_num
  rw [List.map_map, List.filter_map]
  have hfilter : vs.filter ((fun a => !(exactScoring score).sunk a.score) ∘
      result (exactScoring score) r.vector (some (accepts (r.filterFn X))) ∘
        rowOf) = reached X score r vs := by
    refine List.filter_congr fun v _ => ?_
    rw [Function.comp_apply, Function.comp_apply, hscore]
    by_cases haccepts : accepts (r.filterFn X) v.metadata = true
    · rw [if_pos haccepts, haccepts, Bool.true_and]
    · rw [if_neg haccepts, Bool.eq_false_iff.mpr haccepts, Bool.false_and]
      exact Bool.eq_false_iff.mpr (mt (not_sunk_iff score).mp hsunk)
  rw [hfilter]
  refine List.map_congr_left fun v hv => ?_
  have haccepts := (Bool.and_eq_true_iff.mp (List.mem_filter.mp hv).2).1
  have hrow := hscore v
  rw [if_pos haccepts] at hrow
  exact congrArg (fun x => (⟨idOf v, x, v.vector, v.metadata⟩ : IndexResult K)) hrow

/-- A search finds the best of the versions that are indexed. -/
theorem top_versions [IsStrictOrderedRing K] (hpick : PicksBest pick) (htop : 1 ≤ r.topK)
    {i : FlatIndex} {vs : List VectorRecord} (hrows : i.rows = vs.map rowOf)
    {results : List (IndexResult K)}
    (h : i.search (exactScoring score) pick r.vector r.topK (r.filterFn X) = .ok results) :
    Top IndexResult.score r.topK.toNat ((reached X score r vs).map (resultOf score r)) results := by
  have hfilters : Filters (r.filterFn X) i.rows := search_ok_iff.mp ⟨results, h⟩
  by_cases hnil : i.rows = []
  · rw [search, if_pos hnil] at h
    cases h
    rw [hnil, eq_comm, List.map_eq_nil_iff] at hrows
    rw [hrows]
    exact ⟨[], .refl _, by simp [reached], fun a ha => absurd ha List.not_mem_nil, .nil⟩
  · rw [search_eq hnil hfilters] at h
    cases h
    have hpicked := top_picked (K := K) hpick htop (mt List.map_eq_nil_iff.mp hnil :
      i.rows.map (result (exactScoring score) r.vector (some (accepts (r.filterFn X)))) ≠ [])
    -- what sinks is below what does not
    have hbest := hpicked.filter fun a _ b _ ha hb =>
      (not_lt.mp (mt (not_sunk_iff score).mpr (Bool.not_eq_true _ ▸ hb))).trans_lt
        ((not_sunk_iff score).mp ha)
    have hkept := kept_versions X score r vs
    rw [← hrows] at hkept
    rw [hkept] at hbest
    exact hbest

omit [Field K] [LinearOrder K] in
/-- What becomes of the result for an id that is shown. -/
theorem enrich_version {last : String → Option VectorRecord}
    (h : Serves X r.ns settings ids svc last) (hs : s ∈ svc.router.etcd.listByNamespace r.ns)
    {ctx : ShardContext FlatIndex} (hctx : svc.shards.get? (ctxKey r.ns s.id) = some ctx)
    {v v' : VectorRecord} (hv : last (idOf v) = some v') (hhome : home X ids r.ns (idOf v) = s.id) :
    enrich X ctx r (resultOf score r v).toAnn = .ok (item score last r v) := by
  obtain ⟨l, ht, hl⟩ := h.tracks s hs
  rw [ctxAt_of_some hctx] at ht
  obtain ⟨tables, hreads, hshown⟩ := ht.shows.tables
  have hlast : recordOf (l (idOf v)) = some v' := (hl _ hhome).trans hv
  have hop : l (idOf v) = some (.upsert v') := by
    revert hlast
    cases l (idOf v) with
    | none => exact fun h => nomatch h
    | some op =>
      cases op with
      | upsert r => exact fun h => by rw [Option.some.inj h]
      | delete id => exact fun h => nomatch h
  have hget : ctx.segments.get X (idOf v) = .ok (some v') := by
    have hserved := hshown (idOf v)
    rw [hop] at hserved
    rw [hreads.get_eq, hserved.1]
  unfold enrich item
  cases r.includeVector with
  | false => rfl
  | true =>
    simp only [if_true, hv, Option.getD_some]
    rw [show (resultOf score r v).toAnn.id = idOf v from rfl, hget]
    rfl

variable (pick) in
/-- A shard finds the best of its versions, unless the filter raises for one. -/
theorem searchShard_versions [IsStrictOrderedRing K] (hpick : PicksBest pick) (htop : 1 ≤ r.topK)
    (h : Indexed X r.ns settings ids writes svc) (hs : s ∈ svc.router.etcd.listByNamespace r.ns) :
    let vs := (versions writes).filter fun v => home X ids r.ns (idOf v) = s.id
    (Filters (r.filterFn X) (vs.map rowOf) ∧
      ∃ found, searchShard X (flatEngine (exactScoring score) pick) svc r s = .ok found ∧
        Top Candidate.score r.topK.toNat
          ((reached X score r vs).map (item score (lastOf writes) r)) found.1) ∨
      (¬ Filters (r.filterFn X) (vs.map rowOf) ∧
        ∃ e, searchShard X (flatEngine (exactScoring score) pick) svc r s = .error e) := by
  intro vs
  have hrows := h.rows s hs
  unfold searchShard
  cases hctx : svc.shards.get? (ctxKey r.ns s.id) with
  | none =>
    have hnone : vs = [] := by
      rw [ctxAt, hctx] at hrows
      exact List.map_eq_nil_iff.mp hrows.symm
    rw [hnone]
    exact .inl ⟨fun f _ row hrow => absurd hrow List.not_mem_nil, _, rfl,
      [], .refl _, by simp [reached], fun a ha => absurd ha List.not_mem_nil, .nil⟩
  | some ctx =>
    rw [ctxAt_of_some hctx] at hrows
    have hiff : (∃ results, ctx.index.search (exactScoring score) pick r.vector r.topK
        (r.filterFn X) = .ok results) ↔
        Filters (r.filterFn X) ctx.index.rows := search_ok_iff
    rw [show ctx.index.rows = vs.map rowOf from hrows] at hiff
    dsimp only [flatEngine]
    rw [show (if r.filters.isEmpty then none else some fun md => parseFilter X md r.filters) =
      r.filterFn X from rfl]
    rcases hsearch : ctx.index.search (exactScoring score) pick r.vector r.topK
      (r.filterFn X) with e | results
    · rw [hsearch] at hiff
      refine .inr ⟨fun hf => ?_, e, rfl⟩
      obtain ⟨_, h⟩ := hiff.mpr hf
      cases h
    · rw [hsearch] at hiff
      refine .inl ⟨hiff.mp ⟨results, rfl⟩, ?_⟩
      obtain ⟨top, rfl, htop'⟩ := (top_versions hpick htop hrows hsearch).of_map
      have henriched : ((top.map (resultOf score r)).map IndexResult.toAnn).mapM (enrich X ctx r) =
          .ok (top.map (item score (lastOf writes) r)) := by
        rw [List.map_map, List.mapM_map]
        refine ShardRouter.mapM_ok fun v hv => ?_
        obtain ⟨hversion, hhome⟩ := List.mem_filter.mp (List.mem_of_mem_filter (htop'.mem hv))
        obtain ⟨v', hlast⟩ := Option.isSome_iff_exists.mp (lastOf_of_mem_versions h.keyed hversion)
        exact enrich_version h.serves hs hctx hlast (of_decide_eq_true hhome)
      refine ⟨(top.map (item score (lastOf writes) r),
        ((top.map (resultOf score r)).map IndexResult.toAnn).length), ?_, Top.map htop'⟩
      dsimp only [Except.map]
      rw [henriched]

/-! ## All shards -/

variable (X score r ids writes) in
/-- What a query may return of the versions on a shard. -/
def reachedOn (s : Shard) : List (Candidate K) :=
  (reached X score r ((versions writes).filter fun v => home X ids r.ns (idOf v) = s.id)).map
    (item score (lastOf writes) r)

theorem fanOut_versions [IsStrictOrderedRing K] (hpick : PicksBest pick) (htop : 1 ≤ r.topK)
    (h : Indexed X r.ns settings ids writes svc) {shards : List Shard}
    (hs : ∀ s ∈ shards, s ∈ svc.router.etcd.listByNamespace r.ns) :
    (∃ found, fanOut X (flatEngine (exactScoring score) pick) svc r shards = .ok found ∧
        (∀ s ∈ shards, Filters (r.filterFn X)
          (((versions writes).filter fun v => home X ids r.ns (idOf v) = s.id).map rowOf)) ∧
        List.Forall₂ (Top Candidate.score r.topK.toNat)
          (shards.map (reachedOn X score ids writes r)) (found.map Prod.fst)) ∨
      ((∃ e, fanOut X (flatEngine (exactScoring score) pick) svc r shards = .error e) ∧
        ∃ s ∈ shards, ¬ Filters (r.filterFn X) (((versions writes).filter fun v =>
          home X ids r.ns (idOf v) = s.id).map rowOf)) := by
  unfold fanOut
  induction shards with
  | nil => exact .inl ⟨[], rfl, fun s hs => absurd hs List.not_mem_nil, .nil⟩
  | cons s shards ih =>
    rw [List.mapM_cons]
    rcases searchShard_versions pick hpick htop h (hs s List.mem_cons_self) with
      ⟨hfilters, found, hsearch, hbest⟩ | ⟨hfilters, e, hsearch⟩
    · rw [hsearch]
      rcases ih fun a ha =>
        hs a (List.mem_cons_of_mem _ ha) with ⟨rest, hrest, hall, htops⟩ | ⟨⟨e, hrest⟩, a, ha, hnot⟩
      · rw [hrest]
        exact .inl ⟨found :: rest, rfl, List.forall_mem_cons.mpr ⟨hfilters, hall⟩,
          .cons hbest htops⟩
      · rw [hrest]
        exact .inr ⟨⟨e, rfl⟩, a, List.mem_cons_of_mem _ ha, hnot⟩
    · rw [hsearch]
      exact .inr ⟨⟨e, rfl⟩, s, List.mem_cons_self, hfilters⟩

omit [Field K] in
/-- Without a cached answer, the shards of a namespace that has some are searched. -/
theorem query_fanOut (Q : QueryEngine FlatIndex K)
    (hsettings : svc.settings.metadata.get? r.ns = some settings)
    (hlength : r.vector.length = settings.dimension) {cache : TieredCache (QueryAnswer K)} {now : ℚ}
    (hmiss : (cache.getQuery X now r.cacheQuery).2 = none)
    (hshards : svc.router.routeForQuery r.ns ≠ []) (tookMs : Int) :
    (query X Q svc cache now tookMs false r).2 =
      (fanOut X Q svc r (svc.router.routeForQuery r.ns)).map fun found =>
      ⟨ranked Q r found, tookMs, (svc.router.routeForQuery r.ns).length,
        (found.map Prod.snd).sum⟩ := by
  unfold query beginQuery
  rw [hsettings]
  dsimp only
  rw [if_neg (not_not.mpr hlength)]
  rcases hq : cache.getQuery X now r.cacheQuery with ⟨cache', answer⟩
  rw [hq] at hmiss
  cases hmiss
  rcases hroute : svc.router.routeForQuery r.ns with _ | ⟨shard, shards⟩
  · exact absurd hroute hshards
  · dsimp only [endQuery]
    rw [if_neg Bool.false_ne_true]
    rcases fanOut X Q svc r (shard :: shards) with exc | found <;> rfl

variable (score) in
/-- What a service with indexed versions answers. -/
theorem query_indexed [IsStrictOrderedRing K] (hpick : PicksBest pick) (htop : 1 ≤ r.topK)
    (h : Indexed X r.ns settings ids writes svc) (hlength : r.vector.length = settings.dimension)
    {cache : TieredCache (QueryAnswer K)} {now : ℚ}
    (hmiss : (cache.getQuery X now r.cacheQuery).2 = none) (tookMs : Int) :
    Ranks X score r (lastOf writes) (versions writes)
      (query X (flatEngine (exactScoring score) pick) svc cache now tookMs false r).2 := by
  have hlocal := h.serves.routed
  have hroute : svc.router.routeForQuery r.ns = svc.router.etcd.listByNamespace r.ns :=
    List.filter_eq_self.mpr fun s hs => by
      rw [hlocal.active s hs]
      rfl
  have hne : svc.router.routeForQuery r.ns ≠ [] :=
    fun he => hlocal.ids_ne (by rw [← hlocal.ids_eq, ← hroute, he]; rfl)
  rw [query_fanOut _ h.serves.metadata hlength hmiss hne tookMs, hroute]
  -- the versions of all shards, by the shard that an id is routed to
  have hparts : ∀ vs : List VectorRecord,
      ((svc.router.etcd.listByNamespace r.ns).flatMap fun s => vs.filter fun v =>
        home X ids r.ns (idOf v) = s.id).Perm vs := by
    intro vs
    have hperm := perm_flatMap_filter (l := vs) (fun v => home X ids r.ns (idOf v))
      (svc.router.etcd.nodup_ids r.ns) fun v _ => by
        obtain ⟨s, hs, -, hid⟩ := hlocal.select (X := X) (idOf v)
        rw [← hid]
        exact List.mem_map_of_mem hs
    rwa [List.flatMap_map] at hperm
  have hfilters : Filters (r.filterFn X) ((versions writes).map rowOf) ↔
      ∀ s ∈ svc.router.etcd.listByNamespace r.ns,
      Filters (r.filterFn X) (((versions writes).filter fun v =>
        home X ids r.ns (idOf v) = s.id).map rowOf) := by
    constructor
    · exact fun hf s _ f hfn row hrow =>
        hf f hfn row (List.map_subset _ (List.filter_subset_self _) hrow)
    · intro hf f hfn row hrow
      obtain ⟨v, hv, rfl⟩ := List.mem_map.mp hrow
      obtain ⟨s, hs, hvs⟩ := List.mem_flatMap.mp ((hparts (versions writes)).mem_iff.mpr hv)
      exact hf s hs f hfn _ (List.mem_map_of_mem hvs)
  rcases fanOut_versions hpick htop h fun s (hs : s ∈ svc.router.etcd.listByNamespace r.ns) =>
    hs with
    ⟨found, hfound, hall, htops⟩ | ⟨⟨e, hfound⟩, hnot⟩
  · rw [hfound]
    refine ⟨hfilters.mpr hall, ?_⟩
    have hranked := top_ranked pick (exactScoring score) htop found
    rw [List.flatMap_def] at hranked
    refine (Top.of_parts htops hranked).perm ?_
    have hflat :
        ((svc.router.etcd.listByNamespace r.ns).map (reachedOn X score ids writes r)).flatten =
        (((svc.router.etcd.listByNamespace r.ns).flatMap fun s =>
          (reached X score r (versions writes)).filter fun v =>
            home X ids r.ns (idOf v) = s.id)).map
            (item score (lastOf writes) r) := by
      rw [← List.flatMap_def, List.map_flatMap]
      refine List.flatMap_congr fun s _ => ?_
      rw [reachedOn, reached, reached, List.filter_filter, List.filter_filter]
      refine congrArg _ (List.filter_congr fun v _ => Bool.and_comm _ _)
    rw [hflat]
    exact (hparts _).map _
  · rw [hfound]
    intro hf
    obtain ⟨s, hs, hnot⟩ := hnot
    exact hnot (hfilters.mp hf s hs)

/-! ## Runs -/

/-- In a run from a process without contexts, over active local shards that have no directories
yet, a query whose answer is not cached returns the best of the versions, of every id those written
since it was deleted last: each with its own score, but with the metadata and the vector of the
record that is shown where vectors are asked for. It raises exactly if the filter does for one of
the versions. -/
theorem query_ranks_versions [IsStrictOrderedRing K] (hX : X.Lawful) (hpick : PicksBest pick)
    (svc₀ : IngestService FlatIndex) (ops : List (ServiceOp FlatIndex))
    (hm : svc₀.settings.metadata.get? r.ns = some settings)
    (hl : svc₀.router.Local r.ns svc₀.nodeId ids) (hroots : svc₀.roots = ∅)
    (hshards : svc₀.shards = ∅) (hidem : svc₀.idempotency = ∅)
    (hc : Along (serviceStep X r.ns) (ServiceOk X r.ns settings) svc₀ ops)
    (hr : run (serviceStep X r.ns) svc₀ ops = some svc) (htop : 1 ≤ r.topK)
    (hlength : r.vector.length = settings.dimension) {cache : TieredCache (QueryAnswer K)} {now : ℚ}
    (hmiss : (cache.getQuery X now r.cacheQuery).2 = none) (tookMs : Int) :
    Ranks X score r (lastWrite X r.ns settings ops)
      (versions (ops.foldl (Written.next X r.ns settings) ⟨[], []⟩).writes)
      (query X (flatEngine (exactScoring score) pick) svc cache now tookMs false r).2 :=
  query_indexed score hpick htop (indexed_run hX svc₀ ops hm hl hroots hshards hidem hc hr)
    hlength hmiss tookMs

section

private def rankedNamespace : Namespace := ⟨"docs", 1, .dotProduct, .flat, 1⟩

/-- A service that is starting, with one shard. -/
private def rankedStart : IngestService FlatIndex where
  settings := ⟨Dict.set ∅ "docs" rankedNamespace, 10000⟩
  router := ⟨(InMemoryEtcd.init none).put ⟨"shard-0", "docs", "node-1", .active, 0,
    50000000, [], 1⟩, none⟩
  nodeId := some "node-1"
  roots := ∅
  replicator := .init ∅
  replicationStats := ∅
  shards := ∅
  idempotency := ∅

private def rankedPut (id : UUID) (x : Int) : ServiceOp FlatIndex :=
  .upsert
    [([("id", .str id.text), ("vector", .arr [.int x]), ("metadata", .obj []),
      ("source_system", .str "api")],
      ⟨"2026-01-01T00:00:00Z", oneId, ⟨1, 1, none⟩, none, ⟨0, fun _ => ⟨1, 1, none⟩⟩, none,
        ⟨"a", "b", none⟩⟩)]
    none fun _ => ⟨1, 1, none⟩

private def rankedRequest : QueryRequest := ⟨"docs", [.finite 1], 5, none, [], true, true, none⟩

private theorem rankedLocal : rankedStart.router.Local "docs" rankedStart.nodeId ["shard-0"] :=
  ⟨rfl, by decide, by decide, by decide +kernel, by decide +kernel, fun _ _ => rfl⟩

/-- An id that is written twice. -/
theorem both_versions_ranked :
    let ops := [rankedPut zeroId 1, rankedPut zeroId 2]
    ∃ svc, run (serviceStep fieldwise "docs") rankedStart ops = some svc ∧
      Ranks fieldwise inner rankedRequest (lastWrite fieldwise "docs" rankedNamespace ops)
        (versions (ops.foldl (Written.next fieldwise "docs" rankedNamespace) ⟨[], []⟩).writes)
        (query fieldwise (flatEngine (exactScoring inner) sortedPick) svc ⟨60, ∅, none⟩ 0 0 false
          rankedRequest).2 := by
  intro ops
  have hrun : (run (serviceStep fieldwise "docs") rankedStart ops).isSome := by decide +kernel
  obtain ⟨svc, hsvc⟩ := Option.isSome_iff_exists.mp hrun
  have hserved : Along (serviceStep fieldwise "docs") (ServiceOk fieldwise "docs" rankedNamespace)
      rankedStart ops :=
    by decide +kernel
  exact ⟨svc, hsvc, query_ranks_versions (r := rankedRequest) fieldwise_lawful picksBest_sortedPick
    rankedStart ops rfl rankedLocal rfl rfl rfl hserved hsvc (by decide) rfl rfl 0⟩

end

end Vsector.Query
