import Vsector.Impl.Query.Engine
import Vsector.Proof.Index.Flat
import Vsector.Proof.Models.Documents

/-!
# Sharded and unsharded search

A search of a flat index selects the best of the rows that the filter
accepts. So the searches of the shards find the best of each part, and ranking
what they find gives what one index of all rows would have found
(`sharded_search_eq`).
-/

namespace Vsector.Query

open Framework Models Storage Sharding Index Ingest Infra FlatIndex

variable {X : Externals}

/-- The `filter_fn` of a query. -/
def QueryRequest.filterFn (X : Externals) (r : QueryRequest) :
    Option (Metadata → Except Exc Bool) :=
  if r.filters.isEmpty then none else some fun md => parseFilter X md r.filters

/-- The engine of flat indexes; the results are not ranked again. -/
def flatEngine {σ : Type} [LinearOrder σ] (S : Scoring σ) (pick : List σ → Int → List Nat) :
    QueryEngine FlatIndex σ where
  search i a := (i.search S pick a.query a.topK a.filterFn).map fun results =>
    results.map IndexResult.toAnn
  rerank := noRerank

/-- The context of the shard is there, and what it stores can be read. -/
def Loaded (X : Externals) (svc : IngestService FlatIndex) (ns : String) (shard : Shard)
    (ctx : ShardContext FlatIndex) :
    Prop :=
  svc.shards.get? (IngestService.ctxKey ns shard.id) = some ctx ∧
  ∀ id, ∃ rec, ctx.segments.get X id = .ok rec

section

variable {σ ι : Type} {ctx : ShardContext ι} {r : QueryRequest}

theorem enrich_ok (hread : ∀ id, ∃ rec, ctx.segments.get X id = .ok rec) (a : AnnResult σ) :
    ∃ c, enrich X ctx r a = .ok c ∧ (c.id, c.score) = (a.id, a.score) := by
  unfold enrich
  cases r.includeVector with
  | false => exact ⟨_, rfl, rfl⟩
  | true =>
    obtain ⟨rec, hrec⟩ := hread a.id
    rw [if_pos rfl, hrec]
    cases rec <;> exact ⟨_, rfl, rfl⟩

theorem mapM_enrich_ok (hread : ∀ id, ∃ rec, ctx.segments.get X id = .ok rec)
    (results : List (AnnResult σ)) :
    ∃ cs, results.mapM (enrich X ctx r) = .ok cs ∧
      cs.map (fun c => (c.id, c.score)) = results.map fun a => (a.id, a.score) := by
  induction results with
  | nil => exact ⟨[], rfl, rfl⟩
  | cons a results ih =>
    obtain ⟨c, hc, hca⟩ := enrich_ok (r := r) hread a
    obtain ⟨cs, hcs, hmap⟩ := ih
    refine ⟨c :: cs, ?_, ?_⟩
    · rw [List.mapM_cons, hc, hcs]
      rfl
    · rw [List.map_cons, List.map_cons, hca, hmap]

end

variable {K : Type} [Field K] [LinearOrder K] {score : List PyFloat → List PyFloat → K}
  {pick : List K → Int → List Nat} {svc : IngestService FlatIndex} {r : QueryRequest}
  {shard : Shard} {ctx : ShardContext FlatIndex}

variable (score pick) in
/-- A shard finds what its index does. -/
theorem searchShard_eq (hloaded : Loaded X svc r.ns shard ctx) :
    (∃ exc, ctx.index.search (exactScoring score) pick r.vector r.topK (r.filterFn X) = .error exc ∧
      searchShard X (flatEngine (exactScoring score) pick) svc r shard = .error exc) ∨
    ∃ results found, ctx.index.search (exactScoring score) pick r.vector r.topK (r.filterFn X) =
      .ok results ∧
      searchShard X (flatEngine (exactScoring score) pick) svc r shard = .ok found ∧
      found.1.map (fun c => (c.id, c.score)) = results.map fun a => (a.id, a.score) := by
  obtain ⟨hget, hread⟩ := hloaded
  unfold searchShard
  rw [hget]
  dsimp only [flatEngine]
  rw [show (if r.filters.isEmpty then none else some fun md => parseFilter X md r.filters) =
    r.filterFn X from rfl]
  rcases hsearch : ctx.index.search (exactScoring score) pick r.vector r.topK
    (r.filterFn X) with exc | results
  · exact .inl ⟨exc, rfl, rfl⟩
  · obtain ⟨cs, hcs, hmap⟩ := mapM_enrich_ok (r := r) hread (results.map IndexResult.toAnn)
    refine .inr ⟨results, (cs, (results.map IndexResult.toAnn).length), rfl, ?_,
      hmap.trans List.map_map⟩
    dsimp only [Except.map]
    rw [hcs]

theorem searchShard_ok_iff (hloaded : Loaded X svc r.ns shard ctx) :
    (∃ found, searchShard X (flatEngine (exactScoring score) pick) svc r shard = .ok found) ↔
      Filters (r.filterFn X) ctx.index.rows := by
  have hindex : (∃ results, ctx.index.search (exactScoring score) pick r.vector r.topK
      (r.filterFn X) = .ok results) ↔
      Filters (r.filterFn X) ctx.index.rows := search_ok_iff
  rw [← hindex]
  obtain ⟨exc, hsearch, hshard⟩ | ⟨results, found, hsearch, hshard, -⟩ :=
    searchShard_eq score pick hloaded
  · rw [hsearch, hshard]
    exact iff_of_false (fun ⟨_, h⟩ => by cases h) fun ⟨_, h⟩ => by cases h
  · rw [hsearch, hshard]
    exact iff_of_true ⟨found, rfl⟩ ⟨results, rfl⟩

variable {shards : List Shard} {ctxs : Shard → ShardContext FlatIndex}

/-- The searches of the shards find the best of each. -/
theorem fanOut_tops [IsStrictOrderedRing K] (hpick : PicksBest pick) (htop : 1 ≤ r.topK)
    (hloaded : ∀ s ∈ shards, Loaded X svc r.ns s (ctxs s))
    (hscores : ∀ s ∈ shards, ∀ row ∈ (ctxs s).index.rows, -10 ^ 8 < score r.vector row.vector)
    {found : List (List (Candidate K) × Nat)}
    (h : fanOut X (flatEngine (exactScoring score) pick) svc r shards = .ok found) :
    List.Forall₂ (Top Prod.snd r.topK.toNat)
      (shards.map fun s => matching score r.vector (r.filterFn X) (ctxs s).index.rows)
      (found.map fun f => f.1.map fun c => (c.id, c.score)) := by
  unfold fanOut at h
  induction shards generalizing found with
  | nil =>
    cases h
    exact .nil
  | cons s shards ih =>
    rw [List.mapM_cons] at h
    obtain ⟨exc, -, hshard⟩ | ⟨results, f, hsearch, hshard, hmap⟩ :=
      searchShard_eq score pick (hloaded s List.mem_cons_self)
    · rw [hshard] at h
      cases h
    · rw [hshard] at h
      rcases hrest : shards.mapM (searchShard X (flatEngine (exactScoring score) pick) svc
        r) with exc | rest
      · rw [hrest] at h
        cases h
      · rw [hrest] at h
        cases h
        rw [List.map_cons, List.map_cons, hmap]
        exact .cons (top_search hpick htop (hscores s List.mem_cons_self) hsearch)
          (ih (fun t ht => hloaded t (List.mem_cons_of_mem _ ht))
            (fun t ht => hscores t (List.mem_cons_of_mem _ ht))
            hrest)

variable (pick) in
omit [Field K] in
/-- The ranking selects the best of what is found. -/
theorem top_ranked (S : Scoring K) (htop : 1 ≤ r.topK) (found : List (List (Candidate K) × Nat)) :
    Top Candidate.score r.topK.toNat (found.flatMap Prod.fst)
      (ranked (flatEngine S pick) r found) := by
  have hranked : ranked (flatEngine S pick) r found =
      ((found.flatMap Prod.fst).insertionSort fun a b => b.score ≤ a.score).take r.topK.toNat := by
    dsimp only [ranked, flatEngine, noRerank, pyTake]
    rw [if_pos (by omega), if_pos (by omega), List.take_take]
    congr 1
    omega
  rw [hranked]
  exact top_take_insertionSort _ _ _

omit [Field K] in
/-- Without a cached answer, the shards that are found are searched and ranked. -/
theorem query_of_miss (Q : QueryEngine FlatIndex K) (hrerank : Q.rerank = noRerank)
    {settings : Namespace} (hsettings : svc.settings.metadata.get? r.ns = some settings)
    (hlength : r.vector.length = settings.dimension) {cache : TieredCache (QueryAnswer K)} {now : ℚ}
    (hmiss : (cache.getQuery X now r.cacheQuery).2 = none) (tookMs : Int) :
    ((query X Q svc cache now tookMs false r).2.map fun answer => answer.results.map Candidate.id) =
      (fanOut X Q svc r (svc.router.routeForQuery r.ns)).map fun found =>
        (ranked Q r found).map Candidate.id := by
  unfold query beginQuery
  rw [hsettings]
  dsimp only
  rw [if_neg (not_not.mpr hlength)]
  rcases hq : cache.getQuery X now r.cacheQuery with ⟨cache', answer⟩
  rw [hq] at hmiss
  cases hmiss
  rcases svc.router.routeForQuery r.ns with _ | ⟨shard, shards⟩
  · have hnone : ranked Q r [] = [] := by
      rw [ranked, hrerank]
      simp [noRerank, pyTake]
    exact congrArg Except.ok (congrArg (List.map Candidate.id) hnone.symm)
  · dsimp only [endQuery]
    rw [if_neg Bool.false_ne_true]
    rcases fanOut X Q svc r (shard :: shards) with exc | found <;> rfl

theorem filters_of_shards {filterFn : Option (Metadata → Except Exc Bool)} {rows : List FlatRow}
    (hall : rows.Perm (shards.flatMap fun s => (ctxs s).index.rows)) :
    Filters filterFn rows ↔ ∀ s ∈ shards, Filters filterFn (ctxs s).index.rows := by
  constructor
  · intro h s hs f hf row hrow
    exact h f hf row (hall.mem_iff.mpr (List.mem_flatMap.mpr ⟨s, hs, hrow⟩))
  · intro h f hf row hrow
    obtain ⟨s, hs, hrow⟩ := List.mem_flatMap.mp (hall.mem_iff.mp hrow)
    exact h s hs f hf row hrow

omit [Field K] [LinearOrder K] in
/-- The rows of all shards that match, in any order. -/
theorem matching_perm {query : List PyFloat} {filterFn : Option (Metadata → Except Exc Bool)}
    {rows : List FlatRow} (hall : rows.Perm (shards.flatMap fun s => (ctxs s).index.rows)) :
    (shards.map fun s => matching score query filterFn (ctxs s).index.rows).flatten.Perm
      (matching score query filterFn rows) := by
  have hflat : (shards.map fun s => matching score query filterFn (ctxs s).index.rows).flatten =
      matching score query filterFn (shards.flatMap fun s => (ctxs s).index.rows) := by
    unfold matching
    rw [List.filter_flatMap, List.map_flatMap, List.flatMap_def]
  rw [hflat]
  exact ((hall.filter _).map _).symm

/-- What the shards find is ranked as the results of one index of all rows. -/
theorem ranked_eq [IsStrictOrderedRing K] (hpick : PicksBest pick) (htop : 1 ≤ r.topK)
    (hloaded : ∀ s ∈ shards, Loaded X svc r.ns s (ctxs s)) {all : FlatIndex}
    (hall : all.rows.Perm (shards.flatMap fun s => (ctxs s).index.rows))
    (hdistinct : (all.rows.map fun row => score r.vector row.vector).Nodup)
    (hscores : ∀ row ∈ all.rows, -10 ^ 8 < score r.vector row.vector)
    {found : List (List (Candidate K) × Nat)}
    (hfound : fanOut X (flatEngine (exactScoring score) pick) svc r shards = .ok found)
    {results : List (IndexResult K)}
    (hresults : all.search (exactScoring score) pick r.vector r.topK (r.filterFn X) = .ok results) :
    (ranked (flatEngine (exactScoring score) pick) r found).map Candidate.id =
      results.map IndexResult.id := by
  have hscores' : ∀ s ∈ shards, ∀ row ∈ (ctxs s).index.rows, -10 ^ 8 < score r.vector row.vector :=
    fun s hs row hrow =>
    hscores row (hall.mem_iff.mpr (List.mem_flatMap.mpr ⟨s, hs, hrow⟩))
  have hnodup : ((matching score r.vector (r.filterFn X) all.rows).map Prod.snd).Nodup := by
    rw [matching, List.map_map]
    exact hdistinct.sublist (List.filter_sublist.map _)
  have hparts : (shards.map fun s =>
      matching score r.vector (r.filterFn X) (ctxs s).index.rows).flatten.Perm
      (matching score r.vector (r.filterFn X) all.rows) := matching_perm hall
  have hwhole : Top Prod.snd r.topK.toNat (matching score r.vector (r.filterFn X) all.rows)
      (results.map fun a => (a.id, a.score)) := top_search hpick htop hscores hresults
  have hranked : Top Prod.snd r.topK.toNat (found.map fun f => f.1.map fun c =>
      (c.id, c.score)).flatten
      ((ranked (flatEngine (exactScoring score) pick) r found).map fun c => (c.id, c.score)) := by
    have hcandidates := top_ranked pick (exactScoring score) htop found
    rw [← List.flatMap_def, ← List.map_flatMap]
    exact Top.map hcandidates
  have hmerged :=
    (Top.of_parts (fanOut_tops hpick htop hloaded hscores' hfound) hranked).perm hparts
  have hids := congrArg (List.map Prod.fst) (Top.unique hnodup hmerged hwhole)
  rw [List.map_map, List.map_map] at hids
  exact hids

/-- A query over the shards has the results that one index of all their rows has, in the same
order. -/
theorem sharded_search_eq [IsStrictOrderedRing K] (hpick : PicksBest pick) {settings : Namespace}
    (hsettings : svc.settings.metadata.get? r.ns = some settings)
    (hlength : r.vector.length = settings.dimension) (htop : 1 ≤ r.topK)
    {cache : TieredCache (QueryAnswer K)} {now : ℚ}
    (hmiss : (cache.getQuery X now r.cacheQuery).2 = none)
    (hloaded : ∀ s ∈ svc.router.routeForQuery r.ns, Loaded X svc r.ns s (ctxs s)) {all : FlatIndex}
    (hall : all.rows.Perm ((svc.router.routeForQuery r.ns).flatMap fun s => (ctxs s).index.rows))
    (hdistinct : (all.rows.map fun row => score r.vector row.vector).Nodup)
    (hscores : ∀ row ∈ all.rows, -10 ^ 8 < score r.vector row.vector) (tookMs : Int) :
    ((query X (flatEngine (exactScoring score) pick) svc cache now tookMs false r).2.map
      fun answer =>
        answer.results.map Candidate.id).toOption =
      ((all.search (exactScoring score) pick r.vector r.topK (r.filterFn X)).map fun results =>
        results.map IndexResult.id).toOption := by
  have hfound : (∃ found, fanOut X (flatEngine (exactScoring score) pick) svc r
      (svc.router.routeForQuery r.ns) =
      .ok found) ↔ ∃ results, all.search (exactScoring score) pick r.vector r.topK (r.filterFn X) =
        .ok results := by
    rw [search_ok_iff, filters_of_shards hall]
    exact ShardRouter.mapM_ok_iff.trans (forall₂_congr fun s hs =>
      searchShard_ok_iff (hloaded s hs))
  rw [query_of_miss (flatEngine (exactScoring score) pick) rfl hsettings hlength hmiss tookMs]
  rcases hfan : fanOut X (flatEngine (exactScoring score) pick) svc r
    (svc.router.routeForQuery r.ns) with exc | found
  · -- a filter that raises for a row raises either way
    rw [hfan] at hfound
    rcases hsearch : all.search (exactScoring score) pick r.vector r.topK
      (r.filterFn X) with exc' | results
    · rfl
    · obtain ⟨_, hok⟩ := hfound.mpr ⟨results, hsearch⟩
      cases hok
  · obtain ⟨results, hsearch⟩ := hfound.mp ⟨found, hfan⟩
    rw [hsearch]
    exact congrArg some (ranked_eq hpick htop hloaded hall hdistinct hscores hfan hsearch)

/-! Three records on two shards, by the inner product. -/

/-- Sorting all positions. -/
def sortedPick (scores : List ℚ) (k : Int) : List Nat :=
  ((List.range scores.length).insertionSort fun a b =>
    scores.getD b 0 ≤ scores.getD a 0).take k.toNat

theorem picksBest_sortedPick : PicksBest sortedPick := by
  intro scores k d _ _
  refine (top_take_insertionSort (fun j => scores.getD j 0) k.toNat
    (List.range scores.length)).congr fun j hj => ?_
  rw [List.getD_eq_getElem?_getD, List.getD_eq_getElem?_getD,
    List.getElem?_eq_getElem (List.mem_range.mp hj)]
  rfl

/-- The inner product. -/
def inner (query vector : List PyFloat) : ℚ :=
  ((query.zip vector).map fun p => (finite p.1) * (finite p.2)).sum
where
  finite : PyFloat → ℚ
    | .finite x => x
    | _ => 0

private def firstRows : List FlatRow := [⟨"a", [.finite 1], []⟩, ⟨"b", [.finite 3], []⟩]

private def secondRows : List FlatRow := [⟨"c", [.finite 2], []⟩]

private def halfOf (shard : Shard) : ShardContext FlatIndex where
  shard := shard
  ns := ⟨"docs", 1, .dotProduct, .flat, 2⟩
  wal := .init []
  segments := .init 10 ∅ ∅
  index := ⟨1, if shard.id = "s-0" then firstRows else secondRows⟩
  lifecycle := ⟨0, 0⟩
  recovery := ⟨[], [], 0, 0⟩
  tombstones := ∅

private def halves : List Shard :=
  [⟨"s-0", "docs", "node-1", .active, 2, 50000000, [], 1⟩,
    ⟨"s-1", "docs", "node-1", .active, 1, 50000000, [], 1⟩]

private def halved : IngestService FlatIndex where
  settings := ⟨Dict.set ∅ "docs" ⟨"docs", 1, .dotProduct, .flat, 2⟩, 10000⟩
  router := ⟨halves.foldl InMemoryEtcd.put (.init none), none⟩
  nodeId := some "node-1"
  roots := ∅
  replicator := .init ∅
  replicationStats := ∅
  shards := halves.foldl (fun d s => d.set (IngestService.ctxKey "docs" s.id) (halfOf s)) ∅
  idempotency := ∅

private def bestTwo : QueryRequest := ⟨"docs", [.finite 1], 2, none, [], true, true, none⟩

theorem best_two_of_halves :
    ((query fieldwise (flatEngine (exactScoring inner) sortedPick) halved ⟨60, ∅, none⟩ 0 0
      false bestTwo).2.map
        fun answer => answer.results.map Candidate.id).toOption =
      (((⟨1, secondRows ++ firstRows⟩ : FlatIndex).search (exactScoring inner) sortedPick
        [.finite 1] 2 none).map
        fun results => results.map IndexResult.id).toOption := by
  have hloaded : ∀ s ∈ halved.router.routeForQuery "docs",
      Loaded fieldwise halved "docs" s (halfOf s) := by
    intro s hs
    have hmem : s ∈ halves := hs
    rcases List.mem_cons.mp hmem with rfl | hmem
    · exact ⟨rfl, fun id => ⟨none, rfl⟩⟩
    · cases List.mem_singleton.mp hmem
      exact ⟨rfl, fun id => ⟨none, rfl⟩⟩
  have hall : (secondRows ++ firstRows).Perm (halves.flatMap fun s => (halfOf s).index.rows) :=
    List.perm_append_comm
  exact sharded_search_eq (r := bestTwo) picksBest_sortedPick rfl rfl (by decide) rfl hloaded hall
    (by decide +kernel)
    (by decide +kernel) 0

end Vsector.Query
