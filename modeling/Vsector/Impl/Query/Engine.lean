import Vsector.Impl.Infra.Cache
import Vsector.Impl.Ingest.Service
import Vsector.Impl.Query.Filter

/-!
# The query engine

`QueryEngine.query` of `query/engine.py`, in the parts between which other
requests may run: until it waits for the shards (`beginQuery`), the searches
of the shards, which run one after the other without a pause (`fanOut`), and
the rest (`finishQuery`). The searches of the index engines and the
re-rankings are parameters; the consistency, which nothing reads, and the
metrics are left out.
-/

namespace Vsector.Query

open Framework Models Storage Sharding Index Ingest Infra

variable {ι σ : Type} (X : Externals)

/-! ## Requests -/

/-- The arguments of a query, but for its timeout. -/
structure QueryRequest where
  ns : String
  vector : List PyFloat
  topK : Int
  efSearch : Option Int
  filters : Filter
  includeMetadata : Bool
  includeVector : Bool
  nprobe : Option Int

/-- What the cache is asked with. -/
def QueryRequest.cacheQuery (r : QueryRequest) : CacheQuery := ⟨r.ns, r.vector, r.topK, r.filters⟩

/-- An item of the results. -/
structure Candidate (σ : Type) where
  id : String
  score : σ
  metadata : Metadata
  vector : Option (List PyFloat)

structure QueryAnswer (σ : Type) where
  results : List (Candidate σ)
  tookMs : Int
  shardCount : Nat
  scanned : Nat

/-! ## The engine -/

/-- The arguments of `index.search`. -/
structure SearchArgs where
  query : List PyFloat
  topK : Int
  efSearch : Int
  nprobe : Option Int
  filterFn : Option (Metadata → Except Exc Bool)

/-- `rerank` is the end of the ranking that `VSECTOR_RERANK` chooses, for a query vector and
`top_k`. -/
structure QueryEngine (ι σ : Type) where
  search : ι → SearchArgs → Except Exc (List (AnnResult σ))
  rerank : List PyFloat → List (Candidate σ) → Int → List (Candidate σ)

/-- `items[:k]`. -/
def pyTake {α : Type} (items : List α) (k : Int) : List α :=
  if 0 ≤ k then items.take k.toNat else items.take (items.length - k.natAbs)

/-- The ranking where `VSECTOR_RERANK` is not set. -/
def noRerank (_ : List PyFloat) (top : List (Candidate σ)) (topK : Int) : List (Candidate σ) :=
  pyTake top topK

/-- What `query` has come to when it waits, or returns without. -/
inductive Begun (σ : Type) where
  | cached (answer : QueryAnswer σ)
  | noShards
  | waiting (shards : List Shard)

/-- `query`, until it waits for the searches. -/
def beginQuery (svc : IngestService ι) (cache : TieredCache (QueryAnswer σ)) (now : ℚ)
    (r : QueryRequest) :
    TieredCache (QueryAnswer σ) × Except Exc (Begun σ) :=
  match svc.settings.metadata.get? r.ns with
  | none => (cache, .error (.valueError s!"namespace {pyRepr r.ns} not found"))
  | some ns =>
    if r.vector.length ≠ ns.dimension then
      (cache,
        .error (.valueError s!"dimension mismatch expected {ns.dimension} got {r.vector.length}"))
    else
      let fresh := match svc.router.routeForQuery r.ns with
        | [] => .noShards
        | shards => .waiting shards
      match cache.getQuery X now r.cacheQuery with
      | (cache, some answer) => (cache, .ok (if r.includeVector then fresh else .cached answer))
      | (cache, none) => (cache, .ok fresh)

variable (Q : QueryEngine ι σ)

/-- What `search_shard` makes of a result. -/
def enrich (ctx : ShardContext ι) (r : QueryRequest) (result : AnnResult σ) :
    Except Exc (Candidate σ) :=
  let item (md : Metadata) (vector : Option (List PyFloat)) : Candidate σ :=
    ⟨result.id, result.score, if r.includeMetadata then md else [], vector⟩
  if r.includeVector then
    match ctx.segments.get X result.id with
    | .error e => .error e
    | .ok none => .ok (item result.metadata none)
    | .ok (some rec) => .ok (item rec.metadata (some rec.vector))
  else .ok (item result.metadata none)

/-- `search_shard`. -/
def searchShard (svc : IngestService ι) (r : QueryRequest) (shard : Shard) :
    Except Exc (List (Candidate σ) × Nat) :=
  match svc.shards.get? (IngestService.ctxKey r.ns shard.id) with
  | none => .ok ([], 0)
  | some ctx =>
    match Q.search ctx.index
        { query := r.vector
          topK := r.topK
          efSearch := r.efSearch.getD 100
          nprobe := r.nprobe
          filterFn := if r.filters.isEmpty then none
            else some fun md => parseFilter X md r.filters } with
    | .error e => .error e
    | .ok results => (results.mapM (enrich X ctx r)).map fun enriched => (enriched, results.length)

/-- The searches of the shards. -/
def fanOut (svc : IngestService ι) (r : QueryRequest) (shards : List Shard) :
    Except Exc (List (List (Candidate σ) × Nat)) := shards.mapM (searchShard X Q svc r)

/-- The best of all shards' candidates. -/
def ranked [LinearOrder σ] (r : QueryRequest) (found : List (List (Candidate σ) × Nat)) :
    List (Candidate σ) :=
  let candidates := (found.flatMap Prod.fst).insertionSort fun a b => b.score ≤ a.score
  Q.rerank r.vector (pyTake candidates (max (r.topK * 3) r.topK)) r.topK

/-- `query` after the searches; `found` is empty where they took too long. -/
def finishQuery [LinearOrder σ] (cache : TieredCache (QueryAnswer σ)) (now : ℚ) (tookMs : Int)
    (r : QueryRequest) (shardCount : Nat) (found : List (List (Candidate σ) × Nat)) :
    TieredCache (QueryAnswer σ) × QueryAnswer σ :=
  let answer : QueryAnswer σ := ⟨ranked Q r found, tookMs, shardCount, (found.map Prod.snd).sum⟩
  (if r.includeVector then cache else cache.setQuery X now r.cacheQuery answer, answer)

/-- What becomes of a query; `timedOut` is whether the searches take too long. -/
def endQuery [LinearOrder σ] (svc : IngestService ι) (cache : TieredCache (QueryAnswer σ)) (now : ℚ)
    (tookMs : Int) (timedOut : Bool) (r : QueryRequest) :
    Begun σ → TieredCache (QueryAnswer σ) × Except Exc (QueryAnswer σ)
  | .cached answer => (cache, .ok answer)
  | .noShards => (cache, .ok ⟨[], 0, 0, 0⟩)
  | .waiting shards =>
    match if timedOut then .ok [] else fanOut X Q svc r shards with
    | .error e => (cache, .error e)
    | .ok found =>
      let (cache, answer) := finishQuery X Q cache now tookMs r shards.length found
      (cache, .ok answer)

/-- `query`, where nothing else runs while it waits. -/
def query [LinearOrder σ] (svc : IngestService ι) (cache : TieredCache (QueryAnswer σ)) (now : ℚ)
    (tookMs : Int) (timedOut : Bool) (r : QueryRequest) :
    TieredCache (QueryAnswer σ) × Except Exc (QueryAnswer σ) :=
  match beginQuery X svc cache now r with
  | (cache, .error e) => (cache, .error e)
  | (cache, .ok begun) => endQuery X Q svc cache now tookMs timedOut r begun

end Vsector.Query
