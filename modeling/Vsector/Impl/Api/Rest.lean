import Vsector.Impl.Api.Vectors
import Vsector.Impl.Gateway.Rbac

/-!
# The REST endpoints

The endpoints of `api/rest.py` that ask who calls, each from the headers of a
request to its response. A body that is not well formed changes nothing and is
left out. So are the endpoints anyone may call: they show no record and change
nothing.
-/

namespace Vsector.Api

open Framework Models Storage Sharding Index Ingest Infra Query

variable {ι σ : Type} [BaseIndex ι] (X : Externals)

/-! ## patch_metadata -/

/-- `{**metadata, **body}`. -/
def mergeMetadata (metadata body : Metadata) : Metadata :=
  body.foldl (fun d f => Dict.insert f.1 f.2 d) metadata

/-- `all(v == 0 for v in vector)`. -/
def allZero (vector : List PyFloat) : Bool :=
  vector.all fun
    | .finite x => x = 0
    | _ => false

/-- `patch_metadata`'s vector: a vector of zeros is looked up once more in the segments. -/
def patchedVector (svc : IngestService ι) (ns vid : String) (rec : Payload) :
    Except Exc (List Json) :=
  let found : Except Exc (List Json) :=
    match rec.vector, svc.settings.metadata.get? ns with
    | [], none => .error (.other "AttributeError" "'NoneType' object has no attribute 'dimension'")
    | [], some settings => .ok (List.replicate settings.dimension (.int 0))
    | vector, _ => .ok (vector.map .float)
  match found with
  | .error e => .error e
  | .ok vector =>
    if ¬ allZero rec.vector then .ok vector
    else
      match svc.router.route X ns vid with
      | .error e => .error e
      | .ok shard =>
        match svc.shards.get? (IngestService.ctxKey ns shard.id) with
        | none => .ok vector
        | some ctx =>
          (ctx.segments.get X vid).map fun r => (r.map fun r => r.vector.map .float).getD vector

namespace Server

/-- `get_vector`. -/
def getVector (s : Server ι σ) (ns vid : String) : Server ι σ × Except Exc Payload :=
  match s.ingest.fetch X ns [vid] with
  | (ingest, .error e) => ({ s with ingest := ingest }, .error e)
  | (ingest, .ok []) => ({ s with ingest := ingest }, .error (httpException 404 "not found"))
  | (ingest, .ok (rec :: _)) => ({ s with ingest := ingest }, .ok rec)

/-- `patch_metadata`: what the upsert makes of the record is not looked at. -/
def patchMetadata (s : Server ι σ) (ns vid : String) (body : Metadata) (env : RecordEnv ι)
    (background : String → FlushEnv) : Server ι σ × Except Exc Unit :=
  match s.getVector X ns vid with
  | (s, .error e) => (s, .error e)
  | (s, .ok rec) =>
    match patchedVector X s.ingest ns vid rec with
    | .error e => (s, .error e)
    | .ok vector =>
      let raw : Raw :=
        [("id", .str vid), ("vector", .arr vector),
          ("metadata", .obj (mergeMetadata rec.metadata body))]
      match s.ingest.upsert X ns [(raw, env)] none background with
      | (ingest, r) => ({ s with ingest := ingest }, r.map fun _ => ())

/-- `create_namespace`, of settings that have passed their validators. -/
def createNamespace (lm : ShardLifecycleManager) (nodeId : String) (s : Server ι σ) (ns : Namespace)
    (shardCount : Nat) :
    Server ι σ × Except Exc Unit :=
  match s.ingest.settings.metadata.get? ns.name with
  | some _ => (s, .error (httpException 409 s!"namespace {pyRepr ns.name} already exists"))
  | none =>
    let svc := s.ingest
    match ensureNamespaceShards lm nodeId svc.router.etcd ns.name shardCount with
    | (etcd, r) =>
      ({ s with
          ingest := { svc with
            settings := { svc.settings with metadata := svc.settings.metadata.set ns.name ns }
            router := { svc.router with etcd := etcd } } }, r)

/-- The query of `query_vectors`. -/
def queryVectors [LinearOrder σ] (Q : QueryEngine ι σ) (s : Server ι σ) (now : ℚ) (tookMs : Int)
    (timedOut : Bool) (r : QueryRequest) : Server ι σ × Except Exc (QueryAnswer σ) :=
  match query X Q s.ingest s.cache now tookMs timedOut r with
  | (cache, answer) => ({ s with cache := cache }, answer)

/-- The fetch of `fetch_vectors`. -/
def fetchVectors (s : Server ι σ) (ns : String) (ids : List String) :
    Server ι σ × Except Exc (List Payload) :=
  match s.ingest.fetch X ns ids with
  | (ingest, r) => ({ s with ingest := ingest }, r)

end Server

/-! ## Requests -/

/-- A request, with what it meets. -/
inductive Request (ι : Type) where
  | createNamespace (ns : Namespace) (shardCount : Nat)
  | deleteNamespace (name : String)
  | upsert (ns : String) (records : List (Raw × RecordEnv ι)) (idempotencyKey : Option String)
      (background : String → FlushEnv)
  | query (now : ℚ) (tookMs : Int) (timedOut : Bool) (request : QueryRequest)
  | fetch (ns : String) (ids : List String)
  | delete (ns : String) (ids : Option (List String)) (filter : Option Filter)
      (env : String → Nat → DeliveryEnv)
  | patchMetadata (ns vid : String) (body : Metadata) (env : RecordEnv ι)
      (background : String → FlushEnv)
  | getVector (ns vid : String)

inductive Response (σ : Type) where
  | created (ns : Namespace)
  | deletedNamespace (name : String)
  | upserted (result : UpsertResult)
  | queried (answer : QueryAnswer σ)
  | fetched (vectors : List Payload)
  | deleted (result : DeleteResult)
  | updated (vid : String)
  | vector (rec : Payload)

/-- An endpoint that asks for a permission. -/
def Gateway.guarded (g : Gateway) (auth : Auth) (ns action : String) (s : Server ι σ)
    (endpoint : Server ι σ × Except Exc (Response σ)) : Server ι σ × Except Exc (Response σ) :=
  match g.guard auth ns action with
  | .error e => (s, .error e)
  | .ok () => endpoint

/-- A response that is built of what an endpoint returns. -/
def respond {α : Type} (response : α → Response σ) (p : Server ι σ × Except Exc α) :
    Server ι σ × Except Exc (Response σ) := (p.1, p.2.map response)

variable [LinearOrder σ] (Q : QueryEngine ι σ) (g : Gateway) (lm : ShardLifecycleManager)
  (nodeId : String)

/-- The endpoints, for a caller that is known. -/
def endpoint (auth : Auth) (s : Server ι σ) : Request ι → Server ι σ × Except Exc (Response σ)
  | .createNamespace ns shardCount =>
    respond (fun _ => .created ns) (s.createNamespace lm nodeId ns shardCount)
  | .deleteNamespace name => respond (fun _ => .deletedNamespace name) (s.deleteNamespace name)
  | .upsert ns records key background =>
    g.guarded auth ns "upsert" s (respond .upserted (s.upsertVectors X ns records key background))
  | .query now tookMs timedOut r =>
    g.guarded auth r.ns "query" s (respond .queried (s.queryVectors X Q now tookMs timedOut r))
  | .fetch ns ids => g.guarded auth ns "fetch" s (respond .fetched (s.fetchVectors X ns ids))
  | .delete ns ids filter env =>
    g.guarded auth ns "delete" s (respond .deleted (s.deleteVectors X ns ids filter env))
  | .patchMetadata ns vid body env background =>
    respond (fun _ => .updated vid) (s.patchMetadata X ns vid body env background)
  | .getVector ns vid => respond .vector (s.getVector X ns vid)

/-- A request with its headers. -/
def serve (s : Server ι σ) (c : Credentials) (request : Request ι) :
    Server ι σ × Except Exc (Response σ) :=
  match g.verifyApiKey c with
  | .error e => (s, .error e)
  | .ok auth => endpoint X Q g lm nodeId auth s request

end Vsector.Api
