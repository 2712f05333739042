import Vsector.Impl.Api.Namespaces
import Vsector.Impl.Ingest.DeleteFilter
import Vsector.Impl.Query.Engine

/-!
# The vector endpoints

`upsert_vectors`, `delete_vectors` and `query_vectors` of `api/rest.py`, and
`delete_namespace`, over the ingest service, the query engine and the query
cache of one process. Its event loop runs a request from one wait to the
next: a query waits for its shards, the others never. Authentication, rate
limits and the CDN are left out.
-/

namespace Vsector.Api

open Framework Models Storage Sharding Index Ingest Infra Query

variable {ι σ : Type} [BaseIndex ι] (X : Externals)

/-- A query that waits: the shards it asks, and what they have found. -/
structure Inflight (σ : Type) where
  request : QueryRequest
  shards : List Shard
  found : Option (Except Exc (List (List (Candidate σ) × Nat)))

structure Server (ι σ : Type) where
  ingest : IngestService ι
  cache : TieredCache (QueryAnswer σ)
  inflight : Dict Nat (Inflight σ)

namespace Server

/-- `upsert_vectors`: the cache is emptied unless the upsert raises. -/
def upsertVectors (s : Server ι σ) (ns : String) (records : List (Raw × RecordEnv ι))
    (idempotencyKey : Option String) (background : String → FlushEnv) :
    Server ι σ × Except Exc UpsertResult :=
  match s.ingest.upsert X ns records idempotencyKey background with
  | (ingest, .ok result) =>
    ({ s with ingest := ingest, cache := s.cache.invalidateNamespace ns }, .ok result)
  | (ingest, .error e) => ({ s with ingest := ingest }, .error e)

/-- `delete_vectors`. -/
def deleteVectors (s : Server ι σ) (ns : String) (ids : Option (List String))
    (filter : Option Filter) (env : String → Nat → DeliveryEnv) :
    Server ι σ × Except Exc DeleteResult :=
  match s.ingest.deleteRequest X ns ids filter env with
  | (ingest, r) => ({ s with ingest := ingest }, r)

/-- `delete_namespace`. -/
def deleteNamespace (s : Server ι σ) (name : String) : Server ι σ × Except Exc Unit :=
  match s.ingest.settings.metadata.get? name with
  | none => (s, .error (.other "HTTPException" "namespace not found"))
  | some _ =>
    let svc := s.ingest
    ({ s with
        ingest := { svc with
          settings := { svc.settings with metadata := svc.settings.metadata.pop name }
          router := { svc.router with etcd := deleteShards svc.router.etcd name } } }, .ok ())

end Server

/-! ## Runs -/

/-- What the event loop runs next: a request, the searches of a query, or the rest of it. A query
has an identity, and `timedOut` is whether its wait has. -/
inductive ServerOp (ι : Type) where
  | upsert (ns : String) (records : List (Raw × RecordEnv ι)) (idempotencyKey : Option String)
      (background : String → FlushEnv)
  | delete (ns : String) (ids : Option (List String)) (filter : Option Filter)
      (env : String → Nat → DeliveryEnv)
  | deleteNamespace (name : String)
  | query (id : Nat) (now : ℚ) (request : QueryRequest)
  | search (id : Nat)
  | finish (id : Nat) (now : ℚ) (tookMs : Int) (timedOut : Bool)

variable [LinearOrder σ] (Q : QueryEngine ι σ)

/-- The identities of the halves of a split are new. -/
def NewHalves (e : InMemoryEtcd) (r : Raw × RecordEnv ι) : Prop :=
  e.get r.2.split.idA = none ∧ e.get r.2.split.idB = none

instance (e : InMemoryEtcd) (r : Raw × RecordEnv ι) : Decidable (NewHalves e r) :=
  inferInstanceAs (Decidable (_ ∧ _))

/-- The answer a query gets from the cache. -/
def Server.served (s : Server ι σ) (now : ℚ) (r : QueryRequest) : Option (QueryAnswer σ) :=
  match (beginQuery X s.ingest s.cache now r).2 with
  | .ok (.cached answer) => some answer
  | _ => none

/-- The server after an operation, whether or not it raises; `none` where it cannot be next. -/
def serverStep (s : Server ι σ) : ServerOp ι → Option (Server ι σ)
  | .upsert ns records key background =>
    if ∀ r ∈ records, NewHalves s.ingest.router.etcd r then
      some (s.upsertVectors X ns records key background).1
    else none
  | .delete ns ids filter env => some (s.deleteVectors X ns ids filter env).1
  | .deleteNamespace name => some (s.deleteNamespace name).1
  | .query id now r =>
    match s.inflight.get? id, beginQuery X s.ingest s.cache now r with
    | some _, _ => none
    | none, (cache, .ok (.waiting shards)) =>
      some { s with cache := cache, inflight := s.inflight.set id ⟨r, shards, none⟩ }
    | none, (cache, _) => some { s with cache := cache }
  | .search id =>
    match s.inflight.get? id with
    | some ⟨r, shards, none⟩ =>
      some { s with inflight := s.inflight.set id ⟨r, shards, some (fanOut X Q s.ingest r shards)⟩ }
    | _ => none
  | .finish id now tookMs timedOut =>
    match s.inflight.get? id with
    | none => none
    | some w =>
      let done (found : List (List (Candidate σ) × Nat)) : Server ι σ :=
        { s with
          cache := (finishQuery X Q s.cache now tookMs w.request w.shards.length found).1
          inflight := s.inflight.pop id }
      match timedOut, w.found with
      | true, _ => some (done [])
      | false, some (.ok found) => some (done found)
      | false, some (.error _) => some { s with inflight := s.inflight.pop id }
      | false, none => none

end Vsector.Api
