import Vsector.Framework.Run
import Vsector.Impl.Sharding.Replication
import Vsector.Impl.Sharding.Router

/-!
# The ingest service

`IngestService` of `ingest/service.py`: `upsert`, `delete` by ids and
`fetch`. Deletion by filter, the metrics, the time a request took and the
timed compaction of the indexes are left out.

What raises inside the service without its doing (a write of a file, an
engine, the metrics, the metadata store) is given by the environment of a
record (`RecordEnv`). A method that raises leaves the state it had reached.
-/

namespace Vsector.Ingest

open Framework Models Storage Sharding Index

variable {ι : Type} [BaseIndex ι] (X : Externals)

/-! ## Requests -/

/-- A record of a request: a `dict`. -/
abbrev Raw := List (String × Json)

/-- `type(value).__name__`. -/
def typeName : Json → String
  | .null => "NoneType"
  | .bool _ => "bool"
  | .int _ => "int"
  | .float _ => "float"
  | .str _ => "str"
  | .arr _ => "list"
  | .obj _ => "dict"

/-- `list(value)`: a text is a list of characters and a `dict` one of keys. -/
def pyList : Json → Except Exc (List Json)
  | .arr items => .ok items
  | .str s => .ok (s.toList.map fun c => .str (String.singleton c))
  | .obj fields => .ok (fields.map fun f => .str f.1)
  | value => .error (.typeError s!"object of type {pyRepr (typeName value)} has no len()")

/-- `uuid.UUID(raw["id"]) if "id" in raw else uuid.uuid4()`. -/
def recordId (raw : Raw) (uuid4 : UUID) : Except Exc UUID :=
  match raw.lookup "id" with
  | none => .ok uuid4
  | some (.str text) =>
    match X.uuid text with
    | some id => .ok id
    | none => .error (.valueError "badly formed hexadecimal UUID string")
  | some .null =>
    .error (.typeError "one of the hex, bytes, bytes_le, fields, or int arguments must be given")
  | some value =>
    .error (.other "AttributeError" s!"'{typeName value}' object has no attribute 'replace'")

def asText : Json → Option String
  | .str s => some s
  | _ => none

/-- The fields `metadata`, `tags` and `source_system` as pydantic takes them. -/
def readFields (raw : Raw) : Option (List (String × Json) × List String × String) :=
  match (raw.lookup "metadata").getD (.obj []), (raw.lookup "tags").getD (.arr []),
    (raw.lookup "source_system").getD (.str "unknown") with
  | .obj metadata, .arr tags, .str sourceSystem =>
    (tags.mapM asText).map fun tags => (metadata, tags, sourceSystem)
  | _, _, _ => none

/-- `upsert`'s schema validation. -/
def parseRecord (ns : String) (settings : Namespace) (raw : Raw) (now : DateTime) (uuid4 : UUID) :
    Except Exc VectorRecord :=
  match (raw.lookup "vector").getD .null with
  | .null => .error (.valueError "vector missing")
  | vec =>
    match pyList vec with
    | .error e => .error e
    | .ok items =>
      if items.length ≠ settings.dimension then
        .error (.valueError s!"dimension mismatch expected {settings.dimension} got {items.length}")
      else
        match recordId X raw uuid4 with
        | .error e => .error e
        | .ok id =>
          match items.mapM X.floatOf with
          | .error e => .error e
          | .ok vector =>
            match readFields raw with
            | none => .error .validationError
            | some (metadata, tags, sourceSystem) =>
              match VectorRecord.new X now id ns vector settings.dimension metadata
                tags sourceSystem with
              | none => .error .validationError
              | some rec => .ok rec

/-- What a record meets: the clock and a new identity, a memtable flush, the index and the
counters, the replicas, the replication counters, and a split. -/
structure RecordEnv (ι : Type) where
  now : DateTime
  uuid4 : UUID
  flush : FlushEnv
  index : Option (IndexFault ι)
  delivery : DeliveryEnv
  bookkeeping : Option Exc
  split : SplitEnv

structure UpsertError where
  record : Option Json
  error : Exc

/-- What `upsert` returns; `health` is that of the touched shards. -/
structure UpsertResult where
  upserted : Nat
  ids : List String
  errors : List UpsertError
  replication : ReplicationSummary
  health : List (String × ReplicationHealth)

structure DeleteResult where
  deleted : Nat
  replication : ReplicationSummary
  health : List (String × ReplicationHealth)

/-- The counts of `_replication_stats`. -/
structure ReplicationStats where
  attempts : Nat
  acks : Nat
  failures : Nat
  degraded : Nat

/-! ## The service -/

/-- `roots` are the directories of the shards, as the process found them. -/
structure IngestService (ι : Type) where
  settings : Settings
  router : ShardRouter
  nodeId : Option String
  roots : Dict String Root
  replicator : InProcessReplicaTransport ι
  replicationStats : Dict String ReplicationStats
  shards : Dict String (ShardContext ι)
  idempotency : Dict String UpsertResult

namespace IngestService

def ctxKey (ns shardId : String) : String := s!"{ns}:{shardId}"

def setCtx (svc : IngestService ι) (key : String) (ctx : ShardContext ι) : IngestService ι :=
  { svc with shards := svc.shards.set key ctx }

/-- `shard.vector_count = count`. -/
def setCount (svc : IngestService ι) (shard : Shard) (count : Nat) : IngestService ι :=
  { svc with router := { svc.router with
    etcd := svc.router.etcd.setShard { shard with vectorCount := count } } }

/-- `_get_or_create_ctx`. A new context counts the records it recovers on the shard it is given. -/
def getOrCreateCtx (svc : IngestService ι) (ns : String) (shard : Shard) :
    Except Exc (IngestService ι × ShardContext ι) :=
  match svc.shards.get? (ctxKey ns shard.id) with
  | some ctx => .ok (svc, ctx)
  | none =>
    match svc.settings.metadata.get? ns with
    | none => .error (.valueError s!"namespace {pyRepr ns} not found")
    | some settings =>
      match ShardContext.init X shard settings svc.settings.memtableThreshold
          ((svc.roots.get? shard.id).getD ∅) with
      | .error e => .error e
      | .ok ctx =>
        .ok ((svc.setCount shard ctx.shard.vectorCount).setCtx (ctxKey ns shard.id) ctx, ctx)

/-- `_record_replication_stats`. -/
def recordReplicationStats (svc : IngestService ι) (ns : String) (shard : Shard)
    (repl : ReplicationResult) :
    IngestService ι :=
  let key := ctxKey ns shard.id
  let st := (svc.replicationStats.get? key).getD ⟨0, 0, 0, 0⟩
  { svc with
    replicationStats := svc.replicationStats.set key
      { attempts := st.attempts + repl.attemptedReplicas.length
        acks := st.acks + repl.acknowledgedReplicas.length
        failures := st.failures + repl.failedReplicas.length
        degraded := if repl.degraded then st.degraded + 1 else st.degraded } }

/-- `_replication_health_map`. -/
def replicationHealthMap (svc : IngestService ι) (ns : String) (settings : Namespace)
    (touched : PySet String) :
    List (String × ReplicationHealth) :=
  (touched.keys.filterMap svc.shards.get?).map fun ctx =>
    (ctxKey ctx.shard.ns ctx.shard.id,
      svc.replicator.replicationHealth ns ctx.shard settings.requiredAcks true)

/-- The flushes of the touched logs, one for each. -/
def flushLogs (svc : IngestService ι) (touched : PySet String) : IngestService ι :=
  touched.keys.foldl (fun svc key =>
    match svc.shards.get? key with
    | some ctx => svc.setCtx key ctx.flushWal
    | none => svc) svc

/-! ## upsert -/

/-- The local variables of `upsert`. -/
structure UpsertState (ι : Type) where
  svc : IngestService ι
  upserted : List String
  errors : List UpsertError
  touched : PySet String
  replications : List ReplicationResult

/-- `upsert`'s loop body. -/
def upsertRecord (ns : String) (settings : Namespace) (s : UpsertState ι) (raw : Raw)
    (env : RecordEnv ι) :
    UpsertState ι :=
  let fail (s : UpsertState ι) (e : Exc) := { s with errors := s.errors ++ [⟨raw.lookup "id", e⟩] }
  match parseRecord X ns settings raw env.now env.uuid4 with
  | .error e => fail s e
  | .ok rec =>
    match s.svc.router.routeWrite X ns rec.id.text s.svc.nodeId with
    | .error e => fail s e
    | .ok shard =>
      match s.svc.getOrCreateCtx X ns shard with
      | .error e => fail s e
      | .ok (svc, ctx) =>
        let key := ctxKey ns shard.id
        let payload := some (X.modelDumpJson rec)
        let s := { s with touched := s.touched.add key }
        match ctx.applyUpsert X rec payload env.flush env.index with
        | (ctx, .error e) => fail { s with svc := svc.setCtx key ctx } e
        | (ctx, .ok ()) =>
          let svc := (svc.setCtx key ctx).setCount shard ctx.shard.vectorCount
          let shard := { shard with vectorCount := ctx.shard.vectorCount }
          let (replicator, repl) :=
            svc.replicator.replicateUpsert X svc.settings ns shard payload
              settings.requiredAcks env.delivery
          let svc := ({ svc with replicator := replicator } : IngestService
            ι).recordReplicationStats ns shard repl
          let s := { s with svc := svc, replications := s.replications ++ [repl] }
          match env.bookkeeping with
          | some e => fail s e
          | none =>
            match svc.router.maybeSplit shard env.split with
            | (router, .error e) => fail { s with svc := { svc with router := router } } e
            | (router, .ok ()) =>
              { s with
                svc := { svc with router := router }, upserted := s.upserted ++ [rec.id.text] }

/-- The memtable flush at the end of a request. -/
def flushIfFull (background : String → FlushEnv) (svc : IngestService ι) (key : String) :
    IngestService ι × Except Exc Unit :=
  match svc.shards.get? key with
  | none => (svc, .ok ())
  | some ctx =>
    if ctx.segments.memtable.shouldFlush then
      match ctx.flushMemtable X (background key) with
      | (ctx, r) => (svc.setCtx key ctx, r)
    else (svc, .ok ())

/-- `upsert`, each record with what it meets. -/
def upsert (svc : IngestService ι) (ns : String) (records : List (Raw × RecordEnv ι))
    (idempotencyKey : Option String) (background : String → FlushEnv) :
    IngestService ι × Except Exc UpsertResult :=
  let key := idempotencyKey.filter (· ≠ "")
  match key.bind svc.idempotency.get? with
  | some result => (svc, .ok result)
  | none =>
    match svc.settings.metadata.get? ns with
    | none => (svc, .error (.valueError s!"namespace {pyRepr ns} not found"))
    | some settings =>
      if 10000 < records.length then (svc, .error (.valueError "Max batch size 10,000"))
      else
        let s := records.foldl (fun s r => upsertRecord X ns settings s r.1 r.2)
          ⟨svc, [], [], ∅, []⟩
        match forEach (flushIfFull X background) (s.svc.flushLogs s.touched) s.touched.keys with
        | (svc, .error e) => (svc, .error e)
        | (svc, .ok ()) =>
          let summary := aggregateReplication s.replications settings.requiredAcks
          let result : UpsertResult :=
            { upserted := s.upserted.length
              ids := s.upserted
              errors := s.errors
              replication := { summary with success := summary.success && s.errors.isEmpty }
              health := svc.replicationHealthMap ns settings s.touched }
          ({ svc with
              idempotency := match key with
                | some key => svc.idempotency.set key result
                | none => svc.idempotency }, .ok result)

/-! ## delete -/

/-- The local variables of `delete`. -/
structure DeleteState (ι : Type) where
  svc : IngestService ι
  deleted : Nat
  touched : PySet String
  replications : List ReplicationResult

/-- `delete`'s block for one id on one shard. -/
def deleteId (ns : String) (settings : Namespace) (shard : Shard) (env : Nat → DeliveryEnv)
    (s : DeleteState ι) (id : String × Nat) : DeleteState ι × Except Exc Unit :=
  let key := ctxKey ns shard.id
  match s.svc.shards.get? key with
  | none => (s, .ok ())
  | some ctx =>
    match ctx.applyDelete X id.1 with
    | (ctx, .error e) => ({ s with svc := s.svc.setCtx key ctx }, .error e)
    | (ctx, .ok ()) =>
      let (replicator, repl) :=
        s.svc.replicator.replicateDelete X s.svc.settings ns shard (deletePayload id.1)
          settings.requiredAcks
          (env id.2)
      let svc := ({ s.svc.setCtx key ctx with replicator := replicator } : IngestService ι)
      ({ svc := svc.recordReplicationStats ns shard repl
         deleted := s.deleted + 1
         touched := s.touched.add key
         replications := s.replications ++ [repl] }, .ok ())

/-- `delete`'s block for one shard. -/
def deleteOnShard (ns : String) (settings : Namespace) (ids : List String)
    (env : String → Nat → DeliveryEnv) (s : DeleteState ι) (shard : Shard) :
    DeleteState ι × Except Exc Unit :=
  match s.svc.getOrCreateCtx X ns shard with
  | .error e => (s, .error e)
  | .ok (svc, _) =>
    forEach (deleteId X ns settings shard (env shard.id)) { s with svc := svc } ids.zipIdx

/-- `delete` by ids. -/
def delete (svc : IngestService ι) (ns : String) (ids : List String)
    (env : String → Nat → DeliveryEnv) :
    IngestService ι × Except Exc DeleteResult :=
  match svc.settings.metadata.get? ns with
  | none => (svc, .error (.valueError "namespace not found"))
  | some settings =>
    match svc.router.writable ns svc.nodeId with
    | .error e => (svc, .error e)
    | .ok shards =>
      match forEach (deleteOnShard X ns settings ids env) ⟨svc, 0, ∅, []⟩ shards with
      | (s, .error e) => (s.svc, .error e)
      | (s, .ok ()) =>
        let svc := s.svc.flushLogs s.touched
        (svc, .ok
          { deleted := s.deleted
            replication := aggregateReplication s.replications settings.requiredAcks
            health := svc.replicationHealthMap ns settings s.touched })

/-! ## fetch -/

/-- `fetch`'s loop body. -/
def fetchOne (ns : String) (s : IngestService ι × List Payload) (id : String) :
    (IngestService ι × List Payload) × Except Exc Unit :=
  match s.1.router.route X ns id with
  | .error e => (s, .error e)
  | .ok shard =>
    match s.1.getOrCreateCtx X ns shard with
    | .error e => (s, .error e)
    | .ok (svc, ctx) =>
      match ctx.fetch X id with
      | .error e => ((svc, s.2), .error e)
      | .ok payload => ((svc, s.2 ++ payload.toList), .ok ())

/-- `fetch`. -/
def fetch (svc : IngestService ι) (ns : String) (ids : List String) :
    IngestService ι × Except Exc (List Payload) :=
  match forEach (fetchOne X ns) (svc, []) ids with
  | ((svc, _), .error e) => (svc, .error e)
  | ((svc, out), .ok ()) => (svc, .ok out)

end IngestService

end Vsector.Ingest
