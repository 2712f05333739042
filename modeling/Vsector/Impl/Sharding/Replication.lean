import Vsector.Impl.Ingest.ShardContext

/-!
# Replication

`sharding/replication.py`: what a replica does with an operation, and the
transport that delivers an operation to the replicas of a shard. The
endpoints that the ingest service makes for the transport are kept with it
(`getOrCreateEndpoint`).
-/

namespace Vsector.Sharding

open Framework Models Storage Index Ingest

variable {ι : Type} [BaseIndex ι] (X : Externals)

/-! ## Applying operations -/

/-- The record of a replicated upsert. -/
def decodeUpsert : Text → Except Exc VectorRecord
  | none => .error (.other "JSONDecodeError" "")
  | some raw =>
    if raw.isObj ∧ (raw.get? "__op").any (Json.isStr "upsert") then
      match raw.get? "record" with
      | none => .error (.keyError "record")
      | some record =>
        match X.modelValidate record with
        | some rec => .ok rec
        | none => .error .validationError
    else
      match X.modelValidateJson raw with
      | some rec => .ok rec
      | none => .error .validationError

/-- `apply_replicated_upsert`: a record whose checksum and version are those of the stored one is
not applied. -/
def applyReplicatedUpsert (ctx : ShardContext ι) (payload : Text) (env : FlushEnv) :
    ShardContext ι × Except Exc Unit :=
  match decodeUpsert X payload with
  | .error e => (ctx, .error e)
  | .ok rec =>
    match ctx.segments.get X rec.id.text with
    | .error e => (ctx, .error e)
    | .ok existing =>
      if existing.any fun existing => existing.checksum = rec.checksum ∧
        existing.version = rec.version then
        (ctx, .ok ())
      else
        match ctx.applyUpsert X rec (some (X.modelDumpJson rec)) env none with
        | (ctx, .ok ()) => (ctx.flushWal, .ok ())
        | (ctx, .error e) => (ctx, .error e)

/-- `str(raw["id"])` of a replicated delete. -/
def decodeDelete : Text → Except Exc String
  | none => .error (.other "JSONDecodeError" "")
  | some raw =>
    if raw.isObj then
      match raw.get? "id" with
      | none => .error (.keyError "id")
      | some (.str id) => .ok id
      | some value => .ok (X.jsonStr value)
    else .error (.typeError "indices must be integers or slices, not str")

/-- `apply_replicated_delete`. -/
def applyReplicatedDelete (ctx : ShardContext ι) (payload : Text) :
    ShardContext ι × Except Exc Unit :=
  match decodeDelete X payload with
  | .error e => (ctx, .error e)
  | .ok id =>
    (({ ctx with
        tombstones := ctx.tombstones.add id
        wal := ctx.wal.append (deletePayload id)
        segments := { ctx.segments with memtable := ctx.segments.memtable.delete id }
        index := BaseIndex.delete ctx.index id
        lifecycle := ctx.lifecycle.notifyDelete } : ShardContext ι).flushWal, .ok ())

structure ReplicaEndpoint (ι : Type) where
  nodeId : String
  ctx : ShardContext ι

namespace ReplicaEndpoint

def contains (e : ReplicaEndpoint ι) (id : String) : Except Exc Bool :=
  (e.ctx.segments.get X id).map fun rec => rec.isSome && !e.ctx.tombstones.has id

def record (e : ReplicaEndpoint ι) (id : String) : Except Exc (Option VectorRecord) :=
  e.ctx.segments.get X id

end ReplicaEndpoint

/-! ## The transport -/

structure ReplicationResult where
  primary : String
  attemptedReplicas : List String
  acknowledgedReplicas : List String
  failedReplicas : List String
  failures : Dict String String
  requiredAcks : Nat
  success : Bool
  degraded : Bool

structure ReplicaHealth where
  replicaId : String
  healthy : Bool
  available : Bool
  lastError : Option String
  lastSuccess : Option ℚ
  lastFailure : Option ℚ
  successes : Nat
  failures : Nat

structure ReplicationHealth where
  primary : String
  configuredReplicas : Nat
  healthyReplicas : Nat
  availableReplicas : Nat
  requiredAcks : Nat
  ready : Bool
  degraded : Bool
  replicas : List ReplicaHealth
  lastSuccess : Option ℚ
  lastFailure : Option String

/-- `endpoints` are those made so far, and `roots` the replica directories the process started
with. -/
structure InProcessReplicaTransport (ι : Type) where
  faults : PySet String
  health : Dict (String × String × String) ReplicaHealth
  shardLastSuccess : Dict (String × String) ℚ
  shardLastFailure : Dict (String × String) String
  endpoints : Dict String (ReplicaEndpoint ι)
  roots : Dict String Root

/-- What a delivery meets: the clock, and what a memtable flush on each node meets. -/
structure DeliveryEnv where
  time : ℚ
  flush : String → FlushEnv

/-- What the endpoints are made with: the namespaces of the metadata store, and the threshold of
their memtables. -/
structure Settings where
  metadata : Dict String Namespace
  memtableThreshold : Nat

/-- `" ".join(msg.split())`. -/
def joinWords (msg : String) : String :=
  " ".intercalate (((msg.toList.splitOnP Char.isWhitespace).filter (· ≠ [])).map String.ofList)

/-- `_stable_error`. -/
def stableError (e : Exc) : String :=
  let msg := joinWords (X.maskReprs e.message)
  if msg ≠ "" then s!"{e.name}: {msg}" else e.name

namespace InProcessReplicaTransport

/-- `InProcessReplicaTransport(…)` in a process that finds the replica directories `roots`. -/
def init (roots : Dict String Root) : InProcessReplicaTransport ι := ⟨∅, ∅, ∅, ∅, ∅, roots⟩

def failNode (t : InProcessReplicaTransport ι) (node : String) : InProcessReplicaTransport ι :=
  { t with faults := t.faults.add node }

def healNode (t : InProcessReplicaTransport ι) (node : String) : InProcessReplicaTransport ι :=
  { t with faults := t.faults.discard node }

def isFaulted (t : InProcessReplicaTransport ι) (node : String) : Bool := t.faults.has node

def endpointKey (ns shard node : String) : String := s!"{ns}:{shard}:{node}"

/-- `_get_or_create_replica_endpoint` of the ingest service. -/
def getOrCreateEndpoint (set : Settings) (t : InProcessReplicaTransport ι) (ns : String)
    (shard : Shard) (node : String) :
    Except Exc (InProcessReplicaTransport ι × ReplicaEndpoint ι) :=
  let key := endpointKey ns shard.id node
  match t.endpoints.get? key with
  | some endpoint => .ok (t, endpoint)
  | none =>
    match set.metadata.get? ns with
    | none => .error (.valueError s!"namespace {pyRepr ns} not found")
    | some settings =>
      let replicaShard : Shard :=
        { id := s!"{shard.id}#replica-{node}", ns := ns, nodeId := node, state := .active,
          vectorCount := 0, maxVectors := 50000000000, replicas := [], version := 1 }
      match ShardContext.init X replicaShard settings set.memtableThreshold
          ((t.roots.get? replicaShard.id).getD ∅) with
      | .error e => .error e
      | .ok ctx =>
        let endpoint := ⟨node, ctx⟩
        .ok ({ t with endpoints := t.endpoints.set key endpoint }, endpoint)

/-- `_record_node`; `error` is that of a failed delivery. -/
def recordNode (t : InProcessReplicaTransport ι) (now : ℚ) (ns shard node : String)
    (error : Option String) :
    InProcessReplicaTransport ι :=
  let key := (ns, shard, node)
  let known := (t.health.get? key).getD ⟨node, true, !t.isFaulted node, none, none, none, 0, 0⟩
  let observed : ReplicaHealth :=
    match error with
    | none =>
      { known with
        healthy := true, available := true, lastError := none, lastSuccess := some now
        successes := known.successes + 1 }
    | some error =>
      { known with
        healthy := false, available := !t.isFaulted node, lastError := some error,
        lastFailure := some now
        failures := known.failures + 1 }
  { t with health := t.health.set key observed }

/-- `replication_health`. -/
def replicationHealth (t : InProcessReplicaTransport ι) (ns : String) (shard : Shard)
    (requiredAcks : Nat) (primaryAvailable : Bool) : ReplicationHealth :=
  let replicas := shard.replicas.map fun node =>
    let known := (t.health.get? (ns, shard.id, node)).getD
      ⟨node, true, true, none, none, none, 0, 0⟩
    { known with available := !t.isFaulted node }
  let healthy := replicas.countP ReplicaHealth.healthy
  { primary := if shard.nodeId ≠ "" then shard.nodeId else shard.id
    configuredReplicas := replicas.length
    healthyReplicas := healthy
    availableReplicas := replicas.countP ReplicaHealth.available
    requiredAcks := requiredAcks
    ready := primaryAvailable && requiredAcks ≤ 1 + healthy
    degraded := replicas.any fun r => !r.healthy || !r.available
    replicas := replicas
    lastSuccess := t.shardLastSuccess.get? (ns, shard.id)
    lastFailure := t.shardLastFailure.get? (ns, shard.id) }

/-- The operation on one replica. -/
def deliverTo (set : Settings) (t : InProcessReplicaTransport ι) (ns : String) (shard : Shard)
    (payload : Text) (upsert : Bool) (env : DeliveryEnv) (node : String) :
    InProcessReplicaTransport ι × Except Exc Unit :=
  if t.isFaulted node then (t, .error (.replicaUnavailable node))
  else
    match t.getOrCreateEndpoint X set ns shard node with
    | .error e => (t, .error e)
    | .ok (t, endpoint) =>
      let (ctx, r) :=
        if upsert then applyReplicatedUpsert X endpoint.ctx payload (env.flush node)
        else applyReplicatedDelete X endpoint.ctx payload
      ({ t with endpoints := t.endpoints.set (endpointKey ns shard.id node) { endpoint with
        ctx := ctx } }, r)

/-- `_deliver`'s loop body. -/
def deliverNode (set : Settings) (ns : String) (shard : Shard) (payload : Text) (upsert : Bool)
    (env : DeliveryEnv) (s : InProcessReplicaTransport ι × ReplicationResult) (node : String) :
    InProcessReplicaTransport ι × ReplicationResult :=
  let (t, result) := s
  let result := { result with attemptedReplicas := result.attemptedReplicas ++ [node] }
  match t.deliverTo X set ns shard payload upsert env node with
  | (t, .ok ()) =>
    (t.recordNode env.time ns shard.id node none,
      { result with acknowledgedReplicas := result.acknowledgedReplicas ++ [node] })
  | (t, .error e) =>
    let err := stableError X e
    (t.recordNode env.time ns shard.id node (some err),
      { result with
        failedReplicas := result.failedReplicas ++ [node]
        failures := result.failures.set node err })

/-- `_deliver`. -/
def deliver (set : Settings) (t : InProcessReplicaTransport ι) (ns : String) (shard : Shard)
    (payload : Text) (requiredAcks : Nat) (upsert : Bool) (env : DeliveryEnv) :
    InProcessReplicaTransport ι × ReplicationResult :=
  let primary := if shard.nodeId ≠ "" then shard.nodeId else shard.id
  let (t, result) :=
    shard.replicas.foldl (deliverNode X set ns shard payload upsert env)
      (t, ⟨primary, [], [], [], ∅, requiredAcks, true, false⟩)
  let result := { result with
    success := requiredAcks ≤ 1 + result.acknowledgedReplicas.length
    degraded := !result.failedReplicas.isEmpty }
  let key := (ns, shard.id)
  ({ t with
      shardLastSuccess :=
        if result.acknowledgedReplicas.isEmpty then t.shardLastSuccess
          else t.shardLastSuccess.set key env.time
      shardLastFailure :=
        if result.failures.entries.isEmpty then t.shardLastFailure
        else t.shardLastFailure.set key
          (",".intercalate (result.failures.entries.map fun (n, e) => s!"{n}: {e}")) }, result)

def replicateUpsert (set : Settings) (t : InProcessReplicaTransport ι) (ns : String) (shard : Shard)
    (payload : Text) (requiredAcks : Nat) (env : DeliveryEnv) :
    InProcessReplicaTransport ι × ReplicationResult :=
  t.deliver X set ns shard payload requiredAcks true env

def replicateDelete (set : Settings) (t : InProcessReplicaTransport ι) (ns : String) (shard : Shard)
    (payload : Text) (requiredAcks : Nat) (env : DeliveryEnv) :
    InProcessReplicaTransport ι × ReplicationResult :=
  t.deliver X set ns shard payload requiredAcks false env

end InProcessReplicaTransport

/-- What `aggregate_replication` returns. -/
structure ReplicationSummary where
  success : Bool
  degraded : Bool
  attempted : Nat
  acknowledged : Nat
  requiredAcks : Nat
  failedReplicas : List String

/-- `sorted({r for res in results for r in f(res)})`. -/
def sortedUnion (f : ReplicationResult → List String) (results : List ReplicationResult) :
    List String :=
  (Dict.keys (.ofList (results.flatMap f) : PySet String)).insertionSort (· ≤ ·)

/-- `aggregate_replication`. -/
def aggregateReplication (results : List ReplicationResult) (requiredAcks : Nat) :
    ReplicationSummary where
  success := !results.isEmpty && results.all ReplicationResult.success
  degraded := results.any fun r => r.degraded || !r.success
  attempted := (sortedUnion ReplicationResult.attemptedReplicas results).length
  acknowledged := (sortedUnion ReplicationResult.acknowledgedReplicas results).length
  requiredAcks := requiredAcks
  failedReplicas := sortedUnion ReplicationResult.failedReplicas results

end Vsector.Sharding
