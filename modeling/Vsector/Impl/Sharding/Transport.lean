import Vsector.Impl.Sharding.Replication

/-!
# The transport over any endpoints

`InProcessReplicaTransport` is given its endpoints. Here they are anything
that an operation on a node may do (`Endpoints`), with a state of their own,
and the transport is what it keeps itself: the faults, the records of the
replicas' health and the last outcomes of each shard.
-/

namespace Vsector.Sharding

open Framework Models

/-- What `endpoint_provider` and the call of the endpoint do for one operation, on each node. -/
abbrev Endpoints (σ : Type) : Type := σ → String → σ × Except Exc Unit

structure Transport where
  faults : PySet String
  health : Dict (String × String × String) ReplicaHealth
  shardLastSuccess : Dict (String × String) ℚ
  shardLastFailure : Dict (String × String) String

namespace Transport

variable (X : Externals) {σ : Type}

def init : Transport := ⟨∅, ∅, ∅, ∅⟩

def failNode (t : Transport) (node : String) : Transport := { t with faults := t.faults.add node }
def healNode (t : Transport) (node : String) : Transport :=
  { t with faults := t.faults.discard node }
def isFaulted (t : Transport) (node : String) : Bool := t.faults.has node

/-- `_record_node`; `error` is that of a failed delivery. -/
def recordNode (t : Transport) (now : ℚ) (ns shardId node : String) (error : Option String) :
    Transport :=
  let key := (ns, shardId, node)
  let known := (t.health.get? key).getD ⟨node, true, !t.isFaulted node, none, none, none, 0, 0⟩
  let observed : ReplicaHealth :=
    match error with
    | none =>
      { known with
        healthy := true, available := true, lastError := none, lastSuccess := some now
        successes := known.successes + 1 }
    | some error =>
      { known with
        healthy := false, available := !t.isFaulted node, lastError := some error,
        lastFailure := some now
        failures := known.failures + 1 }
  { t with health := t.health.set key observed }

/-- What `replication_health` reports of one replica. -/
def replicaHealth (t : Transport) (ns shardId node : String) : ReplicaHealth :=
  { (t.health.get? (ns, shardId, node)).getD ⟨node, true, true, none, none, none, 0, 0⟩ with
    available := !t.isFaulted node }

/-- `replication_health`. -/
def replicationHealth (t : Transport) (ns : String) (shard : Shard) (requiredAcks : Nat)
    (primaryAvailable : Bool) :
    ReplicationHealth :=
  let replicas := shard.replicas.map (t.replicaHealth ns shard.id)
  let healthy := replicas.countP ReplicaHealth.healthy
  { primary := if shard.nodeId ≠ "" then shard.nodeId else shard.id
    configuredReplicas := replicas.length
    healthyReplicas := healthy
    availableReplicas := replicas.countP ReplicaHealth.available
    requiredAcks := requiredAcks
    ready := primaryAvailable && requiredAcks ≤ 1 + healthy
    degraded := replicas.any fun r => !r.healthy || !r.available
    replicas := replicas
    lastSuccess := t.shardLastSuccess.get? (ns, shard.id)
    lastFailure := t.shardLastFailure.get? (ns, shard.id) }

/-- The operation on one replica. -/
def deliverTo (t : Transport) (endpoints : Endpoints σ) (s : σ) (node : String) :
    σ × Except Exc Unit :=
  if t.isFaulted node then (s, .error (.replicaUnavailable node)) else endpoints s node

/-- The state of `_deliver`'s loop. -/
structure Delivery (σ : Type) where
  transport : Transport
  endpoints : σ
  result : ReplicationResult

/-- `_deliver`'s loop body. -/
def deliverNode (ns shardId : String) (now : ℚ) (endpoints : Endpoints σ) (d : Delivery σ)
    (node : String) : Delivery σ :=
  let result := { d.result with attemptedReplicas := d.result.attemptedReplicas ++ [node] }
  match d.transport.deliverTo endpoints d.endpoints node with
  | (s, .ok ()) =>
    { transport := d.transport.recordNode now ns shardId node none
      endpoints := s
      result := { result with acknowledgedReplicas := result.acknowledgedReplicas ++ [node] } }
  | (s, .error e) =>
    let err := stableError X e
    { transport := d.transport.recordNode now ns shardId node (some err)
      endpoints := s
      result := { result with
        failedReplicas := result.failedReplicas ++ [node]
        failures := result.failures.set node err } }

/-- `_deliver`; the operation is in what the endpoints do. -/
def deliver (t : Transport) (endpoints : Endpoints σ) (s : σ) (ns : String) (shard : Shard)
    (requiredAcks : Nat) (now : ℚ) : Delivery σ :=
  let primary := if shard.nodeId ≠ "" then shard.nodeId else shard.id
  let d := shard.replicas.foldl (deliverNode X ns shard.id now endpoints)
    ⟨t, s, ⟨primary, [], [], [], ∅, requiredAcks, true, false⟩⟩
  let result := { d.result with
    success := requiredAcks ≤ 1 + d.result.acknowledgedReplicas.length
    degraded := !d.result.failedReplicas.isEmpty }
  let key := (ns, shard.id)
  { transport := { d.transport with
      shardLastSuccess :=
        if result.acknowledgedReplicas.isEmpty then d.transport.shardLastSuccess
        else d.transport.shardLastSuccess.set key now
      shardLastFailure :=
        if result.failures.entries.isEmpty then d.transport.shardLastFailure
        else d.transport.shardLastFailure.set key
          (",".intercalate (result.failures.entries.map fun (n, e) => s!"{n}: {e}")) }
    endpoints := d.endpoints
    result := result }

end Transport

end Vsector.Sharding
