import Vsector.Impl.Errors

/-!
# Shards

`Shard` of `sharding/shard.py`, without its creation time: no text has it, and
nothing but the answers of a metadata store (`Etcd3`) gives it.
-/

namespace Vsector.Sharding

inductive ShardState where
  | creating
  | active
  | draining
  | offline
  | splitting
  | retired
deriving DecidableEq

/-- `state.value`. -/
def ShardState.value : ShardState → String
  | creating => "CREATING"
  | active => "ACTIVE"
  | draining => "DRAINING"
  | offline => "OFFLINE"
  | splitting => "SPLITTING"
  | retired => "RETIRED"

structure Shard where
  id : String
  ns : String
  nodeId : String
  state : ShardState
  vectorCount : Nat
  maxVectors : Nat
  replicas : List String
  version : Nat
deriving DecidableEq

namespace Shard

def shouldSplit (s : Shard) : Bool := s.maxVectors < s.vectorCount

/-- `require_owner`. -/
def requireOwner (s : Shard) : Except Exc String :=
  if s.nodeId = "" then .error (.noPrimaryOwner s.ns s.id) else .ok s.nodeId

/-- `validate_ownership()`. -/
def validateOwnership (s : Shard) : Except Exc Unit :=
  if s.nodeId = "" then .error (.noPrimaryOwner s.ns s.id)
  else if s.nodeId ∈ s.replicas then
    .error (.ownershipConflict s.ns s.id
      s!"primary owner {pyRepr s.nodeId} cannot be a replica of the same shard")
  else .ok ()

end Shard

end Vsector.Sharding
