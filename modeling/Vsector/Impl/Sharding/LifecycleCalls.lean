import Vsector.Impl.Sharding.Lifecycle

/-!
# Lifecycle calls on a shard object

The calls of `ShardLifecycleManager` as they change the `Shard` they are
given, over a store whose `put` may raise: each leaves an object, and returns
or raises. `ShardLifecycleManager` (`Lifecycle.lean`) is the same over an
`InMemoryEtcd`, whose `put` returns.
-/

namespace Vsector.Sharding

open Framework Cluster

/-- A call on a shard. -/
inductive LifecycleCall where
  | create (owner : Option String) (replicas : Option (List String))
  | transition (dest : ShardState)
  | activate
  | beginDrain
  | retire
  | changeOwner (newOwner : String) (replicas : Option (List String))

namespace ShardLifecycleManager

/-- What becomes of the object, and how the call ends. -/
abbrev CallOutcome := Shard × Except Exc Unit

variable (lm : ShardLifecycleManager) (e : InMemoryEtcd) (put : Shard → Except Exc Unit)
  (shard : Shard)

/-- `create`. -/
def createOn (owner : Option String) (replicas : Option (List String)) : CallOutcome :=
  let shard :=
    { shard with nodeId := owner.getD shard.nodeId, replicas := replicas.getD shard.replicas }
  match shard.validateOwnership with
  | .error exc => (shard, .error exc)
  | .ok () =>
    match lm.validateMember e shard.nodeId with
    | .error exc => (shard, .error exc)
    | .ok () =>
      let shard := { shard with state := .creating }
      (shard, put shard)

/-- `transition`. -/
def transitionOn (dest : ShardState) : CallOutcome :=
  match shard.transition dest with
  | .error exc => (shard, .error exc)
  | .ok moved =>
    match put moved with
    | .ok () => (moved, .ok ())
    | .error exc => ({ moved with state := shard.state, version := shard.version }, .error exc)

/-- `change_owner`. -/
def changeOwnerOn (newOwner : String) (replicas : Option (List String)) : CallOutcome :=
  if shard.state ≠ .draining then
    (shard, .error (invalidTransition shard
      "ownership change (owner reassignment requires state=DRAINING)"))
  else if newOwner = "" then (shard, .error (.noPrimaryOwner shard.ns shard.id))
  else
    match lm.validateMember e newOwner with
    | .error exc => (shard, .error exc)
    | .ok () =>
      let newReplicas := replicas.getD shard.replicas
      if newOwner ∈ newReplicas then
        (shard, .error (.ownershipConflict shard.ns shard.id
          s!"primary owner {pyRepr newOwner} cannot be a replica of the same shard"))
      else
        let moved :=
          { shard with nodeId := newOwner, replicas := newReplicas, version := shard.version + 1 }
        match put moved with
        | .ok () => (moved, .ok ())
        -- the version is not restored
        | .error exc =>
          ({ moved with nodeId := shard.nodeId, replicas := shard.replicas }, .error exc)

def performOn : LifecycleCall → CallOutcome
  | .create owner replicas => lm.createOn e put shard owner replicas
  | .transition dest => transitionOn put shard dest
  | .activate => transitionOn put shard .active
  | .beginDrain => transitionOn put shard .draining
  | .retire => transitionOn put shard .offline
  | .changeOwner newOwner replicas => lm.changeOwnerOn e put shard newOwner replicas

end ShardLifecycleManager

/-- The call on the store's own shard or another one. -/
def LifecycleCall.on (arg : ShardArg) : LifecycleCall → LifecycleOp
  | create owner replicas => .create arg owner replicas
  | transition dest => .transition arg dest
  | activate => .activate arg
  | beginDrain => .beginDrain arg
  | retire => .retire arg
  | changeOwner newOwner replicas => .changeOwner arg newOwner replicas

end Vsector.Sharding
