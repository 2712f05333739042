import Vsector.Impl.Cluster.Membership

/-!
# Shard lifecycle

`Shard.transition` (`sharding/shard.py`) and `ShardLifecycleManager`
(`sharding/lifecycle.py`). The manager changes the `Shard` it is given, which
is the store's own object or another one (`ShardArg`), and the store takes
it over.
-/

namespace Vsector.Sharding

open Framework Cluster

/-- `TRANSITIONS`. -/
def ShardState.next : ShardState → List ShardState
  | creating => [active, offline]
  | active => [draining, offline]
  | draining => [active, offline]
  | offline => []
  | splitting => [retired, active]
  | retired => []

/-- `InvalidLifecycleTransitionError`. -/
def invalidTransition (shard : Shard) (target : String) : Exc :=
  .other "InvalidLifecycleTransitionError"
    s!"invalid lifecycle transition: {shard.ns}:{shard.id} cannot move from {shard.state.value} to {target}"

/-- `transition`. -/
def Shard.transition (shard : Shard) (dest : ShardState) : Except Exc Shard :=
  if dest ∈ shard.state.next then .ok { shard with state := dest, version := shard.version + 1 }
  else .error (invalidTransition shard dest.value)

/-- A `Shard` that a caller has. -/
inductive ShardArg where
  /-- The object the store holds. -/
  | stored (id : String)
  | other (shard : Shard)

namespace ShardArg

/-- The object; `none` where the store has none. -/
def shard (e : InMemoryEtcd) : ShardArg → Option Shard
  | stored id => e.get id
  | other shard => some shard

/-- A change of the object. -/
def write (e : InMemoryEtcd) (shard : Shard) : ShardArg → InMemoryEtcd
  | stored _ => e.setShard shard
  | other _ => e

end ShardArg

/-- `membership` is whether owners must be known members of the cluster. -/
structure ShardLifecycleManager where
  membership : Bool

namespace ShardLifecycleManager

variable (lm : ShardLifecycleManager)

/-- What the manager raises where it is given no shard. -/
def noShard : Exc := .other "AttributeError" "'NoneType' object has no attribute 'state'"

/-- `validate_node`, where there is a membership. -/
def validateMember (e : InMemoryEtcd) (node : String) : Except Exc Unit :=
  if lm.membership then ClusterMembershipManager.validateNode e node else .ok ()

def create (e : InMemoryEtcd) (arg : ShardArg) (owner : Option String)
    (replicas : Option (List String)) :
    InMemoryEtcd × Except Exc Shard :=
  match arg.shard e with
  | none => (e, .error noShard)
  | some shard =>
    let shard :=
      { shard with nodeId := owner.getD shard.nodeId, replicas := replicas.getD shard.replicas }
    let e := arg.write e shard
    match shard.validateOwnership with
    | .error exc => (e, .error exc)
    | .ok () =>
      match lm.validateMember e shard.nodeId with
      | .error exc => (e, .error exc)
      | .ok () =>
        let shard := { shard with state := .creating }
        (e.put shard, .ok shard)

def transition (e : InMemoryEtcd) (arg : ShardArg) (dest : ShardState) :
    InMemoryEtcd × Except Exc Shard :=
  match arg.shard e with
  | none => (e, .error noShard)
  | some shard =>
    match shard.transition dest with
    | .error exc => (e, .error exc)
    | .ok shard => (e.put shard, .ok shard)

def activate (e : InMemoryEtcd) (arg : ShardArg) : InMemoryEtcd × Except Exc Shard :=
  transition e arg .active
def beginDrain (e : InMemoryEtcd) (arg : ShardArg) : InMemoryEtcd × Except Exc Shard :=
  transition e arg .draining
def retire (e : InMemoryEtcd) (arg : ShardArg) : InMemoryEtcd × Except Exc Shard :=
  transition e arg .offline

def changeOwner (e : InMemoryEtcd) (arg : ShardArg) (newOwner : String)
    (replicas : Option (List String)) :
    InMemoryEtcd × Except Exc Shard :=
  match arg.shard e with
  | none => (e, .error noShard)
  | some shard =>
    if shard.state ≠ .draining then
      (e, .error (invalidTransition shard
        "ownership change (owner reassignment requires state=DRAINING)"))
    else if newOwner = "" then (e, .error (.noPrimaryOwner shard.ns shard.id))
    else
      match lm.validateMember e newOwner with
      | .error exc => (e, .error exc)
      | .ok () =>
        let newReplicas := replicas.getD shard.replicas
        if newOwner ∈ newReplicas then
          (e, .error (.ownershipConflict shard.ns shard.id
            s!"primary owner {pyRepr newOwner} cannot be a replica of the same shard"))
        else
          let shard :=
            { shard with nodeId := newOwner, replicas := newReplicas, version := shard.version + 1 }
          (e.put shard, .ok shard)

end ShardLifecycleManager

/-- A call of the manager. -/
inductive LifecycleOp where
  | create (arg : ShardArg) (owner : Option String) (replicas : Option (List String))
  | transition (arg : ShardArg) (dest : ShardState)
  | activate (arg : ShardArg)
  | beginDrain (arg : ShardArg)
  | retire (arg : ShardArg)
  | changeOwner (arg : ShardArg) (newOwner : String) (replicas : Option (List String))

def LifecycleOp.arg : LifecycleOp → ShardArg
  | create arg _ _ | transition arg _ | activate arg | beginDrain arg | retire arg
  | changeOwner arg _ _ => arg

/-- The store after a call, whether or not it raises. -/
def ShardLifecycleManager.perform (lm : ShardLifecycleManager) (e : InMemoryEtcd) :
    LifecycleOp → InMemoryEtcd
  | .create arg owner replicas => (lm.create e arg owner replicas).1
  | .transition arg dest => (transition e arg dest).1
  | .activate arg => (activate e arg).1
  | .beginDrain arg => (beginDrain e arg).1
  | .retire arg => (retire e arg).1
  | .changeOwner arg newOwner replicas => (lm.changeOwner e arg newOwner replicas).1

end Vsector.Sharding
