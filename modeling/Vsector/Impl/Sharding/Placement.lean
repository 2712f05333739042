import Vsector.Impl.Sharding.EtcdFile
import Vsector.Impl.Sharding.Router

/-!
# Routing decisions

`RoutingDecision` (`sharding/placement.py`) and the decisions of
`ShardRouter` (`sharding/router.py`): which shard a record belongs to, who
owns it, and whether this node may serve it. A decision changes nothing.
-/

namespace Vsector.Sharding

open Models Cluster

/-- `localNode` is the source's `LOCAL`. -/
inductive RouteType where
  | localNode
  | remote
  | unavailable
deriving DecidableEq

structure RoutingDecision where
  ns : String
  shardId : String
  shardState : String
  ownerNodeId : Option String
  localNodeId : Option String
  target : Option String
  routeType : RouteType
  ownerMembershipState : Option String
  reason : Option String
deriving DecidableEq

/-- `mode` of `_decision_for`. -/
inductive DecisionMode where
  | any
  | read
  | write

/-- `PlacementError`. -/
def placementError (ns reason : String) : Exc :=
  .other "PlacementError" s!"placement error: namespace {pyRepr ns}: {reason}"

namespace ShardRouter

variable (X : Externals)

/-- `_select_or_raise`. -/
def selectOrRaise (r : ShardRouter) (ns recordId : String) : Except Exc Shard :=
  match r.select X ns recordId with
  | .error (.keyError msg) => .error (placementError ns s!"\"{msg}\"")
  | result => result

/-- The reason for which the shard's state does not allow the request. -/
def stateReason (shard : Shard) : DecisionMode → Option String
  | .any => none
  | .read =>
    if shard.state.isReadable then none
    else some s!"shard state={shard.state.value} is not readable (requires ACTIVE/DRAINING)"
  | .write =>
    if shard.state = .active then none
    else
      some (s!"shard state={shard.state.value} is not writable (requires ACTIVE); " ++
        "DRAINING/OFFLINE/CREATING never become writable silently")

/-- The owner's membership state, and the reason for which it may not be asked. -/
def ownerReason (r : ShardRouter) (owner : String) : Except Exc (Option String × Option String) :=
  match r.membership with
  | none => .ok (none, none)
  | some _ =>
    match ClusterMembershipManager.validateNode r.etcd owner with
    | .ok () => .ok ((r.etcd.getNode owner).map fun n => n.state.value, none)
    | .error (.unknownNode _) =>
      .ok (some "unknown", some s!"primary owner {pyRepr owner} is not a known cluster member")
    | .error (.removedNode _) =>
      .ok (some "REMOVED", some (s!"primary owner {pyRepr owner} is REMOVED from the cluster; " ++
        "ownership is never transferred automatically"))
    | .error exc => .error exc

/-- `_decision_for`. -/
def decisionFor (r : ShardRouter) (ns : String) (shard : Shard) (localNodeId : Option String)
    (mode : DecisionMode) :
    Except Exc RoutingDecision :=
  let owner := if shard.nodeId = "" then none else some shard.nodeId
  let checked : Except Exc (Option String × Option String) :=
    match stateReason shard mode, owner with
    | some reason, _ => .ok (none, some reason)
    | none, none => .ok (none, some "shard has no primary owner")
    | none, some owner => r.ownerReason owner
  checked.map fun (ownerState, reason) =>
    { ns := ns
      shardId := shard.id
      shardState := shard.state.value
      ownerNodeId := owner
      localNodeId := localNodeId
      target := owner
      routeType :=
        if reason.isSome then .unavailable
        else if localNodeId.isSome ∧ owner = localNodeId then .localNode
        else .remote
      ownerMembershipState := ownerState
      reason := reason }

/-- The decision on the shard that a record is selected for. -/
def decide (r : ShardRouter) (ns recordId : String) (localNodeId : Option String)
    (mode : DecisionMode) :
    Except Exc RoutingDecision :=
  (r.selectOrRaise X ns recordId).bind fun shard => r.decisionFor ns shard localNodeId mode

def place (r : ShardRouter) (ns recordId : String) (localNodeId : Option String) :
    Except Exc RoutingDecision :=
  r.decide X ns recordId localNodeId .any

/-- `route_read_decision`. -/
def routeReadDecision (r : ShardRouter) (ns recordId : String) (localNodeId : Option String) :
    Except Exc RoutingDecision :=
  r.decide X ns recordId localNodeId .read

/-- `route_write_decision`. -/
def routeWriteDecision (r : ShardRouter) (ns recordId : String) (localNodeId : Option String) :
    Except Exc RoutingDecision :=
  r.decide X ns recordId localNodeId .write

/-- `query_route`. -/
def queryRoute (r : ShardRouter) (ns : String) (localNodeId : Option String) :
    Except Exc (List RoutingDecision) :=
  (r.routeForQuery ns).mapM fun shard => r.decisionFor ns shard localNodeId .read

end ShardRouter

end Vsector.Sharding
