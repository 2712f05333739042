import Vsector.Impl.Cluster.Membership
import Vsector.Impl.Sharding.EtcdFile
import Vsector.Impl.Sharding.MetadataOps

/-!
# The local node at start-up

The transitions of `ClusterMembershipManager` and `bootstrap_local_node`
(`cluster/membership.py`). `transition` changes the store's own record, and
takes the change back where it raises.
-/

namespace Vsector.Cluster

open Sharding

/-- `TRANSITIONS`. -/
def NodeMembershipState.next : NodeMembershipState → List NodeMembershipState
  | joining => [active, removed]
  | active => [draining, removed]
  | draining => [active, removed]
  | removed => []

/-- `transition`. -/
def ClusterNode.transition (n : ClusterNode) (dest : NodeMembershipState) :
    Except Exc ClusterNode :=
  if dest ∈ n.state.next then .ok { n with state := dest, version := n.version + 1 }
  else
    .error (.other "InvalidMembershipTransitionError"
      s!"invalid membership transition: {pyRepr n.nodeId} cannot move from {n.state.value} to {dest.value}")

namespace ClusterMembershipManager

variable (m : ClusterMembershipManager)

def register (store : InMemoryEtcd) (nodeId : String) (clusterId : Option String) :
    InMemoryEtcd × Except Exc ClusterNode :=
  match store.getNode nodeId with
  | some _ =>
    (store, .error (.other "DuplicateNodeRegistrationError"
      s!"duplicate node registration: {pyRepr nodeId} is already a cluster member"))
  | none =>
    let cluster := match clusterId with
      | some id => if id = "" then m.clusterId else id
      | none => m.clusterId
    if cluster ≠ m.clusterId then
      (store, .error (.clusterIdMismatch "<new node>" m.clusterId cluster))
    else
      let node : ClusterNode := ⟨nodeId, m.clusterId, .joining, 1⟩
      (store.putNode node, .ok node)

/-- `_transition`. -/
def transition (store : InMemoryEtcd) (nodeId : String) (dest : NodeMembershipState) :
    InMemoryEtcd × Except Exc ClusterNode :=
  match store.getNode nodeId with
  | none => (store, .error (.unknownNode nodeId))
  | some node =>
    match m.validateClusterId store nodeId with
    | .error exc => (store, .error exc)
    | .ok () =>
      match node.transition dest with
      | .error exc => (store, .error exc)
      | .ok node => (store.putNode node, .ok node)

def activate (store : InMemoryEtcd) (nodeId : String) : InMemoryEtcd × Except Exc ClusterNode :=
  m.transition store nodeId .active

def beginDrain (store : InMemoryEtcd) (nodeId : String) : InMemoryEtcd × Except Exc ClusterNode :=
  m.transition store nodeId .draining

def remove (store : InMemoryEtcd) (nodeId : String) : InMemoryEtcd × Except Exc ClusterNode :=
  m.transition store nodeId .removed

/-- `bootstrap_local_node`, behind the registration. -/
def activateJoining (store : InMemoryEtcd) (node : ClusterNode) (nodeId : String) :
    InMemoryEtcd × Except Exc ClusterNode :=
  if node.state = .joining then m.activate store nodeId else (store, .ok node)

/-- `bootstrap_local_node`. -/
def bootstrapLocalNode (store : InMemoryEtcd) (nodeId : String) :
    InMemoryEtcd × Except Exc ClusterNode :=
  match store.getNode nodeId with
  | some node => m.activateJoining store node nodeId
  | none =>
    match m.register store nodeId none with
    | (store, .error exc) => (store, .error exc)
    | (store, .ok node) => m.activateJoining store node nodeId

end ClusterMembershipManager

end Vsector.Cluster
