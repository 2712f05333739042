import Vsector.Impl.Errors

/-!
# Cluster nodes

`ClusterNode` of `cluster/node.py`.
-/

namespace Vsector.Cluster

inductive NodeMembershipState where
  | joining
  | active
  | draining
  | removed
deriving DecidableEq

structure ClusterNode where
  nodeId : String
  clusterId : String
  state : NodeMembershipState
  version : Nat
deriving DecidableEq

end Vsector.Cluster
