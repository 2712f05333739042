import Vsector.Impl.Sharding.Etcd

/-!
# Cluster membership

The checks of `ClusterMembershipManager` (`cluster/membership.py`). A manager
is its cluster id; the nodes are in the store.
-/

namespace Vsector.Cluster

open Sharding

structure ClusterMembershipManager where
  clusterId : String

namespace ClusterMembershipManager

/-- `validate_node`. -/
def validateNode (store : InMemoryEtcd) (node : String) : Except Exc Unit :=
  match store.getNode node with
  | none => .error (.unknownNode node)
  | some n => if n.state = .removed then .error (.removedNode node) else .ok ()

/-- `validate_replicas`. -/
def validateReplicas (store : InMemoryEtcd) (replicas : List String) : Except Exc Unit :=
  replicas.forM (validateNode store)

/-- `validate_cluster_id`. -/
def validateClusterId (m : ClusterMembershipManager) (store : InMemoryEtcd) (node : String) :
    Except Exc Unit :=
  match store.getNode node with
  | none => .ok ()
  | some n =>
    if n.clusterId ≠ m.clusterId then .error (.clusterIdMismatch node m.clusterId n.clusterId)
      else .ok ()

end ClusterMembershipManager

end Vsector.Cluster
