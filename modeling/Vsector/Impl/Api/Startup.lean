import Vsector.Impl.Api.Namespaces
import Vsector.Impl.Cluster.Bootstrap

/-!
# Start-up

What `api/rest.py` does with the metadata store as it is imported: the local
node is registered or restored, and namespaces without shards get theirs.
-/

namespace Vsector.Api

open Framework Sharding Cluster

/-- Over the names and the shard counts of the stored namespaces. -/
def startUp (cluster : ClusterMembershipManager) (nodeId : String)
    (namespaces : List (String × Nat)) (etcd : InMemoryEtcd) :
    InMemoryEtcd × Except Exc Unit :=
  match cluster.bootstrapLocalNode etcd nodeId with
  | (etcd, .error exc) => (etcd, .error exc)
  | (etcd, .ok _) =>
    forEach (fun etcd ns => ensureNamespaceShards ⟨true⟩ nodeId etcd ns.1 ns.2) etcd namespaces

end Vsector.Api
