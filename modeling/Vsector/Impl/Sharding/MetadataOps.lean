import Vsector.Impl.Sharding.Etcd

/-!
# Mutations of the metadata store

The mutations of `InMemoryEtcd` (`sharding/etcd.py`), each as what it does to
the data in memory; `_persist` follows it.
-/

namespace Vsector.Sharding

open Framework Cluster

namespace EtcdData

def setNode (d : EtcdData) (node : ClusterNode) : EtcdData :=
  { d with nodes := d.nodes.set node.nodeId node }
def popNode (d : EtcdData) (id : String) : EtcdData := { d with nodes := d.nodes.pop id }

def popMigration (d : EtcdData) (id : String) : EtcdData :=
  { d with
    migrations := d.migrations.pop id
    migrations_keyed := fun a m h => by
      rw [Dict.get?_pop] at h
      split at h
      · cases h
      · exact d.migrations_keyed a m h }

end EtcdData

inductive MetadataOp where
  | put (shard : Shard)
  | delete (shardId : String)
  | putNode (node : ClusterNode)
  | deleteNode (nodeId : String)
  | putMigration (migration : ShardMigration)
  | deleteMigration (migrationId : String)

/-- What a mutation does under the lock. -/
def EtcdData.apply : MetadataOp → EtcdData → EtcdData
  | .put shard, d => d.setShard shard
  | .delete shardId, d => d.popShard shardId
  | .putNode node, d => d.setNode node
  | .deleteNode nodeId, d => d.popNode nodeId
  | .putMigration migration, d => d.setMigration migration
  | .deleteMigration migrationId, d => d.popMigration migrationId

namespace InMemoryEtcd

/-- A mutation, and `_persist`. -/
def mutate (e : InMemoryEtcd) (op : MetadataOp) : InMemoryEtcd :=
  { e with live := e.live.apply op }.persist

def putNode (e : InMemoryEtcd) (node : ClusterNode) : InMemoryEtcd := e.mutate (.putNode node)
def deleteNode (e : InMemoryEtcd) (nodeId : String) : InMemoryEtcd := e.mutate (.deleteNode nodeId)
def deleteMigration (e : InMemoryEtcd) (migrationId : String) : InMemoryEtcd :=
  e.mutate (.deleteMigration migrationId)

theorem put_eq_mutate (e : InMemoryEtcd) (shard : Shard) : e.put shard = e.mutate (.put shard) :=
  rfl
theorem delete_eq_mutate (e : InMemoryEtcd) (shardId : String) :
    e.delete shardId = e.mutate (.delete shardId) := rfl
theorem putMigration_eq_mutate (e : InMemoryEtcd) (m : ShardMigration) :
    e.putMigration m = e.mutate (.putMigration m) := rfl

end InMemoryEtcd

end Vsector.Sharding
