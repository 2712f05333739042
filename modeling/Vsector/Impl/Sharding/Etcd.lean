import Vsector.Framework.Dict
import Vsector.Impl.Cluster.Node
import Vsector.Impl.Sharding.MigrationRecord
import Vsector.Impl.Sharding.Shard

/-!
# The metadata store

`InMemoryEtcd` of `sharding/etcd.py`. The store holds the objects it is
given, so a change of an object is a change of the live data (`setShard`,
`setMigration`); it reaches the file with the next `_persist`, which writes
all live data. Ids that begin with a reserved prefix are left out: reading
the file back returns what was written. A failing write of the file is only
logged by the code, and left out.
-/

namespace Vsector.Sharding

open Framework Cluster

/-- What the store keeps, by id. -/
structure EtcdData where
  shards : Dict String Shard
  nodes : Dict String ClusterNode
  migrations : Dict String ShardMigration
  shards_keyed : ∀ id s, shards.get? id = some s → s.id = id
  migrations_keyed : ∀ id m, migrations.get? id = some m → m.migrationId = id

namespace EtcdData

def empty : EtcdData := ⟨∅, ∅, ∅, fun _ _ h => (nomatch h), fun _ _ h => (nomatch h)⟩

instance : EmptyCollection EtcdData := ⟨empty⟩

def setShard (d : EtcdData) (shard : Shard) : EtcdData :=
  { d with
    shards := d.shards.set shard.id shard
    shards_keyed := fun id s h => by
      rw [Dict.get?_set] at h
      split at h
      · rename_i hid; cases h; exact hid.symm
      · exact d.shards_keyed id s h }

def setMigration (d : EtcdData) (migration : ShardMigration) : EtcdData :=
  { d with
    migrations := d.migrations.set migration.migrationId migration
    migrations_keyed := fun id m h => by
      rw [Dict.get?_set] at h
      split at h
      · rename_i hid; cases h; exact hid.symm
      · exact d.migrations_keyed id m h }

def popShard (d : EtcdData) (id : String) : EtcdData :=
  { d with
    shards := d.shards.pop id
    shards_keyed := fun a s h => by
      rw [Dict.get?_pop] at h
      split at h
      · cases h
      · exact d.shards_keyed a s h }

end EtcdData

/-- `file` is `none` where the store has no path. -/
structure InMemoryEtcd where
  live : EtcdData
  file : Option EtcdData

namespace InMemoryEtcd

/-- `InMemoryEtcd(path)` over the file's data. -/
def init (file : Option EtcdData) : InMemoryEtcd := ⟨file.getD ∅, file⟩

/-- `_persist`. -/
def persist (e : InMemoryEtcd) : InMemoryEtcd := { e with file := e.file.map fun _ => e.live }

/-- A change of a shard the store holds. -/
def setShard (e : InMemoryEtcd) (shard : Shard) : InMemoryEtcd :=
  { e with live := e.live.setShard shard }

/-- A change of a migration the store holds. -/
def setMigration (e : InMemoryEtcd) (m : ShardMigration) : InMemoryEtcd :=
  { e with live := e.live.setMigration m }

def put (e : InMemoryEtcd) (shard : Shard) : InMemoryEtcd := (e.setShard shard).persist
def get (e : InMemoryEtcd) (id : String) : Option Shard := e.live.shards.get? id
def delete (e : InMemoryEtcd) (id : String) : InMemoryEtcd :=
  { e with live := e.live.popShard id }.persist

def listByNamespace (e : InMemoryEtcd) (ns : String) : List Shard :=
  e.live.shards.values.filter fun s => s.ns = ns

def getNode (e : InMemoryEtcd) (id : String) : Option ClusterNode := e.live.nodes.get? id

def putMigration (e : InMemoryEtcd) (m : ShardMigration) : InMemoryEtcd :=
  (e.setMigration m).persist
def getMigration (e : InMemoryEtcd) (id : String) : Option ShardMigration :=
  e.live.migrations.get? id
def listMigrations (e : InMemoryEtcd) : List ShardMigration := e.live.migrations.values

end InMemoryEtcd

end Vsector.Sharding
