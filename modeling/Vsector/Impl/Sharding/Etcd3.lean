import Vsector.Impl.Sharding.EtcdFile
import Vsector.Impl.Sharding.MetadataOps
import Vsector.Impl.Sharding.Rebalance

/-!
# The store over etcd

`Etcd3Store` of `sharding/etcd.py`: shards and nodes are kept in an etcd, each
as a JSON text under a key of its own, for all processes that are connected to
it. What it has in common with `InMemoryEtcd` is the calls of `StoreCall`; it
has none for migrations. What an etcd does with its keys is a parameter, as
far as it is more than a dictionary. A lost connection is left out.
-/

namespace Vsector.Sharding

open Framework Models Cluster

/-- The keys and values of an etcd. -/
abbrev EtcdKv := Dict String (List Char)

structure EtcdClient where
  /-- `get_prefix`: the values of the keys that start with the prefix. -/
  getPrefix : EtcdKv → String → List (List Char)

structure Etcd3Store where
  kv : EtcdKv

inductive StoreCall where
  | put (shard : Shard)
  | get (shardId : String)
  | listByNamespace (ns : String)
  | delete (shardId : String)
  | all
  | putNode (node : ClusterNode)
  | getNode (nodeId : String)
  | listNodes
  | deleteNode (nodeId : String)

/-- A shard with its `created_at`. -/
structure ShardObject where
  shard : Shard
  createdAt : ℚ
deriving DecidableEq

inductive StoreAnswer where
  | done
  | shard (shard : Option ShardObject)
  | shards (shards : List ShardObject)
  | node (node : Option ClusterNode)
  | nodes (nodes : List ClusterNode)
deriving DecidableEq

/-- An `InMemoryEtcd`, with `created_at` of each shard that it keeps. -/
structure InMemoryObjects where
  etcd : InMemoryEtcd
  createdAt : String → ℚ

namespace InMemoryObjects

def object (m : InMemoryObjects) (s : Shard) : ShardObject := ⟨s, m.createdAt s.id⟩

/-- `put`, of an object with that `created_at`. -/
def put (m : InMemoryObjects) (shard : Shard) (createdAt : ℚ) : InMemoryObjects :=
  ⟨m.etcd.put shard, Function.update m.createdAt shard.id createdAt⟩

/-- A call; `createdAt` is that of a shard which is put. -/
def call (m : InMemoryObjects) (createdAt : ℚ) : StoreCall → InMemoryObjects × StoreAnswer
  | .put shard => (m.put shard createdAt, .done)
  | .get shardId => (m, .shard ((m.etcd.get shardId).map m.object))
  | .listByNamespace ns => (m, .shards ((m.etcd.listByNamespace ns).map m.object))
  | .delete shardId => ({ m with etcd := m.etcd.delete shardId }, .done)
  | .all => (m, .shards (m.etcd.all.map m.object))
  | .putNode node => ({ m with etcd := m.etcd.putNode node }, .done)
  | .getNode nodeId => (m, .node (m.etcd.getNode nodeId))
  | .listNodes => (m, .nodes m.etcd.listNodes)
  | .deleteNode nodeId => ({ m with etcd := m.etcd.deleteNode nodeId }, .done)

end InMemoryObjects

namespace Etcd3Store

/-- The prefix of `_key`. -/
def shardsPrefix : String := "/vsector/shards/"

/-- The prefix of `_node_key`. -/
def nodesPrefix : String := "/vsector/cluster/nodes/"

/-- `_key`. -/
def key (shardId : String) : String := shardsPrefix ++ shardId

/-- `_node_key`. -/
def nodeKey (nodeId : String) : String := nodesPrefix ++ nodeId

variable (X : Externals) (C : EtcdClient)

/-- The text of a shard's value. -/
def shardText (shard : Shard) : List Char := Json.text X .default shard.toDict

/-- The text of a node's value. -/
def nodeText (node : ClusterNode) : List Char := Json.text X .default node.toDict

def put (e : Etcd3Store) (shard : Shard) : Etcd3Store :=
  ⟨e.kv.set (key shard.id) (shardText X shard)⟩

/-- `d.get("created_at", time.time())`, where the clock shows `now`. -/
def createdAtOf (now : ℚ) (v : Json) : Option ℚ :=
  match v.get? "created_at" with
  | none => some now
  | some (.float (.finite x)) => some x
  | some (.int n) => some n
  | some _ => none

/-- `_shard_from_dict`, with the creation time; `clock` is the time when a shard's text is read. -/
def objectFromDict (clock : String → ℚ) (v : Json) : Option ShardObject := do
  let shard ← shardFromDict v
  let createdAt ← createdAtOf (clock shard.id) v
  some ⟨shard, createdAt⟩

/-- What a value is read as by `get` and `get_node`; `none` where reading it raises. -/
def readValue {α : Type} (fromDict : Json → Option α) : Option (List Char) → Option (Option α)
  | none => some none
  | some val => if val = [] then some none else ((Json.loads X val).bind fromDict).map some

def get (clock : String → ℚ) (e : Etcd3Store) (shardId : String) : Option (Option ShardObject) :=
  readValue X (objectFromDict clock) (e.kv.get? (key shardId))

/-- `_list_dicts` and `_list_node_dicts`, with the reading of the documents. -/
def listRead {α : Type} (fromDict : Json → Option α) (keyPrefix : String) (e : Etcd3Store) :
    Option (List α) := do
  let dicts ← (C.getPrefix e.kv keyPrefix).mapM (Json.loads X)
  dicts.mapM fromDict

/-- `all`, without the creation times. -/
def all (e : Etcd3Store) : Option (List Shard) := listRead X C shardFromDict shardsPrefix e

/-- `list_by_namespace`, without the creation times, which no router looks at. -/
def listByNamespace (e : Etcd3Store) (ns : String) : Option (List Shard) :=
  (e.all X C).map fun shards => shards.filter fun s => s.ns = ns

/-- `all`. -/
def allObjects (clock : String → ℚ) (e : Etcd3Store) : Option (List ShardObject) :=
  listRead X C (objectFromDict clock) shardsPrefix e

/-- `list_by_namespace`. -/
def objectsByNamespace (clock : String → ℚ) (e : Etcd3Store) (ns : String) :
    Option (List ShardObject) :=
  (e.allObjects X C clock).map fun objects => objects.filter fun o => o.shard.ns = ns

def delete (e : Etcd3Store) (shardId : String) : Etcd3Store := ⟨e.kv.pop (key shardId)⟩

def putNode (e : Etcd3Store) (node : ClusterNode) : Etcd3Store :=
  ⟨e.kv.set (nodeKey node.nodeId) (nodeText X node)⟩

def getNode (e : Etcd3Store) (nodeId : String) : Option (Option ClusterNode) :=
  readValue X nodeFromDict (e.kv.get? (nodeKey nodeId))

def listNodes (e : Etcd3Store) : Option (List ClusterNode) :=
  listRead X C nodeFromDict nodesPrefix e

def deleteNode (e : Etcd3Store) (nodeId : String) : Etcd3Store := ⟨e.kv.pop (nodeKey nodeId)⟩

/-- What a call leaves. -/
def after (e : Etcd3Store) : StoreCall → Etcd3Store
  | .put shard => e.put X shard
  | .delete shardId => e.delete shardId
  | .putNode node => e.putNode X node
  | .deleteNode nodeId => e.deleteNode nodeId
  | _ => e

/-- What a call answers; `none` where it raises. -/
def answer (clock : String → ℚ) (e : Etcd3Store) : StoreCall → Option StoreAnswer
  | .get shardId => (e.get X clock shardId).map .shard
  | .listByNamespace ns => (e.objectsByNamespace X C clock ns).map .shards
  | .all => (e.allObjects X C clock).map .shards
  | .getNode nodeId => (e.getNode X nodeId).map .node
  | .listNodes => (e.listNodes X C).map .nodes
  | _ => some .done

end Etcd3Store

end Vsector.Sharding
