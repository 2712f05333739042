import Vsector.Impl.Models.JsonLoads
import Vsector.Impl.Sharding.Etcd

/-!
# The metadata store's file

`_persist` and `_load` of `InMemoryEtcd` (`sharding/etcd.py`), down to the
text of the file, with the `to_dict` of shards, nodes and migrations. The
times of a migration, which its record leaves out, are given beside it.
Where a value of the file is of another type than the field it is for,
reading it counts as an exception; `_persist` writes no such value.
-/

namespace Vsector.Cluster

open Models Json

/-- `state.value`. -/
def NodeMembershipState.value : NodeMembershipState → String
  | joining => "JOINING"
  | active => "ACTIVE"
  | draining => "DRAINING"
  | removed => "REMOVED"

/-- `NodeMembershipState(value)`. -/
def NodeMembershipState.ofValue? (value : String) : Option NodeMembershipState :=
  [joining, active, draining, removed].find? fun state => state.value == value

def ClusterNode.toDict (n : ClusterNode) : Json :=
  obj [("node_id", str n.nodeId), ("cluster_id", str n.clusterId),
    ("membership_state", str n.state.value), ("version", int n.version)]

end Vsector.Cluster

namespace Vsector.Sharding

open Framework Models Json Cluster

/-- `_CLUSTER_KEY_PREFIX`. -/
def clusterKeyPrefix : String := "cluster::node::"

/-- `_MIGRATION_KEY_PREFIX`. -/
def migrationKeyPrefix : String := "migration::"

/-- `created_at` and `updated_at` of a migration. -/
abbrev Times := ℚ × ℚ

/-- `ShardState(value)`. -/
def ShardState.ofValue? (value : String) : Option ShardState :=
  [creating, active, draining, offline, splitting, retired].find? fun state => state.value == value

/-- `MigrationState(value)`. -/
def MigrationState.ofValue? (value : String) : Option MigrationState :=
  [pending, preparing, copying, verifying, committing, completed, failed,
    cancelled].find? fun state =>
    state.value == value

/-! ## Writing -/

def Shard.toDict (s : Shard) : Json :=
  obj [("id", str s.id), ("namespace", str s.ns), ("node_id", str s.nodeId),
    ("primary_owner", str s.nodeId),
    ("state", str s.state.value), ("vector_count", int s.vectorCount),
      ("max_vectors", int s.maxVectors),
    ("replicas", arr (s.replicas.map str)), ("version", int s.version)]

/-- A text or `None`. -/
def strOrNull : Option String → Json
  | some s => str s
  | none => null

def ShardMigration.toDict (m : ShardMigration) (times : Times) : Json :=
  obj [("migration_id", str m.migrationId), ("namespace", str m.ns), ("shard_id", str m.shardId),
    ("source_node_id", str m.sourceNodeId), ("target_node_id", str m.targetNodeId),
      ("state", str m.state.value),
    ("source_version", int m.sourceVersion), ("cluster_id", str m.clusterId),
      ("created_at", float (.finite times.1)),
    ("updated_at", float (.finite times.2)), ("error", strOrNull m.error),
      ("version", int m.version),
    ("source_digest", strOrNull m.sourceDigest), ("target_digest", strOrNull m.targetDigest),
    ("finalized", Json.bool m.finalized)]

variable (X : Externals)

/-- The document `_persist` writes; `times` is by the migration's id. -/
def EtcdData.persistDict (d : EtcdData) (times : String → Times) : Dict String Json :=
  let data := d.shards.entries.foldl (fun data p => data.set p.1 p.2.toDict) (∅ : Dict String Json)
  let data := d.nodes.values.foldl
    (fun data n => data.set (clusterKeyPrefix ++ n.nodeId) n.toDict) data
  d.migrations.values.foldl
    (fun data m => data.set (migrationKeyPrefix ++ m.migrationId)
      (m.toDict (times m.migrationId))) data

/-- The text `_persist` writes. -/
def EtcdData.persistText (d : EtcdData) (times : String → Times) : List Char :=
  pretty X 0 (obj (d.persistDict times).entries)

/-! ## Reading -/

/-- A text of a document, by default `default`. -/
def getStr (default : String) (key : String) (v : Json) : Option String :=
  match v.get? key with
  | none => some default
  | some (str s) => some s
  | some _ => none

def getNat (default : Nat) (key : String) (v : Json) : Option Nat :=
  match v.get? key with
  | none => some default
  | some (int (.ofNat n)) => some n
  | some _ => none

def getBool (default : Bool) (key : String) (v : Json) : Option Bool :=
  match v.get? key with
  | none => some default
  | some (Json.bool b) => some b
  | some _ => none

def getStrOrNull (key : String) (v : Json) : Option (Option String) :=
  match v.get? key with
  | none | some null => some none
  | some (str s) => some (some s)
  | some _ => none

/-- `float(d.get(key, 0.0))`. -/
def getTime (key : String) (v : Json) : Option ℚ :=
  match X.floatOf ((v.get? key).getD (float (.finite 0))) with
  | .ok (.finite x) => some x
  | _ => none

/-- The texts of an array. -/
def getStrs (key : String) (v : Json) : Option (List String) :=
  match v.get? key with
  | none => some []
  | some (arr items) => items.mapM fun j => match j with
    | str s => some s
    | _ => none
  | some _ => none

/-- The state with `str(d.get(key, …))` for its value, by default `default`; `default` for an
unknown value too. -/
def getState {S : Type} (ofValue? : String → Option S) (default : S) (key : String) (v : Json) :
    S :=
  match v.get? key with
  | some (str value) => (ofValue? value).getD default
  | _ => default

/-- `d.get("node_id", "") or d.get("primary_owner", "")`. -/
def getOwner (v : Json) : Option String :=
  match getStr "" "node_id" v with
  | none => none
  | some nodeId => if nodeId = "" then getStr "" "primary_owner" v else some nodeId

/-- `d.get("id")`. -/
def getId (v : Json) : Option String :=
  match v.get? "id" with
  | some (str id) => some id
  | _ => none

/-- `_shard_from_dict`. -/
def shardFromDict (v : Json) : Option Shard :=
  if v.isObj then do
    let id ← getId v
    let ns ← getStr "" "namespace" v
    let nodeId ← getOwner v
    let vectorCount ← getNat 0 "vector_count" v
    let maxVectors ← getNat 50000000000 "max_vectors" v
    let replicas ← getStrs "replicas" v
    let version ← getNat 1 "version" v
    some
      { id := id, ns := ns, nodeId := nodeId,
        state := getState ShardState.ofValue? .active "state" v, vectorCount := vectorCount,
        maxVectors := maxVectors, replicas := replicas, version := version }
  else none

/-- `_node_from_dict`. -/
def nodeFromDict (v : Json) : Option ClusterNode :=
  if v.isObj then do
    let nodeId ← getStr "" "node_id" v
    let clusterId ← getStr "" "cluster_id" v
    let version ← getNat 1 "version" v
    some ⟨nodeId, clusterId, getState NodeMembershipState.ofValue? .active "membership_state" v,
      version⟩
  else none

/-- `_migration_from_dict`. -/
def migrationFromDict (v : Json) : Option (ShardMigration × Times) :=
  if v.isObj then do
    let migrationId ← getStr "" "migration_id" v
    let ns ← getStr "" "namespace" v
    let shardId ← getStr "" "shard_id" v
    let sourceNodeId ← getStr "" "source_node_id" v
    let targetNodeId ← getStr "" "target_node_id" v
    let sourceVersion ← getNat 1 "source_version" v
    let clusterId ← getStr "vsector-cluster-default" "cluster_id" v
    let createdAt ← getTime X "created_at" v
    let updatedAt ← getTime X "updated_at" v
    let error ← getStrOrNull "error" v
    let version ← getNat 1 "version" v
    let sourceDigest ← getStrOrNull "source_digest" v
    let targetDigest ← getStrOrNull "target_digest" v
    let finalized ← getBool false "finalized" v
    some
      ({ migrationId := migrationId, ns := ns, shardId := shardId, sourceNodeId := sourceNodeId,
         targetNodeId := targetNodeId, state := getState MigrationState.ofValue? .pending "state" v,
         sourceVersion := sourceVersion, clusterId := clusterId, error := error, version := version,
         sourceDigest := sourceDigest, targetDigest := targetDigest,
         finalized := finalized }, createdAt, updatedAt)
  else none

/-- `_data`, `_nodes` and `_migrations`, as `_load` fills them. -/
structure LoadedData where
  shards : Dict String Shard
  nodes : Dict String ClusterNode
  migrations : Dict String (ShardMigration × Times)

instance : EmptyCollection LoadedData := ⟨⟨∅, ∅, ∅⟩⟩

/-- `k[len(prefix):]`, where `k` starts with the prefix. -/
def stripKey (keyPrefix : String) (k : String) : Option String :=
  if keyPrefix.toList <+: k.toList then some (String.ofList (k.toList.drop keyPrefix.toList.length))
    else none

/-- The body of `_load`'s loop; `none` where it raises. -/
def loadEntry (data : LoadedData) (k : String) (v : Json) : Option LoadedData :=
  match stripKey migrationKeyPrefix k with
  | some id =>
    (migrationFromDict X v).map fun m => { data with migrations := data.migrations.set id m }
  | none =>
    match stripKey clusterKeyPrefix k with
    | some id => (nodeFromDict v).map fun n => { data with nodes := data.nodes.set id n }
    | none => (shardFromDict v).map fun s => { data with shards := data.shards.set k s }

/-- The loop of `_load`: an exception ends it, and is only logged. -/
def loadEntries (data : LoadedData) : List (String × Json) → LoadedData
  | [] => data
  | (k, v) :: fields =>
    match loadEntry X data k v with
    | some data => loadEntries data fields
    | none => data

/-- `_load`, over the text of the file. -/
def loadText (s : List Char) : LoadedData :=
  match loads X s with
  | some (obj fields) => loadEntries X ∅ fields
  | _ => ∅

end Vsector.Sharding
