import Vsector.Framework.Digits
import Vsector.Framework.Run
import Vsector.Impl.Models.Namespace
import Vsector.Impl.Sharding.Lifecycle

/-!
# The namespace endpoints

`create_namespace` and `delete_namespace` of `api/rest.py`, as far as the
metadata store and the shard store go. The settings of a new namespace have
passed their validators.
-/

namespace Vsector.Api

open Framework Models Sharding

/-- `_NODE_POOL`. -/
def nodePool : List String := ["node-0", "node-1", "node-2"]

/-- `_replica_nodes`. -/
def replicaNodes (nodeId : String) : List String := nodePool.filter (· ≠ nodeId)

/-- `f"{index:03d}"`. -/
def pad3 (index : Nat) : String :=
  if index < 1000 then String.ofList (fixedDigits 3 index) else toString index

/-- `f"{ns_name}#shard-{index:03d}"`. -/
def shardName (ns : String) (index : Nat) : String := s!"{ns}#shard-{pad3 index}"

/-- `_make_shard`. -/
def makeShard (nodeId ns : String) (index : Nat) : Shard where
  id := shardName ns index
  ns := ns
  nodeId := nodeId
  state := .active
  vectorCount := 0
  maxVectors := 50000000000
  replicas := replicaNodes nodeId
  version := 1

variable (lm : ShardLifecycleManager) (nodeId : String)

/-- `_ensure_namespace_shards`' loop body. -/
def materializeShard (ns : String) (e : InMemoryEtcd) (index : Nat) :
    InMemoryEtcd × Except Exc Unit :=
  match lm.create e (.other (makeShard nodeId ns index)) (some nodeId)
    (some (replicaNodes nodeId)) with
  | (e, .error exc) => (e, .error exc)
  | (e, .ok shard) =>
    let (e, r) := ShardLifecycleManager.activate e (.stored shard.id)
    (e, r.map fun _ => ())

/-- `_ensure_namespace_shards`. -/
def ensureNamespaceShards (e : InMemoryEtcd) (ns : String) (shardCount : Nat) :
    InMemoryEtcd × Except Exc Unit :=
  if e.listByNamespace ns ≠ [] then (e, .ok ())
  else forEach (materializeShard lm nodeId ns) e (List.range shardCount)

/-- The metadata store, with the number of shards each namespace was created with. -/
abbrev MetadataStore := Dict String (Namespace × Nat)

/-- `create_namespace`; a failure after the metadata is stored is not undone. -/
def createNamespace (metadata : MetadataStore) (e : InMemoryEtcd) (ns : Namespace)
    (shardCount : Nat) :
    MetadataStore × InMemoryEtcd × Except Exc Unit :=
  match metadata.get? ns.name with
  | some _ =>
    (metadata, e, .error (.other "HTTPException" s!"namespace {pyRepr ns.name} already exists"))
  | none =>
    (metadata.set ns.name (ns, shardCount), ensureNamespaceShards lm nodeId e ns.name shardCount)

/-- The loop of `delete_namespace` over the shards. -/
def deleteShards (e : InMemoryEtcd) (ns : String) : InMemoryEtcd :=
  (e.listByNamespace ns).foldl (fun e s => e.delete s.id) e

/-- `delete_namespace`. -/
def deleteNamespace (metadata : MetadataStore) (e : InMemoryEtcd) (name : String) :
    MetadataStore × InMemoryEtcd × Except Exc Unit :=
  match metadata.get? name with
  | none => (metadata, e, .error (.other "HTTPException" "namespace not found"))
  | some _ => (metadata.pop name, deleteShards e name, .ok ())

end Vsector.Api
