import Vsector.Impl.Api.Namespaces
import Vsector.Impl.Sharding.Router

/-!
# The router's caches

The cached shard lists and hashes of `ShardRouter` (`sharding/router.py`),
and what adds and removes shards around them. A cached list holds the store's
objects; it is kept here as they were, and only their ids are used.
-/

namespace Vsector.Sharding

open Framework Models Api

/-- `ShardRouter` with its caches: the lists by namespace, with the times they were read at, and
the hashes' nodes. -/
structure CachedRouter where
  etcd : InMemoryEtcd
  cacheTtl : ℚ
  cache : Dict String (ℚ × List Shard)
  hrwCache : Dict String (List String)

namespace CachedRouter

/-- The list of the store, which is cached. -/
def readShards (r : CachedRouter) (now : ℚ) (ns : String) : CachedRouter × List Shard :=
  let shards := r.etcd.listByNamespace ns
  ({ r with cache := r.cache.set ns (now, shards) }, shards)

/-- `_get_shards_cached`. -/
def getShardsCached (r : CachedRouter) (now : ℚ) (ns : String) : CachedRouter × List Shard :=
  match r.cache.get? ns with
  | some (ts, shards) => if now - ts < r.cacheTtl then (r, shards) else r.readShards now ns
  | none => r.readShards now ns

def invalidate (r : CachedRouter) (ns : String) : CachedRouter :=
  { r with cache := r.cache.pop ns, hrwCache := r.hrwCache.pop ns }

/-- The hash of a namespace, made again where its nodes are not those of the list. -/
def syncHrw (r : CachedRouter) (ns : String) (ids : List String) : CachedRouter × List String :=
  match r.hrwCache.get? ns with
  | some nodes =>
    if (∀ id ∈ ids, id ∈ nodes) ∧ ∀ id ∈ nodes, id ∈ ids then (r, nodes)
    else ({ r with hrwCache := r.hrwCache.set ns ids }, ids)
  | none => ({ r with hrwCache := r.hrwCache.set ns ids }, ids)

variable (X : Externals)

/-- `_select`, over the shards and the hash's nodes. -/
def selectAmong (active : List Shard) (nodes : List String) (ns recordId : String) :
    Except Exc Shard :=
  match RendezvousHash.getNode X nodes (ShardRouter.shardKey X ns recordId) with
  | .error e => .error e
  | .ok id =>
    match active.find? fun s => s.id = id with
    | some s => .ok s
    | none =>
      match active with
      | s :: _ => .ok s
      | [] => .error (.other "IndexError" "list index out of range")

/-- `_select`. -/
def select (r : CachedRouter) (now : ℚ) (ns recordId : String) : CachedRouter × Except Exc Shard :=
  let (r, shards) := r.getShardsCached now ns
  if shards = [] then (r, .error (.keyError s!"no shards for namespace {pyRepr ns}"))
  else
    let active := shards.filter fun s => s.id ≠ ""
    let (r, nodes) := r.syncHrw ns (active.map Shard.id)
    (r, selectAmong X active nodes ns recordId)

/-- `register_shard`. -/
def registerShard (r : CachedRouter) (shard : Shard) : CachedRouter :=
  { r with etcd := r.etcd.put shard }.invalidate shard.ns

/-- `maybe_split`, with the ids of the halves. -/
def maybeSplit (r : CachedRouter) (shard : Shard) (idA idB : String) : CachedRouter :=
  if shard.shouldSplit then
    { r with etcd := ((⟨r.etcd, none⟩ : ShardRouter).maybeSplit shard
      ⟨idA, idB, none⟩).1.etcd }.invalidate shard.ns
  else r

/-- `_ensure_namespace_shards`, of `create_namespace`. -/
def createNamespace (r : CachedRouter) (lm : ShardLifecycleManager) (nodeId ns : String)
    (shardCount : Nat) : CachedRouter :=
  { r with etcd := (ensureNamespaceShards lm nodeId r.etcd ns shardCount).1 }

/-- `delete_namespace`, as far as the shards go. -/
def deleteNamespace (r : CachedRouter) (ns : String) : CachedRouter :=
  { r with etcd := deleteShards r.etcd ns }.invalidate ns

end CachedRouter

/-- A call that uses the caches or changes the shards: `list` is `route_for_query`, `writable` or
`query_route`, and `change` a change of a stored shard that keeps its id and namespace. -/
inductive RouterCall where
  | select (now : ℚ) (ns recordId : String)
  | list (now : ℚ) (ns : String)
  | invalidate (ns : String)
  | register (shard : Shard)
  | change (shard : Shard)
  | split (shard : Shard) (idA idB : String)
  | create (lm : ShardLifecycleManager) (nodeId ns : String) (shardCount : Nat)
  | delete (ns : String)

/-- The router after a call. -/
def CachedRouter.call (X : Externals) (r : CachedRouter) : RouterCall → CachedRouter
  | .select now ns recordId => (r.select X now ns recordId).1
  | .list now ns => (r.getShardsCached now ns).1
  | .invalidate ns => r.invalidate ns
  | .register shard => r.registerShard shard
  | .change shard => { r with etcd := r.etcd.put shard }
  | .split shard idA idB => r.maybeSplit shard idA idB
  | .create lm nodeId ns shardCount => r.createNamespace lm nodeId ns shardCount
  | .delete ns => r.deleteNamespace ns

end Vsector.Sharding
