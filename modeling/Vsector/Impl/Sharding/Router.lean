import Vsector.Impl.Cluster.Membership
import Vsector.Impl.Models.VectorRecord

/-!
# Routing

`RendezvousHash` of `sharding/hash_ring.py`, and the routing and the split of
`ShardRouter` (`sharding/router.py`). The cached shard lists and hashes are
left out: the router reads the store.
-/

namespace Vsector.Sharding

open Framework Models Cluster

variable (X : Externals)

/-! ## RendezvousHash -/

namespace RendezvousHash

/-- `get_node`'s score of a node. -/
def score (key node : String) : Nat := X.mmh3 s!"{key}#{node}"

/-- The first of the nodes with the highest score; `best` is that of those seen. -/
def best (key : String) : List String → Option String → Option String
  | [], b => b
  | n :: nodes, none => best key nodes (some n)
  | n :: nodes, some b => best key nodes (if score X key b < score X key n then some n else some b)

/-- `get_node`. -/
def getNode (nodes : List String) (key : String) : Except Exc String :=
  match best X key nodes none with
  | none => .error (.other "RuntimeError" "no nodes in ring")
  | some n => .ok n

def addNode (nodes : List String) (node : String) : List String :=
  if node ∈ nodes then nodes else nodes ++ [node]

def removeNode (nodes : List String) (node : String) : List String := nodes.erase node

/-- The scored nodes in descending order. -/
def ranked (nodes : List String) (key : String) : List (Nat × String) :=
  (nodes.map fun node => (score X key node, node)).insertionSort fun a b => b.1 < a.1 ∨
    b.1 = a.1 ∧ b.2 ≤ a.2

/-- `get_nodes`. -/
def getNodes (nodes : List String) (key : String) (n : Nat) : List String :=
  ((ranked X nodes key).take n).map Prod.snd

end RendezvousHash

/-! ## ShardRouter -/

/-- `_state_error`. -/
def stateError (shard : Shard) : Exc :=
  match shard.state with
  | .creating => .shardCreating shard.ns shard.id
  | .draining => .shardDraining shard.ns shard.id
  | s => .shardOffline shard.ns shard.id s.value

/-- Whether a state is one of `READABLE_STATES`. -/
def ShardState.isReadable : ShardState → Bool
  | active | draining => true
  | _ => false

/-- The identities of the two halves of a split, and perhaps the store's call that raises. -/
structure SplitEnv where
  idA : String
  idB : String
  fault : Option (Nat × Exc)

structure ShardRouter where
  etcd : InMemoryEtcd
  membership : Option ClusterMembershipManager

namespace ShardRouter

/-- `_shard_key`. -/
def shardKey (ns recordId : String) : String := X.sha256 s!"{ns}:{recordId}"

/-- `_select`. -/
def select (r : ShardRouter) (ns recordId : String) : Except Exc Shard :=
  let shards := r.etcd.listByNamespace ns
  if shards = [] then .error (.keyError s!"no shards for namespace {pyRepr ns}")
  else
    let active := shards.filter fun s => s.id ≠ ""
    match RendezvousHash.getNode X (active.map Shard.id) (shardKey X ns recordId) with
    | .error e => .error e
    | .ok id =>
      match active.find? fun s => s.id = id with
      | some s => .ok s
      | none =>
        match active with
        | s :: _ => .ok s
        | [] => .error (.other "IndexError" "list index out of range")

/-- `_validate_owner`. -/
def validateOwner (r : ShardRouter) (shard : Shard) : Except Exc Unit :=
  match r.membership with
  | none => .ok ()
  | some _ => shard.requireOwner.bind (ClusterMembershipManager.validateNode r.etcd)

/-- `route`. -/
def route (r : ShardRouter) (ns recordId : String) : Except Exc Shard :=
  match r.select X ns recordId with
  | .error e => .error e
  | .ok shard =>
    if ¬ shard.state.isReadable then .error (stateError shard)
    else (r.validateOwner shard).map fun _ => shard

/-- The owner check that `route_write` and `writable` end with. -/
def checkOwner (ns : String) (shard : Shard) (ownerNodeId : Option String) : Except Exc Unit :=
  match shard.requireOwner, ownerNodeId with
  | .error e, _ => .error e
  | .ok _, none => .ok ()
  | .ok owner, some node =>
    if owner ≠ node then .error (.ownershipMismatch ns shard.id owner node) else .ok ()

/-- `route_write`. -/
def routeWrite (r : ShardRouter) (ns recordId : String) (ownerNodeId : Option String) :
    Except Exc Shard :=
  match r.select X ns recordId with
  | .error e => .error e
  | .ok shard =>
    if shard.state ≠ .active then .error (stateError shard)
    else
      match r.validateOwner shard with
      | .error e => .error e
      | .ok () => (checkOwner ns shard ownerNodeId).map fun _ => shard

/-- `route_for_query`. -/
def routeForQuery (r : ShardRouter) (ns : String) : List Shard :=
  (r.etcd.listByNamespace ns).filter fun s => s.state.isReadable

/-- `writable`. -/
def writable (r : ShardRouter) (ns : String) (ownerNodeId : Option String) :
    Except Exc (List Shard) :=
  (r.etcd.listByNamespace ns).mapM fun shard =>
    if shard.state ≠ .active then .error (stateError shard)
    else (checkOwner ns shard ownerNodeId).map fun _ => shard

/-- `maybe_split`: a shard with too many vectors is replaced by two. -/
def maybeSplit (r : ShardRouter) (shard : Shard) (env : SplitEnv) : ShardRouter × Except Exc Unit :=
  if ¬ shard.shouldSplit then (r, .ok ())
  else
    let half (id suffix : String) (count : Nat) : Shard :=
      ⟨id, shard.ns, shard.nodeId ++ suffix, .active, count, shard.maxVectors, [], 1⟩
    let a := half env.idA "-a" (shard.vectorCount / 2)
    let b := half env.idB "-b" (shard.vectorCount - shard.vectorCount / 2)
    let steps : List (InMemoryEtcd → InMemoryEtcd) := [(·.put a), (·.put b), (·.delete shard.id)]
    match env.fault with
    | none => ({ r with etcd := steps.foldl (fun e f => f e) r.etcd }, .ok ())
    | some (k, e) =>
      ({ r with etcd := (steps.take (k + 1)).foldl (fun e f => f e) r.etcd }, .error e)

end ShardRouter

end Vsector.Sharding
