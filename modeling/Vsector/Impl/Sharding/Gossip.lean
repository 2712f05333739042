import Vsector.Impl.Sharding.Etcd3
import Vsector.Impl.Sharding.RouterCache

/-!
# Cached shard lists over one etcd

Processes that have a `ShardRouter` over the same etcd each, and the
`GossipInvalidator` of `sharding/gossip.py`, which empties a router's cache as
the watch tells it to. Looking at the cache, listing the shards and caching
the list are steps of their own, as a thread makes them in
`_get_shards_cached`; other threads and the watch may come between. What a
watch delivers, and when, is left open. The polling, which does nothing, is
left out. A list is kept as it was read: the code shares the `Shard` objects,
and counts the writes of its own process in them.
-/

namespace Vsector.Sharding

open Framework Models

/-- `P` are the processes, `T` the threads of one. -/
structure GossipFleet (P T : Type) where
  store : Etcd3Store
  cacheTtl : ℚ
  cache : P → Dict String (ℚ × List Shard)
  /-- What a thread has listed, and not yet cached. -/
  listed : P → T → Option (String × ℚ × List Shard)

inductive GossipEvent (P T : Type) where
  /-- A call on the store, by any process. -/
  | store (call : StoreCall)
  /-- A value that the watch gives to `_on_event`; that of a deletion is empty. -/
  | deliver (process : P) (value : List Char)
  | invalidate (process : P) (ns : String)
  /-- A thread that did not find a list at `now` asks the store. -/
  | list (process : P) (thread : T) (now : ℚ) (ns : String)
  /-- The thread caches what it has listed. -/
  | fill (process : P) (thread : T)

namespace GossipFleet

variable {P T : Type} [DecidableEq P] [DecidableEq T] (X : Externals) (C : EtcdClient)

/-- The namespace that `_on_event` invalidates. -/
def namedBy (value : List Char) : Option String :=
  if value = [] then none
  else
    match (Json.loads X value).bind fun d => d.get? "namespace" with
    | some (.str ns) => if ns = "" then none else some ns
    | _ => none

/-- `invalidate`. -/
def forget (f : GossipFleet P T) (p : P) (ns : String) : GossipFleet P T :=
  { f with cache := Function.update f.cache p ((f.cache p).pop ns) }

/-- `_on_event`. -/
def onEvent (f : GossipFleet P T) (p : P) (value : List Char) : GossipFleet P T :=
  match namedBy X value with
  | some ns => f.forget p ns
  | none => f

/-- What a thread has listed. -/
def setListed (f : GossipFleet P T) (p : P) (t : T) (l : Option (String × ℚ × List Shard)) :
    GossipFleet P T :=
  { f with listed := Function.update f.listed p (Function.update (f.listed p) t l) }

def step (f : GossipFleet P T) : GossipEvent P T → GossipFleet P T
  | .store call => { f with store := f.store.after X call }
  | .deliver p value => f.onEvent X p value
  | .invalidate p ns => f.forget p ns
  | .list p t now ns =>
    f.setListed p t ((f.store.listByNamespace X C ns).map fun shards => (ns, now, shards))
  | .fill p t =>
    match f.listed p t with
    | some (ns, now, shards) =>
      { f.setListed p t none with
        cache := Function.update f.cache p ((f.cache p).set ns (now, shards)) }
    | none => f

/-- The cached list that `_get_shards_cached` returns at `now`. -/
def used (f : GossipFleet P T) (p : P) (now : ℚ) (ns : String) : Option (List Shard) :=
  match (f.cache p).get? ns with
  | some (ts, shards) => if now - ts < f.cacheTtl then some shards else none
  | none => none

/-- As the processes start. -/
def start (store : Etcd3Store) (cacheTtl : ℚ) : GossipFleet P T :=
  ⟨store, cacheTtl, fun _ => ∅, fun _ _ => none⟩

def after (f : GossipFleet P T) (events : List (GossipEvent P T)) : GossipFleet P T :=
  events.foldl (step X C) f

/-- A call of `_get_shards_cached` that began at `now` is given the list. -/
def Given (f : GossipFleet P T) (p : P) (now : ℚ) (ns : String) (shards : List Shard) : Prop :=
  f.used p now ns = some shards ∨ ∃ t, f.listed p t = some (ns, now, shards)

end GossipFleet

namespace ShardRouter

/-- `route_write`, over a list that `_get_shards_cached` returned and a hash over its shards. -/
def routeWriteAmong (X : Externals) (validateOwner : Shard → Except Exc Unit) (shards : List Shard)
    (nodes : List String) (ns recordId : String) (ownerNodeId : Option String) : Except Exc Shard :=
  if shards = [] then .error (.keyError s!"no shards for namespace {pyRepr ns}")
  else
    match CachedRouter.selectAmong X (shards.filter fun s => s.id ≠ "") nodes ns recordId with
    | .error e => .error e
    | .ok shard =>
      if shard.state ≠ .active then .error (stateError shard)
      else
        match validateOwner shard with
        | .error e => .error e
        | .ok () => (checkOwner ns shard ownerNodeId).map fun _ => shard

/-- `writable`, over a list that `_get_shards_cached` returned. -/
def writableAmong (shards : List Shard) (ns : String) (ownerNodeId : Option String) :
    Except Exc (List Shard) :=
  shards.mapM fun shard =>
    if shard.state ≠ .active then .error (stateError shard)
    else (checkOwner ns shard ownerNodeId).map fun _ => shard

end ShardRouter

end Vsector.Sharding
