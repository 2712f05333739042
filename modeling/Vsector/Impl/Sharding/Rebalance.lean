import Vsector.Impl.Sharding.Migration

/-!
# Rebalancing recommendations

`recommend_rebalance` of `sharding/migration.py`, which reads the shards and
the members and changes nothing.
-/

namespace Vsector.Sharding

open Framework Cluster

/-- `list_nodes`. -/
def InMemoryEtcd.listNodes (e : InMemoryEtcd) : List ClusterNode := e.live.nodes.values

/-- `all`. -/
def InMemoryEtcd.all (e : InMemoryEtcd) : List Shard := e.live.shards.values

structure Recommendation where
  ns : String
  shardId : String
  currentOwner : String
  recommendedTarget : String
  reason : String
deriving DecidableEq

namespace Rebalance

/-- `known`. -/
def known (store : InMemoryEtcd) : List String :=
  ((store.listNodes.filter (·.state ≠ .removed)).map (·.nodeId)).insertionSort (· ≤ ·)

/-- `namespaces`. -/
def namespaces (store : InMemoryEtcd) : List String :=
  (store.all.map Shard.ns).dedup.insertionSort (· ≤ ·)

/-- The shards of a namespace that may be moved. -/
def migratable (store : InMemoryEtcd) (ns : String) : List Shard :=
  (store.listByNamespace ns).filter (·.state.isMigratable)

/-- `owner_shards.get(owner, [])`, of a member. -/
def ownerShards (store : InMemoryEtcd) (ns owner : String) : List Shard :=
  (migratable store ns).filter (·.nodeId = owner)

/-- The keys of `owner_shards`. -/
def owners (store : InMemoryEtcd) (ns : String) : List String :=
  (((migratable store ns).map Shard.nodeId).filter (· ∈ known store)).dedup

/-- `len(owner_shards.get(owner, []))`. -/
def count (store : InMemoryEtcd) (ns owner : String) : Nat := (ownerShards store ns owner).length

/-- `source_owner`: the one with the most shards, and of these the first by its id. -/
def sourceOwner (store : InMemoryEtcd) (ns : String) : Option String :=
  (owners store ns).argmin fun o => toLex (OrderDual.toDual (count store ns o), o)

/-- `target`: of the others the one with the fewest shards, and of these the first by its id. -/
def target (store : InMemoryEtcd) (ns source : String) : Option String :=
  ((known store).filter (· ≠ source)).argmin fun n => toLex (count store ns n, n)

def reason (store : InMemoryEtcd) (ns source target : String) : String :=
  s!"current owner {pyRepr source} holds {count store ns source} shards; " ++
    s!"candidate target {pyRepr target} holds {count store ns target} " ++
    "(deterministic read-only recommendation; rebalance is NOT automatic)"

/-- `candidate`: the first by its id. -/
def candidate (store : InMemoryEtcd) (ns source : String) : Option Shard :=
  ((ownerShards store ns source).insertionSort fun a b => a.id ≤ b.id).head?

/-- The body of the loop over the namespaces. -/
def recommendFor (store : InMemoryEtcd) (ns : String) : Option Recommendation :=
  match sourceOwner store ns with
  | none => none
  | some source =>
    if count store ns source ≤ 1 then none
    else
      match target store ns source with
      | none => none
      | some target =>
        if count store ns source ≤ count store ns target then none
        else (candidate store ns source).map fun shard =>
          ⟨ns, shard.id, source, target, reason store ns source target⟩

end Rebalance

/-- `recommend_rebalance`. -/
def recommendRebalance (store : InMemoryEtcd) : List Recommendation :=
  (Rebalance.namespaces store).filterMap (Rebalance.recommendFor store)

namespace Recommendation

/-- The named shard is moved to the named target, as a migration moves it. -/
def applied (r : Recommendation) (store : InMemoryEtcd) : InMemoryEtcd :=
  match store.get r.shardId with
  | none => store
  | some shard => store.put (ShardMigrationManager.moveShard shard r.recommendedTarget)

/-- A recommendation is followed. -/
def follow (store : InMemoryEtcd) (r : Recommendation) : Option InMemoryEtcd :=
  if r ∈ recommendRebalance store then some (r.applied store) else none

end Recommendation

end Vsector.Sharding
