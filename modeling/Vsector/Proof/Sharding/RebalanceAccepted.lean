import Vsector.Proof.Sharding.MigrationSteps
import Vsector.Proof.Sharding.Rebalance

/-!
# Recommendations that can be carried out

`recommendation_accepted_iff`: `create_migration` takes a recommendation, in
the state it was made in, exactly if no migration of the shard is open and the
two members are of the manager's own cluster. `recommend_rebalance` looks at
neither (`busy_shard_recommended`).
-/

namespace Vsector.Sharding

open Framework Cluster

namespace ShardMigrationManager

variable {δ : Type} {mgr : ShardMigrationManager} {store : InMemoryEtcd}
  {uuid4 ns shardId target : String} {shard : Shard}

/-- A node that `_validate_member` accepts. -/
def Enrolled (mgr : ShardMigrationManager) (store : InMemoryEtcd) (node : String) : Prop :=
  ∃ n, store.getNode node = some n ∧ n.state ≠ .removed ∧ n.clusterId = mgr.membership.clusterId

theorem validateMember_ok_iff {node : String} (kind : Kind) :
    mgr.validateMember store node kind = .ok () ↔ Enrolled mgr store node := by
  unfold validateMember Enrolled ClusterMembershipManager.validateNode
    ClusterMembershipManager.validateClusterId
  rcases store.getNode node with _ | n
  · simp
  · by_cases hstate : n.state = .removed
    · simp [hstate]
    · by_cases hcluster : n.clusterId = mgr.membership.clusterId <;> simp [hstate, hcluster]

/-- No migration of the shard is under way. -/
def Idle (store : InMemoryEtcd) (shardId : String) : Prop :=
  ∀ m ∈ store.listMigrations, m.shardId = shardId → m.state.isTerminal = true

/-- `create_migration` of a shard that may be moved. -/
theorem newMigration_ok_iff (mgr : ShardMigrationManager) (uuid4 target : String)
    (hget : store.get shardId = some shard) (hns : shard.ns = ns)
    (hmig : shard.state.isMigratable = true) :
    (∃ m, mgr.newMigration store uuid4 ns shardId target = .ok m ∧ m.sourceNodeId = shard.nodeId) ↔
      shard.nodeId ≠ "" ∧ Enrolled mgr store shard.nodeId ∧ Enrolled mgr store target ∧
      target ≠ shard.nodeId ∧
        Idle store shardId := by
  have hfind : (store.listMigrations.find? fun m => m.shardId = shardId ∧ ¬ m.state.isTerminal) =
      none ↔ Idle store shardId := by
    simp [Idle]
  rw [← validateMember_ok_iff .source, ← validateMember_ok_iff .target, ← hfind]
  simp only [newMigration, hget, hns, hmig, ne_eq, not_true_eq_false, ↓reduceIte,
    Shard.requireOwner]
  by_cases howner : shard.nodeId = ""
  · simp [howner, bind, Except.bind]
  · simp only [howner, not_false_eq_true, true_and, ↓reduceIte, bind, Except.bind]
    generalize mgr.validateMember store shard.nodeId .source = source
    generalize mgr.validateMember store target .target = member
    generalize (store.listMigrations.find? fun m => m.shardId = shardId ∧
      ¬ m.state.isTerminal) = busy
    rcases source with exc | ⟨⟩
    · simp
    · rcases member with exc | ⟨⟩
      · simp
      · by_cases hne : target = shard.nodeId
        · simp [hne, throw, throwThe, MonadExceptOf.throw]
        · rcases busy with _ | m
          · simp [hne, pure, Except.pure]
          · simp [hne, throw, throwThe, MonadExceptOf.throw]

theorem createMigration_result (w : World δ) :
    (mgr.createMigration uuid4 ns shardId target w).result = mgr.newMigration w.store uuid4 ns
      shardId target := by
  show ((Proc.ofExcept (mgr.newMigration w.store uuid4 ns shardId target) >>= fun m =>
    inStore (·.putMigration m) >>= fun _ => pure m :
      Proc (World δ) Exc ShardMigration) w).result = _
  rcases mgr.newMigration w.store uuid4 ns shardId target with exc | m
  · rfl
  · rfl

/-- The node of that id is of the manager's cluster. -/
def OfCluster (mgr : ShardMigrationManager) (store : InMemoryEtcd) (node : String) : Prop :=
  ∀ n, store.getNode node = some n → n.clusterId = mgr.membership.clusterId

/-- Every node is kept under its own id, as `put_node` keeps it. -/
def NodesKeyed (store : InMemoryEtcd) : Prop := ∀ id n, store.getNode id = some n → n.nodeId = id

/-- A member that the recommendations know is rejected only where it is of another cluster. -/
theorem enrolled_iff_of_known {node : String} (hkeyed : NodesKeyed store)
    (h : node ∈ Rebalance.known store) :
    Enrolled mgr store node ↔ OfCluster mgr store node := by
  obtain ⟨n, hn, rfl⟩ : ∃ n ∈ store.listNodes.filter (·.state ≠ .removed), n.nodeId = node := by
    simpa [Rebalance.known] using h
  obtain ⟨hmem, hstate⟩ := List.mem_filter.mp hn
  obtain ⟨id, hid⟩ := Dict.mem_values.mp hmem
  have hget : store.getNode n.nodeId = some n := by
    have : n.nodeId = id := hkeyed id n hid
    rw [this]
    exact hid
  constructor
  · rintro ⟨n', hn', -, hcluster⟩ n'' hn''
    rw [hn'] at hn''
    cases hn''
    exact hcluster
  · intro hcluster
    exact ⟨n, hget, of_decide_eq_true hstate, hcluster n hget⟩

/-- `create_migration` of what is recommended. -/
theorem accepted_iff_enrolled {r : Recommendation} (hj : Rebalance.Justified store r shard) :
    (∃ m, mgr.newMigration store uuid4 r.ns r.shardId r.recommendedTarget = .ok m ∧
      m.sourceNodeId = r.currentOwner) ↔
      r.currentOwner ≠ "" ∧ Enrolled mgr store r.currentOwner ∧
      Enrolled mgr store r.recommendedTarget ∧ Idle store r.shardId := by
  have h := newMigration_ok_iff mgr uuid4 r.recommendedTarget hj.found hj.ns hj.migratable
  rw [hj.owner] at h
  rw [h]
  simp only [hj.extremes.ne, ne_eq, not_false_eq_true, true_and]

/-- A recommendation is accepted exactly if its members are of the manager's cluster and nothing is
under way for the shard. -/
theorem recommendation_accepted_iff (mgr : ShardMigrationManager) (w : World δ) (uuid4 : String)
    {r : Recommendation} (hkeyed : NodesKeyed w.store) (hr : r ∈ recommendRebalance w.store) :
    (∃ m, (mgr.createMigration uuid4 r.ns r.shardId r.recommendedTarget w).result = .ok m ∧
        m.sourceNodeId = r.currentOwner) ↔
      r.currentOwner ≠ "" ∧ OfCluster mgr w.store r.currentOwner ∧
      OfCluster mgr w.store r.recommendedTarget ∧
        Idle w.store r.shardId := by
  obtain ⟨shard, hj⟩ := Rebalance.justified_of_mem hr
  have hsource := Rebalance.mem_members.mp hj.extremes.source
  have htarget := Rebalance.mem_members.mp hj.extremes.target
  rw [createMigration_result, accepted_iff_enrolled hj, enrolled_iff_of_known hkeyed hsource,
    enrolled_iff_of_known hkeyed htarget]

/-! Two shards on one of two members. -/

private def membersOf (cluster : String) : EtcdData :=
  { (∅ : EtcdData) with
    nodes := ((∅ : Dict String ClusterNode).set "n0" ⟨"n0", "c", .active, 2⟩).set "n1"
      ⟨"n1", cluster, .active, 2⟩ }

private def twoShards (cluster : String) : EtcdData :=
  ((membersOf cluster).setShard ⟨"a", "ns", "n0", .active, 0, 10, [], 1⟩).setShard
    ⟨"b", "ns", "n0", .active, 0, 10, [], 1⟩

private def underWay : ShardMigration where
  migrationId := "m"
  ns := "ns"
  shardId := "a"
  sourceNodeId := "n0"
  targetNodeId := "n1"
  state := .pending
  sourceVersion := 1
  clusterId := "c"
  error := none
  version := 1
  sourceDigest := none
  targetDigest := none
  finalized := false

private def manager : ShardMigrationManager := ⟨⟨"c"⟩, "c"⟩

theorem recommendation_accepted_idle : ∃ r ∈ recommendRebalance ⟨twoShards "c", none⟩,
    ∃ m, (manager.createMigration "m" r.ns r.shardId r.recommendedTarget
        (⟨⟨twoShards "c", none⟩, ()⟩ : World Unit)).result = .ok m ∧
      m.sourceNodeId = r.currentOwner := by
  have hkeyed : NodesKeyed ⟨twoShards "c", none⟩ := by
    intro id n h
    have hmem : (id, n) ∈ (membersOf "c").nodes.entries := Dict.mem_entries.mpr h
    exact (by decide +kernel : ∀ p ∈ (membersOf "c").nodes.entries, p.2.nodeId = p.1) (id, n) hmem
  have hcluster : ∀ node, OfCluster manager ⟨twoShards "c", none⟩ node := by
    intro node n hn
    have hmem : (node, n) ∈ (membersOf "c").nodes.entries := Dict.mem_entries.mpr hn
    exact (by decide +kernel : ∀ p ∈ (membersOf "c").nodes.entries, p.2.clusterId = "c")
      (node, n) hmem
  obtain ⟨r, hr, howner⟩ : ∃ r ∈ recommendRebalance ⟨twoShards "c", none⟩, r.currentOwner ≠ "" := by
    decide +kernel
  have hidle : Idle ⟨twoShards "c", none⟩ r.shardId := fun m hm => absurd hm List.not_mem_nil
  exact ⟨r, hr, (recommendation_accepted_iff manager ⟨⟨twoShards "c", none⟩, ()⟩ "m" hkeyed hr).mpr
    ⟨howner, hcluster _, hcluster _, hidle⟩⟩

/-- The shard that is being migrated is recommended again, and so is a target of another cluster. -/
theorem busy_shard_recommended :
    (∃ r ∈ recommendRebalance ⟨(twoShards "c").setMigration underWay, none⟩,
      ¬ ∃ m, (manager.createMigration "m'" r.ns r.shardId r.recommendedTarget
        (⟨⟨(twoShards "c").setMigration underWay, none⟩, ()⟩ : World Unit)).result = .ok m ∧
          m.sourceNodeId = r.currentOwner) ∧
    ∃ r ∈ recommendRebalance ⟨twoShards "d", none⟩,
      ¬ ∃ m, (manager.createMigration "m" r.ns r.shardId r.recommendedTarget
        (⟨⟨twoShards "d", none⟩, ()⟩ : World Unit)).result = .ok m ∧
          m.sourceNodeId = r.currentOwner := by
  constructor
  · obtain ⟨r, hr, hid⟩ : ∃ r ∈ recommendRebalance ⟨(twoShards "c").setMigration underWay, none⟩,
        r.shardId = "a" := by
      decide +kernel
    obtain ⟨shard, hj⟩ := Rebalance.justified_of_mem hr
    refine ⟨r, hr, ?_⟩
    rw [createMigration_result, accepted_iff_enrolled hj]
    rintro ⟨-, -, -, hidle⟩
    exact absurd (hidle underWay (List.mem_singleton_self _) hid.symm) (by decide)
  · obtain ⟨r, hr, htarget⟩ : ∃ r ∈ recommendRebalance ⟨twoShards "d", none⟩,
        r.recommendedTarget = "n1" := by
      decide +kernel
    obtain ⟨shard, hj⟩ := Rebalance.justified_of_mem hr
    refine ⟨r, hr, ?_⟩
    rw [createMigration_result, accepted_iff_enrolled hj, htarget]
    rintro ⟨-, -, ⟨n, hn, -, hcluster⟩, -⟩
    cases hn
    exact absurd hcluster (by decide)

end ShardMigrationManager

end Vsector.Sharding
