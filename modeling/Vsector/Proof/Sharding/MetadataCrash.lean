import Vsector.Impl.Api.Startup
import Vsector.Proof.Api.Namespaces
import Vsector.Proof.Sharding.MetadataFile

/-!
# A crash while the metadata is written

`_persist` writes over the file, so a crash in the middle of it leaves a part
of the new text. `_load` takes no part of a text for the data it is of: it
finds an empty store, and start-up fills that with new members and shards.
Only where the data was or becomes empty is that the data of before or after
(`writes_atomic_iff`). Start-up by itself keeps all that it finds
(`startUp_survives`).
-/

namespace Vsector.Sharding

open Framework Models Api Cluster

/-! ## Start-up -/

/-- What a restart must not replace. -/
structure Survives (d e : EtcdData) : Prop where
  shards : ∀ id s, d.shards.get? id = some s → e.shards.get? id = some s
  nodes : ∀ id n, d.nodes.get? id = some n → n.state ≠ .joining → e.nodes.get? id = some n
  migrations : e.migrations = d.migrations

/-- Where a shard's id is made of a namespace's name, it is a shard of that namespace. -/
def Shard.Named (s : Shard) : Prop := ∀ ns i, s.id = shardName ns i → s.ns = ns

section

variable {cluster : ClusterMembershipManager} {nodeId : String} {e : InMemoryEtcd} {d : EtcdData}

/-- A node that is put in the place of none, or of one that joins. -/
theorem Survives.putNode (h : Survives d e.live) {node : ClusterNode}
    (hn : ∀ n, e.getNode node.nodeId = some n → n.state = .joining) :
    Survives d (e.putNode node).live := by
  refine ⟨h.shards, fun id n hid hst => ?_, h.migrations⟩
  have hget := h.nodes id n hid hst
  rw [show (e.putNode node).live.nodes = e.live.nodes.set node.nodeId node from rfl,
    Dict.get?_set_ne]
  · exact hget
  · rintro rfl
    exact hst (hn n hget)

theorem Survives.activateJoining (h : Survives d e.live) {node : ClusterNode}
    (hn : e.getNode nodeId = some node) (hid : node.nodeId = nodeId) :
    Survives d (cluster.activateJoining e node nodeId).1.live := by
  unfold ClusterMembershipManager.activateJoining
  split
  · rename_i hst
    show Survives d (cluster.transition e nodeId .active).1.live
    unfold ClusterMembershipManager.transition
    rw [hn]
    dsimp only
    split
    · exact h
    · unfold ClusterNode.transition
      split
      · exact h
      · rename_i node' htrans
        split at htrans
        · cases htrans
          refine h.putNode fun n hget => ?_
          rw [hid, hn] at hget
          cases hget
          exact hst
        · cases htrans
  · exact h

variable (cluster nodeId) in
/-- `bootstrap_local_node` puts a record in the place of none, or of one that joins. -/
theorem Survives.bootstrapLocalNode (h : Survives d e.live)
    (hkeyed : ∀ id n, e.getNode id = some n → n.nodeId = id) :
    Survives d (cluster.bootstrapLocalNode e nodeId).1.live := by
  unfold ClusterMembershipManager.bootstrapLocalNode
  split
  · rename_i node hn
    exact h.activateJoining hn (hkeyed nodeId node hn)
  · rename_i hnone
    have hput : Survives d (e.putNode ⟨nodeId, cluster.clusterId, .joining, 1⟩).live :=
      h.putNode fun n hget => by rw [hnone] at hget; cases hget
    unfold ClusterMembershipManager.register
    rw [hnone]
    dsimp only
    rw [if_neg (not_not.mpr rfl)]
    exact hput.activateJoining (Dict.get?_set_self _ _ _) rfl

/-- A namespace that gets its shards has none in the store. -/
theorem Survives.ensureNamespaceShards (h : Survives d e.live)
    (hd : ∀ id s, d.shards.get? id = some s → s.Named) {lm : ShardLifecycleManager} (ns : String)
    (shardCount : Nat) :
    Survives d (ensureNamespaceShards lm nodeId e ns shardCount).1.live := by
  obtain ⟨hnodes, hmigrations⟩ := ensureNamespaceShards_frame lm nodeId e ns shardCount
  refine ⟨fun id s hs => ?_, fun id n hn hst => ?_, hmigrations.trans h.migrations⟩
  · have hget : e.get id = some s := h.shards id s hs
    refine (get_ensureNamespaceShards lm nodeId fun hlist i _ hid => ?_).trans hget
    -- the shard would be listed as one of the namespace
    have hns : s.ns = ns := hd id s hs ns i ((InMemoryEtcd.shard_id hget).trans hid.symm)
    have hmem : s ∈ e.listByNamespace ns := by
      rw [InMemoryEtcd.listByNamespace, List.mem_filter]
      exact ⟨Dict.mem_values.mpr ⟨id, hget⟩, decide_eq_true hns⟩
    rw [hlist] at hmem
    cases hmem
  · rw [hnodes]
    exact h.nodes id n hn hst

/-- A restart that finds the data keeps it. -/
theorem startUp_survives (hkeyed : ∀ id n, d.nodes.get? id = some n → n.nodeId = id)
    (hd : ∀ id s, d.shards.get? id = some s → s.Named) (namespaces : List (String × Nat)) :
    Survives d (startUp cluster nodeId namespaces (.init (some d))).1.live := by
  have hinit : Survives d (InMemoryEtcd.init (some d)).live :=
    ⟨fun _ _ h => h, fun _ _ h _ => h, rfl⟩
  have hboot := hinit.bootstrapLocalNode cluster nodeId hkeyed
  unfold startUp
  split
  · rename_i etcd exc hb
    rw [hb] at hboot
    exact hboot
  · rename_i etcd node hb
    rw [hb] at hboot
    exact forEach_invariant (I := fun t : InMemoryEtcd => Survives d t.live) hboot
      fun ns _ t ht => ht.ensureNamespaceShards hd ns.1 ns.2

end

/-! ## The crash -/

/-- The data as the code names it: what `Storable` says, and a shard's id tells its namespace. -/
structure EtcdData.WellNamed (d : EtcdData) : Prop extends d.Storable where
  named : ∀ id s, d.shards.get? id = some s → s.Named

/-- A mutation that puts no shard, or one with a name the code gives. -/
structure MetadataOp.WellNamed (op : MetadataOp) : Prop where
  storable : op.Storable
  named : ∀ s, op = .put s → s.Named

theorem wellNamed_empty : (∅ : EtcdData).WellNamed := ⟨storable_empty, fun _ _ h => (nomatch h)⟩

theorem EtcdData.WellNamed.apply {d : EtcdData} (hd : d.WellNamed) {op : MetadataOp}
    (hop : op.WellNamed) :
    (d.apply op).WellNamed := by
  refine ⟨hd.toStorable.apply hop.storable, fun id s h => ?_⟩
  cases op with
  | put shard =>
    rw [show (d.apply (.put shard)).shards = d.shards.set shard.id shard from rfl,
      Dict.get?_set] at h
    split at h
    · cases h
      exact hop.named s rfl
    · exact hd.named id s h
  | delete shardId =>
    rw [show (d.apply (.delete shardId)).shards = d.shards.pop shardId from rfl, Dict.get?_pop] at h
    split at h
    · cases h
    · exact hd.named id s h
  | putNode node => exact hd.named id s h
  | deleteNode nodeId => exact hd.named id s h
  | putMigration migration => exact hd.named id s h
  | deleteMigration migrationId => exact hd.named id s h

/-- The shards that the code makes of a namespace are named so; no name of a namespace has a
colon. -/
theorem wellNamed_makeShard {ns : String} (hns : ':' ∉ ns.toList) (nodeId : String) (i : Nat) :
    (MetadataOp.put (makeShard nodeId ns i)).WellNamed := by
  have hcolon : ':' ∉ (shardName ns i).toList := by
    rw [toList_shardName]
    intro hc
    rcases List.mem_append.mp hc with hc | hc
    · exact hns hc
    · rcases List.mem_append.mp hc with hc | hc
      · exact absurd hc (by decide)
      · exact absurd (isDigit_of_mem_pad3 i _ hc) (by decide)
  have hstrip : ∀ keyPrefix : String, ':' ∈ keyPrefix.toList →
      stripKey keyPrefix (shardName ns i) = none := by
    intro keyPrefix hmem
    rw [stripKey, if_neg]
    exact fun h => hcolon (h.subset hmem)
  refine ⟨⟨hstrip _ (by decide), hstrip _ (by decide)⟩, fun s hs ns' j hid => ?_⟩
  cases hs
  exact shardName_ns hid

/-- A restart over a file finds all of the data, and keeps it. -/
structure Restores (X : Externals) (cluster : ClusterMembershipManager) (nodeId : String)
    (namespaces : List (String × Nat)) (file : List Char) (d : EtcdData) (times : String → Times) :
    Prop where
  found : loadText X file = d.loaded times
  kept : Survives d (startUp cluster nodeId namespaces (.init (some d))).1.live

theorem eq_empty_of_loaded {d : EtcdData} {times : String → Times} (h : d.loaded times = ∅) :
    d = ∅ := by
  obtain ⟨hshards, hnodes, hmigrations⟩ := LoadedData.mk.inj h
  have hnone : d.migrations = ∅ :=
    Dict.eq_of_entries (List.map_eq_nil_iff.mp (congrArg Dict.entries hmigrations))
  obtain ⟨shards, nodes, migrations, hs, hm⟩ := d
  cases hshards
  cases hnodes
  cases hnone
  rfl

/-- A crash that leaves the first `k` characters of the new text. -/
theorem writes_atomic_iff {X : Externals} (hX : X.FloatReads) (cluster : ClusterMembershipManager)
    (nodeId : String) (namespaces : List (String × Nat)) {d : EtcdData} (hd : d.WellNamed)
    {op : MetadataOp} (hop : op.WellNamed) (times times' : String → Times) (k : Nat) :
    (Restores X cluster nodeId namespaces (((d.apply op).persistText X times').take k) d times ∨
        Restores X cluster nodeId namespaces (((d.apply op).persistText X times').take k)
          (d.apply op) times') ↔
      ((d.apply op).persistText X times').length ≤ k ∨ d = ∅ ∨ d.apply op = ∅ := by
  have hd' := hd.apply hop
  by_cases hk : ((d.apply op).persistText X times').length ≤ k
  · refine iff_of_true (.inr ⟨?_, startUp_survives hd'.nodes_keyed hd'.named namespaces⟩) (.inl hk)
    rw [List.take_of_length_le hk]
    exact loadText_persistText hX hd'.toStorable times'
  · have hcut := loadText_cut hX hd'.toStorable times' (not_le.mp hk)
    constructor
    · rintro (h | h)
      · exact .inr (.inl (eq_empty_of_loaded (h.found.symm.trans hcut)))
      · exact .inr (.inr (eq_empty_of_loaded (h.found.symm.trans hcut)))
    · rintro (h | h | h)
      · exact absurd h hk
      · refine .inl ⟨?_, startUp_survives hd.nodes_keyed hd.named namespaces⟩
        rw [hcut, h]
        rfl
      · refine .inr ⟨?_, startUp_survives hd'.nodes_keyed hd'.named namespaces⟩
        rw [hcut, h]
        rfl

/-- A shard of the namespace `docs` that drains. -/
def drainingShard : Shard :=
  ⟨"docs#shard-000", "docs", "node-0", .draining, 12, 50000000000, ["node-1", "node-2"], 3⟩

/-- The store that holds it. -/
def drainingStore : EtcdData := (∅ : EtcdData).apply (.put drainingShard)

/-- The local node is registered, and the crash leaves the opening brace: the restarted process
finds nothing and makes an active shard of the same id. -/
theorem cut_write_loses_drain :
    (let op : MetadataOp := .putNode ⟨"node-0", "vsector-cluster-default", .active, 2⟩
     let file := ((drainingStore.apply op).persistText readable fun _ => (0, 0)).take 1
     let restarted :=
       (startUp ⟨"vsector-cluster-default"⟩ "node-0" [("docs", 1)] (.init (some ∅))).1
     loadText readable file = (∅ : EtcdData).loaded (fun _ => (0, 0)) ∧
     (restarted.get "docs#shard-000").map (·.state) = some .active ∧
     ¬ (Restores readable ⟨"vsector-cluster-default"⟩ "node-0" [("docs", 1)] file drainingStore
       (fun _ => (0, 0)) ∨
        Restores readable ⟨"vsector-cluster-default"⟩ "node-0" [("docs", 1)] file
          (drainingStore.apply op)
          fun _ => (0, 0))) := by
  refine ⟨rfl, rfl, ?_⟩
  rintro (h | h)
  · have hfound := congrArg (fun data => (data.shards.get? "docs#shard-000").isSome) h.found
    exact absurd hfound (by decide)
  · have hfound := congrArg (fun data => (data.shards.get? "docs#shard-000").isSome) h.found
    exact absurd hfound (by decide)

theorem wellNamed_drainingStore : drainingStore.WellNamed := by
  refine wellNamed_empty.apply ⟨⟨by decide, by decide⟩, fun s hs ns i hid => ?_⟩
  cases hs
  exact shardName_ns (i := 0) (j := i) hid

theorem wellNamed_putNode (node : ClusterNode) : (MetadataOp.putNode node).WellNamed :=
  ⟨trivial, fun _ h => by cases h⟩

/-- The whole file, after the local node was registered. -/
theorem whole_write_keeps_drain :
    let d := drainingStore.apply (.putNode ⟨"node-0", "vsector-cluster-default", .active, 2⟩)
    let file := (d.persistText readable fun _ => (0, 0)).take
      (d.persistText readable fun _ => (0, 0)).length
    Restores readable ⟨"vsector-cluster-default"⟩ "node-0" [("docs", 1)] file drainingStore
      (fun _ => (0, 0)) ∨
      Restores readable ⟨"vsector-cluster-default"⟩ "node-0" [("docs", 1)] file d fun _ => (0, 0) :=
  (writes_atomic_iff readable_floatReads _ _ _ wellNamed_drainingStore
    (wellNamed_putNode _) _ _ _).mpr
    (.inl le_rfl)

end Vsector.Sharding
