import Vsector.Impl.Api.Startup
import Vsector.Proof.Api.Namespaces
import Vsector.Proof.Cluster.MembershipHistory
import Vsector.Proof.Sharding.MetadataCrash
import Vsector.Proof.Sharding.Router

/-!
# A crash while a namespace is created

`create_namespace` writes the store twice for each shard (`creationStep`), and
a restart makes the shards of a namespace only where there is none. So after a
crash between the first and the last of these writes some of the shards are
missing, or one of them stays CREATING (`creation_survives_iff`).
-/

namespace Vsector.Sharding

open Framework Models Api Cluster ShardLifecycleManager

/-- The call number `k` of the loop of `_ensure_namespace_shards`: each of them writes the file. -/
def creationStep (lm : ShardLifecycleManager) (nodeId ns : String) (e : InMemoryEtcd) (k : Nat) :
    InMemoryEtcd × Except Exc Unit :=
  if k % 2 = 0 then
    let (e, r) := lm.create e (.other (makeShard nodeId ns (k / 2))) (some nodeId)
      (some (replicaNodes nodeId))
    (e, r.map fun _ => ())
  else
    let (e, r) := activate e (.stored (shardName ns (k / 2)))
    (e, r.map fun _ => ())

/-- The store after the first `j` writes of `_ensure_namespace_shards`. -/
def ensureUntil (lm : ShardLifecycleManager) (nodeId : String) (e : InMemoryEtcd) (ns : String)
    (j : Nat) : InMemoryEtcd :=
  if e.listByNamespace ns ≠ [] then e else (forEach (creationStep lm nodeId ns) e (List.range j)).1

section

variable (lm : ShardLifecycleManager) (nodeId ns : String) (e : InMemoryEtcd)

/-- The two calls for one shard. -/
theorem creationStep_pair (i : Nat) :
    forEach (creationStep lm nodeId ns) e [2 * i, 2 * i + 1] =
      materializeShard lm nodeId ns e i := by
  have heven : creationStep lm nodeId ns e (2 * i) =
      ((lm.create e (.other (makeShard nodeId ns i)) (some nodeId) (some (replicaNodes nodeId))).1,
        (lm.create e (.other (makeShard nodeId ns i)) (some nodeId)
          (some (replicaNodes nodeId))).2.map fun _ => ()) := by
    rw [creationStep, if_pos (by omega), show 2 * i / 2 = i by omega]
  have hodd : ∀ e, creationStep lm nodeId ns e (2 * i + 1) =
      ((activate e (.stored (shardName ns i))).1,
        (activate e (.stored (shardName ns i))).2.map fun _ => ()) := by
    intro e
    rw [creationStep, if_neg (by omega), show (2 * i + 1) / 2 = i by omega]
  rw [forEach, heven, materializeShard]
  rcases hc : lm.create e (.other (makeShard nodeId ns i)) (some nodeId)
    (some (replicaNodes nodeId)) with ⟨t, exc | shard⟩
  · rfl
  · have hid : shard.id = shardName ns i := create_id hc
    show forEach (creationStep lm nodeId ns) t [2 * i + 1] = _
    rw [forEach, hodd]
    dsimp only
    rw [hid]
    rcases activate t (.stored (shardName ns i)) with ⟨u, exc | s⟩ <;> rfl

/-- All of the calls. -/
theorem forEach_creationStep (shardCount : Nat) :
    forEach (creationStep lm nodeId ns) e (List.range (2 * shardCount)) =
      forEach (materializeShard lm nodeId ns) e (List.range shardCount) := by
  induction shardCount with
  | zero => rfl
  | succ n ih =>
    have hrange : List.range (2 * (n + 1)) = List.range (2 * n) ++ [2 * n, 2 * n + 1] := by
      rw [show 2 * (n + 1) = 2 * n + 1 +
        1 by omega, List.range_succ, List.range_succ, List.append_assoc]
      rfl
    have hsteps : ∀ t, forEach (materializeShard lm nodeId ns) t [n] =
        materializeShard lm nodeId ns t n := by
      intro t
      rw [forEach]
      rcases materializeShard lm nodeId ns t n with ⟨u, exc | ⟨⟩⟩ <;> rfl
    rw [hrange, List.range_succ]
    rcases forEach_append (creationStep lm nodeId ns) e (List.range (2 * n)) [2 * n, 2 * n + 1] with
      ⟨t, exc, h, h'⟩ | ⟨t, h, h'⟩
    · rw [ih] at h
      rcases forEach_append (materializeShard lm nodeId ns) e (List.range n) [n] with
        ⟨u, exc', g, g'⟩ | ⟨u, g, g'⟩
      · rw [h', g', ← h, g]
      · rw [g] at h
        cases h
    · rw [ih] at h
      rcases forEach_append (materializeShard lm nodeId ns) e (List.range n) [n] with
        ⟨u, exc', g, g'⟩ | ⟨u, g, g'⟩
      · rw [g] at h
        cases h
      · rw [g] at h
        cases h
        rw [h', g', creationStep_pair, hsteps]

end

/-! ## The writes of an accepted creation -/

/-- The shard number `i` of a new namespace, as it is created and as it is activated. -/
def madeShard (nodeId ns : String) (i : Nat) (active : Bool) : Shard :=
  let created := registered (makeShard nodeId ns i) (some nodeId) (some (replicaNodes nodeId))
  if active then moved created .active else created

/-- The store after `j` writes from `e`. -/
structure Made (nodeId ns : String) (j : Nat) (e t : InMemoryEtcd) : Prop where
  nodes : t.live.nodes = e.live.nodes
  ids : (t.listByNamespace ns).map Shard.id = (List.range ((j + 1) / 2)).map (shardName ns)
  made : ∀ i < (j + 1) / 2, t.get (shardName ns i) =
    some (madeShard nodeId ns i (decide (2 * i + 1 < j)))
  others : InMemoryEtcd.KeepsOthers ns e t
  named : ∀ id s, t.get id = some s → s.Named
  filed : e.file.isSome → t.file.isSome ∧ (0 < j → t.file = some t.live)

section

variable {nodeId ns : String} {e t : InMemoryEtcd} {i j : Nat}

theorem madeShard_id (active : Bool) : (madeShard nodeId ns i active).id = shardName ns i := by
  cases active <;> rfl

theorem madeShard_ns (active : Bool) : (madeShard nodeId ns i active).ns = ns := by
  cases active <;> rfl

theorem madeShard_named (active : Bool) : (madeShard nodeId ns i active).Named := by
  intro ns' i' hid
  rw [madeShard_id] at hid
  rw [madeShard_ns]
  exact shardName_ns hid

theorem validateNode_congr (h : t.live.nodes = e.live.nodes) :
    ClusterMembershipManager.validateNode t nodeId =
      ClusterMembershipManager.validateNode e nodeId := by
  unfold ClusterMembershipManager.validateNode InMemoryEtcd.getNode
  rw [h]

/-- The node may be given shards. -/
def MayOwn (nodeId : String) (e : InMemoryEtcd) : Prop :=
  nodeId ≠ "" ∧ ClusterMembershipManager.validateNode e nodeId = .ok ()

theorem create_accepted (h : MayOwn nodeId e) (i : Nat) :
    (⟨true⟩ : ShardLifecycleManager).create e (.other (makeShard nodeId ns i)) (some nodeId)
      (some (replicaNodes nodeId)) =
      (e.put (madeShard nodeId ns i false), .ok (madeShard nodeId ns i false)) := by
  have howner : Shard.validateOwnership { makeShard nodeId ns i with
      nodeId := nodeId, replicas := replicaNodes nodeId } =
      .ok () := by
    unfold Shard.validateOwnership
    rw [if_neg h.1, if_neg]
    simp [replicaNodes]
  unfold ShardLifecycleManager.create
  simp only [ShardArg.shard, Option.getD_some, howner, validateMember, if_true, ShardArg.write, h.2]
  rfl

variable (ns) in
theorem create_refused (h : ¬ MayOwn nodeId e) (i : Nat) :
    ∃ exc, (⟨true⟩ : ShardLifecycleManager).create e (.other (makeShard nodeId ns i)) (some nodeId)
      (some (replicaNodes nodeId)) = (e, .error exc) := by
  unfold ShardLifecycleManager.create
  simp only [ShardArg.shard, Option.getD_some, ShardArg.write]
  split
  · exact ⟨_, rfl⟩
  · rename_i howner
    split
    · exact ⟨_, rfl⟩
    · rename_i hmember
      refine absurd ⟨fun hid => ?_, hmember⟩ h
      rw [Shard.validateOwnership, if_pos hid] at howner
      cases howner

theorem Made.zero (hlist : e.listByNamespace ns = [])
    (hnamed : ∀ id s, e.get id = some s → s.Named) :
    Made nodeId ns 0 e e := by
  refine ⟨rfl, ?_, fun i hi => absurd hi (Nat.not_lt_zero i), .refl ns e, hnamed,
    fun h => ⟨h, fun h => absurd h (lt_irrefl 0)⟩⟩
  rw [hlist]
  rfl

/-- A shard that is put under a name of the namespace. -/
theorem Made.named_put (h : Made nodeId ns j e t) (active : Bool) :
    ∀ id s, (t.put (madeShard nodeId ns i active)).get id = some s → s.Named := by
  intro id s hs
  rw [InMemoryEtcd.get_put] at hs
  split at hs
  · cases hs
    exact madeShard_named active
  · exact h.named id s hs

theorem Made.owned (h : Made nodeId ns j e t) (i : Nat) :
    InMemoryEtcd.Owned t ns (shardName ns i) := by
  intro s hs
  exact h.named _ s hs ns i (InMemoryEtcd.shard_id hs)

theorem Made.others_put (h : Made nodeId ns j e t) (active : Bool) :
    InMemoryEtcd.KeepsOthers ns e (t.put (madeShard nodeId ns i active)) := by
  refine h.others.trans (InMemoryEtcd.keepsOthers_put (madeShard_ns active) ?_)
  rw [madeShard_id]
  exact h.owned i

theorem filed_put {s : Shard} (h : t.file.isSome) : (t.put s).file = some (t.put s).live := by
  obtain ⟨d, hd⟩ := Option.isSome_iff_exists.mp h
  show t.file.map (fun _ => _) = _
  rw [hd]
  rfl

/-- The ids of the shards there are. -/
theorem Made.get_none (h : Made nodeId ns j e t) (hi : (j + 1) / 2 ≤ i) :
    t.get (shardName ns i) = none := by
  rcases hs : t.get (shardName ns i) with _ | s
  · rfl
  · have hid : s.id = shardName ns i := InMemoryEtcd.shard_id hs
    have hmem : s ∈ t.listByNamespace ns :=
      InMemoryEtcd.mem_listByNamespace.mpr ⟨by rw [hid]; exact hs, h.owned i s hs⟩
    have hids := List.mem_map_of_mem (f := Shard.id) hmem
    rw [h.ids, hid] at hids
    obtain ⟨i', hi', hname⟩ := List.mem_map.mp hids
    rw [shardName_inj] at hname
    rw [List.mem_range] at hi'
    omega

/-- The first call for a shard. -/
theorem Made.create (h : Made nodeId ns j e t) (hown : MayOwn nodeId e) (hj : j % 2 = 0) :
    creationStep ⟨true⟩ nodeId ns t j = (t.put (madeShard nodeId ns (j / 2) false), .ok ()) ∧
      Made nodeId ns (j + 1) e (t.put (madeShard nodeId ns (j / 2) false)) := by
  have hown' : MayOwn nodeId t := ⟨hown.1, (validateNode_congr h.nodes).trans hown.2⟩
  have hfresh : t.get (madeShard nodeId ns (j / 2) false).id = none := by
    rw [madeShard_id]
    exact h.get_none (by omega)
  refine ⟨?_, h.nodes, ?_, fun i hi => ?_, h.others_put false, h.named_put false, fun hf => ?_⟩
  · rw [creationStep, if_pos hj, create_accepted hown']
    rfl
  · have hlist := InMemoryEtcd.listByNamespace_put hfresh
    rw [madeShard_ns] at hlist
    rw [hlist, List.map_append, h.ids,
      show (j + 1 + 1) / 2 = (j + 1) / 2 + 1 by omega, List.range_succ,
      List.map_append, show (j + 1) / 2 = j / 2 by omega]
    rfl
  · rw [InMemoryEtcd.get_put, madeShard_id]
    by_cases hi' : i = j / 2
    · rw [if_pos (congrArg _ hi'), hi', decide_eq_false (by omega)]
    · rw [if_neg (mt shardName_inj.mp hi'), h.made i (by omega),
        decide_eq_decide.mpr (show 2 * i + 1 < j ↔ 2 * i + 1 < j + 1 by omega)]
  · have hfile := filed_put (s := madeShard nodeId ns (j / 2) false) (h.filed hf).1
    exact ⟨by rw [hfile]; rfl, fun _ => hfile⟩

/-- The second call for a shard. -/
theorem Made.activate (h : Made nodeId ns j e t) (hj : j % 2 = 1) :
    creationStep ⟨true⟩ nodeId ns t j = (t.put (madeShard nodeId ns (j / 2) true), .ok ()) ∧
      Made nodeId ns (j + 1) e (t.put (madeShard nodeId ns (j / 2) true)) := by
  have hget : t.get (shardName ns (j / 2)) = some (madeShard nodeId ns (j / 2) false) := by
    rw [h.made (j / 2) (by omega), decide_eq_false (by omega)]
  refine ⟨?_, h.nodes, ?_, fun i hi => ?_, h.others_put true, h.named_put true, fun hf => ?_⟩
  · rw [creationStep, if_neg (by omega), ShardLifecycleManager.activate, transition,
      show (ShardArg.stored (shardName ns (j / 2))).shard t = some _ from hget]
    rfl
  · have hids : ((t.setShard (madeShard nodeId ns (j / 2) true)).listByNamespace ns).map Shard.id =
        (t.listByNamespace ns).map Shard.id :=
      @InMemoryEtcd.ids_setShard t (madeShard nodeId ns (j / 2) false)
        (madeShard nodeId ns (j / 2) true) hget rfl ns
    exact hids.trans (by rw [h.ids, show (j + 1 + 1) / 2 = (j + 1) / 2 by omega])
  · rw [InMemoryEtcd.get_put, madeShard_id]
    by_cases hi' : i = j / 2
    · rw [if_pos (congrArg _ hi'), hi', decide_eq_true (by omega)]
    · rw [if_neg (mt shardName_inj.mp hi'), h.made i (by omega),
        decide_eq_decide.mpr (show 2 * i + 1 < j ↔ 2 * i + 1 < j + 1 by omega)]
  · have hfile := filed_put (s := madeShard nodeId ns (j / 2) true) (h.filed hf).1
    exact ⟨by rw [hfile]; rfl, fun _ => hfile⟩

/-- A creation that is refused at its first call. -/
theorem refused (h : ¬ MayOwn nodeId e) (j : Nat) :
    (forEach (creationStep ⟨true⟩ nodeId ns) e (List.range j)).1 = e := by
  cases j with
  | zero => rfl
  | succ j =>
    obtain ⟨exc, hexc⟩ := create_refused ns h 0
    have hstep : creationStep ⟨true⟩ nodeId ns e 0 = (e, .error exc) := by
      rw [creationStep, if_pos (by decide), hexc]
      rfl
    rw [List.range_succ_eq_map, forEach, hstep]

/-- The calls of a creation that is accepted. -/
theorem made (hown : MayOwn nodeId e) (hlist : e.listByNamespace ns = [])
    (hnamed : ∀ id s, e.get id = some s → s.Named) (j : Nat) :
    ∃ t, forEach (creationStep ⟨true⟩ nodeId ns) e (List.range j) = (t, .ok ()) ∧
      Made nodeId ns j e t := by
  induction j with
  | zero => exact ⟨e, rfl, .zero hlist hnamed⟩
  | succ j ih =>
    obtain ⟨t, ht, hmade⟩ := ih
    have hstep : ∃ u, creationStep ⟨true⟩ nodeId ns t j = (u, .ok ()) ∧
        Made nodeId ns (j + 1) e u := by
      rcases Nat.mod_two_eq_zero_or_one j with hj | hj
      · exact ⟨_, hmade.create hown hj⟩
      · exact ⟨_, hmade.activate hj⟩
    obtain ⟨u, hu, hmade'⟩ := hstep
    refine ⟨u, ?_, hmade'⟩
    rw [List.range_succ]
    rcases forEach_append (creationStep ⟨true⟩ nodeId ns) e (List.range j) [j] with
      ⟨t', exc, h, -⟩ | ⟨t', h, h'⟩
    · rw [ht] at h
      cases h
    · rw [ht] at h
      cases h
      rw [h', forEach, hu]
      rfl

end

/-! ## Restarts -/

section

variable {X : Externals} {cluster : ClusterMembershipManager} {nodeId ns : String}
  {e t : InMemoryEtcd}

/-- The local node, registered as it is, may own shards after it is started again. -/
def MayServe (cluster : ClusterMembershipManager) (nodeId : String) (e : InMemoryEtcd) : Prop :=
  nodeId ≠ "" ∧ ∃ n, e.getNode nodeId = some n ∧ n.state ≠ .removed ∧
    (n.state = .joining → n.clusterId = cluster.clusterId)

theorem mayOwn_of_getNode {n : ClusterNode} (hid : nodeId ≠ "") (hn : e.getNode nodeId = some n)
    (hstate : n.state ≠ .removed) : MayOwn nodeId e := by
  refine ⟨hid, ?_⟩
  rw [ClusterMembershipManager.validateNode, hn]
  exact if_neg hstate

theorem getNode_of_mayOwn (h : MayOwn nodeId e) :
    ∃ n, e.getNode nodeId = some n ∧ n.state ≠ .removed := by
  have hvalid := h.2
  unfold ClusterMembershipManager.validateNode at hvalid
  rcases hn : e.getNode nodeId with _ | n
  · rw [hn] at hvalid
    cases hvalid
  · rw [hn] at hvalid
    refine ⟨n, rfl, fun hstate => ?_⟩
    dsimp only at hvalid
    rw [if_pos hstate] at hvalid
    cases hvalid

variable (cluster) in
/-- The registration of a local node that is known. -/
theorem bootstrap_known {n : ClusterNode} (hn : e.getNode nodeId = some n)
    (hkey : n.nodeId = nodeId) :
    (∃ t n', cluster.bootstrapLocalNode e nodeId = (t, .ok n') ∧ t.live.shards = e.live.shards ∧
        t.getNode nodeId = some n' ∧
        (n'.state ≠ .removed ↔ n.state ≠ .removed ∧
          (n.state = .joining → n.clusterId = cluster.clusterId))) ∨
      (n.state = .joining ∧ n.clusterId ≠ cluster.clusterId ∧
        ∃ exc, cluster.bootstrapLocalNode e nodeId = (e, .error exc)) := by
  rcases bootstrap_cases cluster e
    nodeId with ⟨hnone, -⟩ | ⟨n₁, hn₁, hstate, h⟩ | ⟨n₁, hn₁, hstate, h⟩
  · rw [hnone] at hn
    cases hn
  · rw [hn] at hn₁
    cases hn₁
    by_cases hcluster : n.clusterId = cluster.clusterId
    · have hactivate := activate_joining cluster e hn hstate hcluster
      rw [h]
      refine .inl ⟨_, _, hactivate, rfl, ?_, ?_⟩
      · rw [getNode_putNode]
        exact if_pos hkey.symm
      · simp [ClusterNode.moved, hstate, hcluster]
    · refine .inr ⟨hstate, hcluster, ?_⟩
      have hinvalid : cluster.validateClusterId e nodeId =
          .error (.clusterIdMismatch nodeId cluster.clusterId n.clusterId) := by
        rw [ClusterMembershipManager.validateClusterId, hn]
        exact if_pos hcluster
      rw [h, ClusterMembershipManager.transition, hn]
      dsimp only
      rw [hinvalid]
      exact ⟨_, rfl⟩
  · rw [hn] at hn₁
    cases hn₁
    exact .inl ⟨e, n, h, rfl, hn, by simp [hstate]⟩

/-- The shards of another namespace are made. -/
theorem ensure_other (hown : MayOwn nodeId e) (hnamed : ∀ id s, e.get id = some s → s.Named)
    {other : String} (hne : ns ≠ other) (shardCount : Nat) :
    ∃ t, ensureNamespaceShards ⟨true⟩ nodeId e other shardCount = (t, .ok ()) ∧
      t.live.nodes = e.live.nodes ∧
      (∀ id s, t.get id = some s → s.Named) ∧ t.listByNamespace ns = e.listByNamespace ns := by
  unfold ensureNamespaceShards
  by_cases hlist : e.listByNamespace other = []
  · rw [if_neg (not_not.mpr hlist), ← forEach_creationStep]
    obtain ⟨t, ht, hmade⟩ := made hown hlist hnamed (2 * shardCount)
    exact ⟨t, ht, hmade.nodes, hmade.named, hmade.others.list ns hne⟩
  · rw [if_pos hlist]
    exact ⟨e, rfl, rfl, hnamed, rfl⟩

theorem ensure_others (hown : MayOwn nodeId e) (hnamed : ∀ id s, e.get id = some s → s.Named)
    {namespaces : List (String × Nat)} (hne : ∀ p ∈ namespaces, ns ≠ p.1) :
    ∃ t, forEach (fun etcd p => ensureNamespaceShards ⟨true⟩ nodeId etcd p.1 p.2) e
      namespaces = (t, .ok ()) ∧
      t.live.nodes = e.live.nodes ∧ (∀ id s, t.get id = some s → s.Named) ∧
      t.listByNamespace ns = e.listByNamespace ns := by
  induction namespaces generalizing e with
  | nil => exact ⟨e, rfl, rfl, hnamed, rfl⟩
  | cons p namespaces ih =>
    obtain ⟨t, ht, hnodes, hnamed', hlist⟩ :=
      ensure_other hown hnamed (hne p List.mem_cons_self) p.2
    obtain ⟨u, hu, hnodes', hnamed'', hlist'⟩ :=
      ih ⟨hown.1, (validateNode_congr hnodes).trans hown.2⟩ hnamed'
      fun q hq => hne q (List.mem_cons_of_mem _ hq)
    refine ⟨u, ?_, hnodes'.trans hnodes, hnamed'', hlist'.trans hlist⟩
    rw [forEach, ht]
    exact hu

/-- The loop of the start-up, over distinct namespaces. -/
theorem ensure_all (hown : MayOwn nodeId e) (hnamed : ∀ id s, e.get id = some s → s.Named)
    {namespaces : List (String × Nat)} (hnodup : (namespaces.map Prod.fst).Nodup) {shardCount : Nat}
    (hmem : (ns, shardCount) ∈ namespaces) :
    ∃ t, forEach (fun etcd p => ensureNamespaceShards ⟨true⟩ nodeId etcd p.1 p.2) e
      namespaces = (t, .ok ()) ∧
      t.live.nodes = e.live.nodes ∧
      (e.listByNamespace ns ≠ [] → t.listByNamespace ns = e.listByNamespace ns) ∧
      (e.listByNamespace ns = [] → ∃ u v, Made nodeId ns (2 * shardCount) u v ∧
        t.listByNamespace ns = v.listByNamespace ns) := by
  obtain ⟨before, after, rfl⟩ := List.append_of_mem hmem
  rw [List.map_append, List.map_cons, List.nodup_middle, List.nodup_cons, List.mem_append] at hnodup
  have hbefore : ∀ p ∈ before, ns ≠ p.1 :=
    fun p hp he => hnodup.1 (.inl (List.mem_map.mpr ⟨p, hp, he.symm⟩))
  have hafter : ∀ p ∈ after, ns ≠ p.1 :=
    fun p hp he => hnodup.1 (.inr (List.mem_map.mpr ⟨p, hp, he.symm⟩))
  obtain ⟨t, ht, hnodes, hnamed', hlist⟩ := ensure_others hown hnamed hbefore
  have hown' : MayOwn nodeId t := ⟨hown.1, (validateNode_congr hnodes).trans hown.2⟩
  have hthis : ∃ u, ensureNamespaceShards ⟨true⟩ nodeId t ns shardCount = (u, .ok ()) ∧
      u.live.nodes = t.live.nodes ∧
      (∀ id s, u.get id = some s → s.Named) ∧
      (t.listByNamespace ns ≠ [] → u.listByNamespace ns = t.listByNamespace ns) ∧
      (t.listByNamespace ns = [] → Made nodeId ns (2 * shardCount) t u) := by
    unfold ensureNamespaceShards
    by_cases hnone : t.listByNamespace ns = []
    · rw [if_neg (not_not.mpr hnone), ← forEach_creationStep]
      obtain ⟨u, hu, hmade⟩ := made hown' hnone hnamed' (2 * shardCount)
      exact ⟨u, hu, hmade.nodes, hmade.named, fun h => absurd hnone h, fun _ => hmade⟩
    · rw [if_pos hnone]
      exact ⟨t, rfl, rfl, hnamed', fun _ => rfl, fun h => absurd h hnone⟩
  obtain ⟨u, hu, hunodes, hunamed, hkept, hmade⟩ := hthis
  obtain ⟨v, hv, hvnodes, -, hvlist⟩ :=
    ensure_others ⟨hown'.1, (validateNode_congr hunodes).trans hown'.2⟩ hunamed hafter
  refine ⟨v, ?_, hvnodes.trans (hunodes.trans hnodes), fun h => ?_, fun h => ?_⟩
  · rcases forEach_append (fun etcd p => ensureNamespaceShards ⟨true⟩ nodeId etcd p.1 p.2) e before
      ((ns, shardCount) :: after) with ⟨t', exc, h, -⟩ | ⟨t', h, h'⟩
    · rw [ht] at h
      cases h
    · rw [ht] at h
      cases h
      rw [h', forEach, hu]
      exact hv
  · rw [← hlist] at h
    exact hvlist.trans ((hkept h).trans hlist)
  · rw [← hlist] at h
    exact ⟨t, u, hmade h, hvlist⟩

/-- So many shards, all of them active and the node's. -/
def Served (nodeId : String) (shardCount : Nat) (shards : List Shard) : Prop :=
  shards.length = shardCount ∧ ∀ s ∈ shards, s.state = .active ∧ s.nodeId = nodeId

theorem Made.name {j : Nat} (h : Made nodeId ns j e t) {s : Shard} (hs : s ∈ t.listByNamespace ns) :
    ∃ i < (j + 1) / 2, s.id = shardName ns i := by
  have hids := List.mem_map_of_mem (f := Shard.id) hs
  rw [h.ids] at hids
  obtain ⟨i, hi, hname⟩ := List.mem_map.mp hids
  exact ⟨i, List.mem_range.mp hi, hname.symm⟩

theorem Made.get_empty {j : Nat} (h : Made nodeId ns j e t) (he : e.get "" = none) :
    t.get "" = none := by
  rcases hs : t.get "" with _ | s
  · rfl
  · have hid : s.id = "" := InMemoryEtcd.shard_id hs
    have hmem : s ∈ t.listByNamespace s.ns :=
      InMemoryEtcd.mem_listByNamespace.mpr ⟨by rw [hid]; exact hs, rfl⟩
    by_cases hns : s.ns = ns
    · rw [hns] at hmem
      obtain ⟨i, -, hname⟩ := h.name hmem
      exact absurd (hname.symm.trans hid) (shardName_ne_empty ns i)
    · rw [h.others.list _ hns] at hmem
      have hget := (InMemoryEtcd.mem_listByNamespace.mp hmem).1
      rw [hid, he] at hget
      cases hget

theorem Made.served {shardCount : Nat} (h : Made nodeId ns (2 * shardCount) e t) :
    Served nodeId shardCount (t.listByNamespace ns) ∧ ∀ s ∈ t.listByNamespace ns, s.id ≠ "" := by
  refine ⟨⟨?_, fun s hs => ?_⟩, fun s hs hid => ?_⟩
  · have hlength := congrArg List.length h.ids
    rw [List.length_map, List.length_map, List.length_range] at hlength
    omega
  · obtain ⟨i, hi, hid⟩ := h.name hs
    have hget := (InMemoryEtcd.mem_listByNamespace.mp hs).1
    rw [hid, h.made i hi, decide_eq_true (by omega)] at hget
    cases hget
    exact ⟨rfl, rfl⟩
  · obtain ⟨i, -, hname⟩ := h.name hs
    exact shardName_ne_empty ns i (hname.symm.trans hid)

/-- Shards that are served take every write. -/
theorem Served.writable {shardCount : Nat} (h : Served nodeId shardCount (t.listByNamespace ns))
    (hcount : 0 < shardCount)
    (hids : ∀ s ∈ t.listByNamespace ns, s.id ≠ "") (hown : MayOwn nodeId t) (recordId : String) :
    ∃ s, ShardRouter.routeWrite X ⟨t, some cluster⟩ ns recordId (some nodeId) = .ok s := by
  have hlocal : ShardRouter.Local ⟨t, some cluster⟩ ns (some nodeId)
      ((t.listByNamespace ns).map Shard.id) := by
    refine ⟨rfl, fun hnil => ?_, fun hmem => ?_, fun s hs => (h.2 s hs).1, fun s hs =>
      ?_, fun s hs => ?_⟩
    · have hlength := h.1
      rw [List.map_eq_nil_iff.mp hnil, List.length_nil] at hlength
      omega
    · obtain ⟨s, hs, hid⟩ := List.mem_map.mp hmem
      exact hids s hs hid
    · rw [(h.2 s hs).2]
      exact ⟨hown.1, fun n hn => Option.some.inj hn⟩
    · have howner : s.requireOwner = .ok s.nodeId := if_neg (by rw [(h.2 s hs).2]; exact hown.1)
      show s.requireOwner.bind (ClusterMembershipManager.validateNode t) = .ok ()
      rw [howner, (h.2 s hs).2]
      exact hown.2
  obtain ⟨s, -, hs, -⟩ := hlocal.routeWrite (X := X) recordId
  exact ⟨s, hs⟩

/-- A node that takes a write to its own shard may own it. -/
theorem mayOwn_of_routeWrite {recordId : String} {s : Shard}
    (h : ShardRouter.routeWrite X ⟨t, some cluster⟩ ns recordId (some nodeId) = .ok s)
    (howned : ∀ s ∈ t.listByNamespace ns, s.nodeId = nodeId) : MayOwn nodeId t := by
  have hmem : s ∈ t.listByNamespace ns := ShardRouter.routeWrite_mem h
  obtain ⟨-, -, hvalid, -⟩ := ShardRouter.routeWrite_ok_iff.mp h
  have hvalid' : s.requireOwner.bind (ClusterMembershipManager.validateNode t) = .ok () := hvalid
  unfold Shard.requireOwner at hvalid'
  rw [howned s hmem] at hvalid'
  by_cases hid : nodeId = ""
  · rw [if_pos hid] at hvalid'
    cases hvalid'
  · rw [if_neg hid] at hvalid'
    exact ⟨hid, hvalid'⟩

/-- The start-up over the file's data returns, the namespace has its shards, and every record can
be written. -/
structure Recreated (X : Externals) (cluster : ClusterMembershipManager) (nodeId : String)
    (namespaces : List (String × Nat)) (ns : String) (shardCount : Nat) (d : EtcdData) : Prop where
  done : (startUp cluster nodeId namespaces (.init (some d))).2 = .ok ()
  served : Served nodeId shardCount
    ((startUp cluster nodeId namespaces (.init (some d))).1.listByNamespace ns)
  writable : ∀ recordId, ∃ s, ShardRouter.routeWrite X
    ⟨(startUp cluster nodeId namespaces (.init (some d))).1, some cluster⟩
    ns recordId (some nodeId) = .ok s

theorem listByNamespace_congr (h : t.live.shards = e.live.shards) (ns : String) :
    t.listByNamespace ns = e.listByNamespace ns := by
  unfold InMemoryEtcd.listByNamespace
  rw [h]

/-- What a restart makes of the shards of a namespace. -/
theorem recreated_iff {namespaces : List (String × Nat)} (hnodup : (namespaces.map Prod.fst).Nodup)
    {shardCount : Nat}
    (hmem : (ns, shardCount) ∈ namespaces) (hcount : 0 < shardCount) {d : EtcdData}
    (he : e = .init (some d))
    (hnamed : ∀ id s, e.get id = some s → s.Named) (hids : e.get "" = none) {n : ClusterNode}
    (hn : e.getNode nodeId = some n) (hkey : n.nodeId = nodeId) :
    Recreated X cluster nodeId namespaces ns shardCount d ↔ MayServe cluster nodeId e ∧
      (e.listByNamespace ns = [] ∨ Served nodeId shardCount (e.listByNamespace ns)) := by
  rcases bootstrap_known cluster hn hkey with ⟨t, n', hboot, hshards, hget, hstate⟩ | ⟨hjoining,
    hcluster, exc, hboot⟩
  · have hstart : startUp cluster nodeId namespaces (.init (some d)) =
        forEach (fun etcd p => ensureNamespaceShards ⟨true⟩ nodeId etcd p.1 p.2) t namespaces := by
      rw [startUp, ← he, hboot]
    have hserve : MayServe cluster nodeId e ↔ nodeId ≠ "" ∧ n'.state ≠ .removed := by
      rw [MayServe, hstate, hn]
      simp
    have hlist := listByNamespace_congr hshards ns
    have hids' : ∀ s ∈ e.listByNamespace ns, s.id ≠ "" := by
      intro s hs hid
      have hgets := (InMemoryEtcd.mem_listByNamespace.mp hs).1
      rw [hid, hids] at hgets
      cases hgets
    have hframe : (startUp cluster nodeId namespaces (.init (some d))).1.live.nodes =
        t.live.nodes := by
      rw [hstart]
      exact forEach_invariant (I := fun u : InMemoryEtcd => u.live.nodes = t.live.nodes) rfl
        fun p _ u hu => (ensureNamespaceShards_frame ⟨true⟩ nodeId u p.1 p.2).1.trans hu
    constructor
    · intro h
      obtain ⟨s, hs⟩ := h.writable ""
      have hown := mayOwn_of_routeWrite hs fun s hs => (h.served.2 s hs).2
      have hown' : MayOwn nodeId t := ⟨hown.1, (validateNode_congr hframe).symm.trans hown.2⟩
      obtain ⟨m, hm, hremoved⟩ := getNode_of_mayOwn hown'
      rw [hget] at hm
      cases hm
      refine ⟨hserve.mpr ⟨hown.1, hremoved⟩, or_iff_not_imp_left.mpr fun hne => ?_⟩
      have hnamed' : ∀ id s, t.get id = some s → s.Named := by
        intro id s hs
        refine hnamed id s ?_
        unfold InMemoryEtcd.get at hs ⊢
        rw [← hshards]
        exact hs
      obtain ⟨u, hu, -, hkept, -⟩ := ensure_all hown' hnamed' hnodup hmem
      have hserved := h.served
      rw [hstart, hu, hkept (by rw [hlist]; exact hne), hlist] at hserved
      exact hserved
    · rintro ⟨hserves, hshape⟩
      obtain ⟨hid, hremoved⟩ := hserve.mp hserves
      have hown' : MayOwn nodeId t := mayOwn_of_getNode hid hget hremoved
      have hnamed' : ∀ id s, t.get id = some s → s.Named := by
        intro id s hs
        refine hnamed id s ?_
        unfold InMemoryEtcd.get at hs ⊢
        rw [← hshards]
        exact hs
      obtain ⟨u, hu, hnodes, hkept, hmade⟩ := ensure_all hown' hnamed' hnodup hmem
      have hresult : Served nodeId shardCount (u.listByNamespace ns) ∧
          ∀ s ∈ u.listByNamespace ns, s.id ≠ "" := by
        by_cases hne : e.listByNamespace ns = []
        · obtain ⟨v, w, hw, hvw⟩ := hmade (hlist.trans hne)
          rw [hvw]
          exact hw.served
        · rw [hkept (by rw [hlist]; exact hne), hlist]
          exact ⟨hshape.resolve_left hne, hids'⟩
      have hdone := hstart.trans hu
      refine ⟨by rw [hdone], by rw [hdone]; exact hresult.1, fun recordId => ?_⟩
      rw [hdone]
      exact hresult.1.writable hcount hresult.2
        ⟨hown'.1, (validateNode_congr hnodes).trans hown'.2⟩ recordId
  · refine iff_of_false (fun h => ?_) fun h => ?_
    · have hdone := h.done
      rw [startUp, ← he, hboot] at hdone
      cases hdone
    · obtain ⟨-, m, hm, -, hm'⟩ := h.1
      rw [hn] at hm
      cases hm
      exact hcluster (hm' hjoining)

end

/-! ## The crash -/

/-- The store of a running server: its file has the same nodes and, but for the counts, the same
shards; shards have ids that tell their namespaces; the local node was registered at start-up. -/
structure Running (nodeId : String) (d : EtcdData) (e : InMemoryEtcd) : Prop where
  filed : e.file = some d
  nodes : d.nodes = e.live.nodes
  shards : ∀ ns, ((InMemoryEtcd.init (some d)).listByNamespace ns).map uncounted =
    (e.listByNamespace ns).map uncounted
  named : ∀ id s, e.get id = some s → s.Named
  ids : e.get "" = none
  member : ∃ n, e.getNode nodeId = some n ∧ n.nodeId = nodeId

section

variable {X : Externals} {cluster : ClusterMembershipManager} {nodeId ns : String}
  {e : InMemoryEtcd} {d : EtcdData}

theorem served_uncounted {shardCount : Nat} {shards : List Shard} :
    Served nodeId shardCount (shards.map uncounted) ↔ Served nodeId shardCount shards := by
  unfold Served
  rw [List.length_map, List.forall_mem_map]
  rfl

/-- A shard of the file is one of the store. -/
theorem Running.get (h : Running nodeId d e) {id : String} {s : Shard}
    (hs : (InMemoryEtcd.init (some d)).get id = some s) :
    ∃ s', e.get id = some s' ∧ s'.id = s.id ∧ s'.ns = s.ns := by
  have hid : s.id = id := InMemoryEtcd.shard_id hs
  have hmem : s ∈ (InMemoryEtcd.init (some d)).listByNamespace s.ns :=
    InMemoryEtcd.mem_listByNamespace.mpr ⟨by rw [hid]; exact hs, rfl⟩
  have hmap := List.mem_map_of_mem (f := uncounted) hmem
  rw [h.shards] at hmap
  obtain ⟨s', hs', heq⟩ := List.mem_map.mp hmap
  have hid' : (uncounted s').id = (uncounted s).id := congrArg Shard.id heq
  have hns : (uncounted s').ns = (uncounted s).ns := congrArg Shard.ns heq
  have hget := (InMemoryEtcd.mem_listByNamespace.mp hs').1
  rw [show s'.id = s.id from hid', hid] at hget
  exact ⟨s', hget, hid', hns⟩

theorem mayServe_congr {t : InMemoryEtcd} (h : t.live.nodes = e.live.nodes) :
    MayServe cluster nodeId t ↔ MayServe cluster nodeId e := by
  unfold MayServe InMemoryEtcd.getNode
  rw [h]

theorem mayOwn_of_mayServe (h : MayServe cluster nodeId e) : MayOwn nodeId e := by
  obtain ⟨hid, n, hn, hstate, -⟩ := h
  exact mayOwn_of_getNode hid hn hstate

/-- A restart over the file as it was. -/
theorem Running.recreated_iff (h : Running nodeId d e) {namespaces : List (String × Nat)}
    (hnodup : (namespaces.map Prod.fst).Nodup) {shardCount : Nat}
    (hmem : (ns, shardCount) ∈ namespaces) (hcount : 0 < shardCount) :
    Recreated X cluster nodeId namespaces ns shardCount d ↔
      MayServe cluster nodeId e ∧
      (e.listByNamespace ns = [] ∨ Served nodeId shardCount (e.listByNamespace ns)) := by
  have hnodes : (InMemoryEtcd.init (some d)).live.nodes = e.live.nodes := h.nodes
  obtain ⟨n, hn, hkey⟩ := h.member
  have hn' : (InMemoryEtcd.init (some d)).getNode nodeId = some n := by
    unfold InMemoryEtcd.getNode at hn ⊢
    rw [hnodes]
    exact hn
  have hnamed : ∀ id s, (InMemoryEtcd.init (some d)).get id = some s → s.Named := by
    intro id s hs ns' i hid
    obtain ⟨s', hs', hid', hns⟩ := h.get hs
    exact hns.symm.trans (h.named id s' hs' ns' i (hid'.trans hid))
  have hids : (InMemoryEtcd.init (some d)).get "" = none := by
    rcases hs : (InMemoryEtcd.init (some d)).get "" with _ | s
    · rfl
    · obtain ⟨s', hs', -⟩ := h.get hs
      rw [h.ids] at hs'
      cases hs'
  rw [Sharding.recreated_iff hnodup hmem hcount rfl hnamed hids hn' hkey, mayServe_congr hnodes,
    ← List.map_eq_nil_iff (f := uncounted), h.shards, List.map_eq_nil_iff, ← served_uncounted,
      h.shards, served_uncounted]

/-- The file's data after the first `j` writes of the creation. -/
def crashedFile (nodeId : String) (e : InMemoryEtcd) (ns : String) (j : Nat) : EtcdData :=
  (ensureUntil ⟨true⟩ nodeId e ns j).file.getD ∅

/-- The shards between the first and the last write of the creation. -/
theorem Made.served_iff {t : InMemoryEtcd} {shardCount j : Nat} (h : Made nodeId ns j e t)
    (hj : j ≤ 2 * shardCount) (hpos : 0 < j) :
    t.listByNamespace ns ≠ [] ∧ (Served nodeId shardCount (t.listByNamespace ns) ↔
      j = 2 * shardCount) := by
  have hlength : (t.listByNamespace ns).length = (j + 1) / 2 := by
    have hids := congrArg List.length h.ids
    rw [List.length_map, List.length_map, List.length_range] at hids
    exact hids
  refine ⟨fun hnil => ?_, fun hserved => ?_, fun he => ?_⟩
  · rw [hnil, List.length_nil] at hlength
    omega
  · have hcount := hlength.symm.trans hserved.1
    by_contra hne
    -- the last shard is created and not active
    have hlast := h.made (shardCount - 1) (by omega)
    rw [decide_eq_false (by omega)] at hlast
    have hmem : madeShard nodeId ns (shardCount - 1) false ∈ t.listByNamespace ns :=
      InMemoryEtcd.mem_listByNamespace.mpr ⟨by rw [madeShard_id]; exact hlast, madeShard_ns false⟩
    have hactive := (hserved.2 _ hmem).1
    cases hactive
  · subst he
    exact h.served.1

/-- A crash after `j` of the writes of `create_namespace` to the store, and a restart. -/
theorem creation_survives_iff (X : Externals) (cluster : ClusterMembershipManager)
    (h : Running nodeId d e) {namespaces : List (String × Nat)}
    (hnodup : (namespaces.map Prod.fst).Nodup) {shardCount : Nat}
    (hmem : (ns, shardCount) ∈ namespaces) (hcount : 0 < shardCount) {j : Nat}
    (hj : j ≤ 2 * shardCount) :
    Recreated X cluster nodeId namespaces ns shardCount (crashedFile nodeId e ns j) ↔
      MayServe cluster nodeId e ∧
      (e.listByNamespace ns = [] ∧ (j = 0 ∨ j = 2 * shardCount) ∨
        Served nodeId shardCount (e.listByNamespace ns)) := by
  have hunserved : e.listByNamespace ns = [] →
      ¬ Served nodeId shardCount (e.listByNamespace ns) := by
    intro hlist hserved
    have hlength := hserved.1
    rw [hlist, List.length_nil] at hlength
    omega
  by_cases hlist : e.listByNamespace ns = []
  · have huntil : ensureUntil ⟨true⟩ nodeId e ns j =
        (forEach (creationStep ⟨true⟩ nodeId ns) e (List.range j)).1 :=
      if_neg (not_not.mpr hlist)
    rw [or_iff_left (hunserved hlist)]
    by_cases hown : MayOwn nodeId e
    · obtain ⟨t, ht, hmade⟩ := made hown hlist h.named j
      rcases Nat.eq_zero_or_pos j with hzero | hpos
      · have hfile : crashedFile nodeId e ns j = d := by
          rw [crashedFile, huntil, hzero]
          show e.file.getD ∅ = d
          rw [h.filed]
          rfl
        rw [hfile, h.recreated_iff hnodup hmem hcount]
        simp [hlist, hzero]
      · have hfiled : t.file = some t.live := (hmade.filed (by rw [h.filed]; rfl)).2 hpos
        have hfile : crashedFile nodeId e ns j = t.live := by
          rw [crashedFile, huntil, ht]
          show t.file.getD ∅ = t.live
          rw [hfiled]
          rfl
        have hinit : t = .init (some t.live) := by
          show t = ⟨t.live, some t.live⟩
          rw [← hfiled]
        obtain ⟨n, hn, hkey⟩ := h.member
        have hn' : t.getNode nodeId = some n := by
          unfold InMemoryEtcd.getNode at hn ⊢
          rw [hmade.nodes]
          exact hn
        obtain ⟨hne, hserved⟩ := hmade.served_iff hj hpos
        rw [hfile, recreated_iff hnodup hmem hcount hinit hmade.named (hmade.get_empty h.ids) hn'
          hkey, mayServe_congr hmade.nodes, or_iff_right hne, hserved]
        have hj0 : j ≠ 0 := by omega
        simp [hlist, hj0]
    · have hfile : crashedFile nodeId e ns j = d := by
        rw [crashedFile, huntil, refused hown, h.filed]
        rfl
      rw [hfile, h.recreated_iff hnodup hmem hcount]
      exact iff_of_false (fun hs => hown (mayOwn_of_mayServe hs.1)) fun hs =>
        hown (mayOwn_of_mayServe hs.1)
  · have hfile : crashedFile nodeId e ns j = d := by
      rw [crashedFile, ensureUntil, if_pos hlist, h.filed]
      rfl
    rw [hfile, h.recreated_iff hnodup hmem hcount]
    simp [hlist]

/-- The file of a server that has just been started for the first time. -/
def startedData : EtcdData :=
  (∅ : EtcdData).apply (.putNode ⟨"node-0", "vsector-cluster-default", .active, 2⟩)

theorem running_started : Running "node-0" startedData (.init (some startedData)) where
  filed := rfl
  nodes := rfl
  shards _ := rfl
  named _ _ h := by cases h
  ids := rfl
  member := ⟨_, rfl, rfl⟩

/-- The crash comes after the last write. -/
theorem whole_creation_survives : Recreated readable ⟨"vsector-cluster-default"⟩ "node-0"
    [("docs", 2)] "docs" 2
    (crashedFile "node-0" (.init (some startedData)) "docs" 4) :=
  (creation_survives_iff readable ⟨"vsector-cluster-default"⟩ running_started (by decide)
    (List.mem_singleton.mpr rfl)
    (by decide) (by decide)).mpr
    ⟨⟨by decide, _, rfl, by decide, by decide⟩, .inl ⟨rfl, .inr rfl⟩⟩

/-- Between the creation and the activation of the only shard: it stays CREATING. -/
theorem half_created_shard :
    ¬ ∀ (X : Externals) (cluster : ClusterMembershipManager) (nodeId ns : String) (d : EtcdData)
    (e : InMemoryEtcd) (namespaces : List (String × Nat)) (shardCount j : Nat), Running nodeId d e →
    MayServe cluster nodeId e → e.listByNamespace ns = [] → (namespaces.map Prod.fst).Nodup →
    (ns, shardCount) ∈ namespaces → 0 < shardCount → j ≤ 2 * shardCount →
    Recreated X cluster nodeId namespaces ns shardCount (crashedFile nodeId e ns j) := by
  intro h
  have hrecreated := h readable ⟨"vsector-cluster-default"⟩ "node-0" "docs" _ _ [("docs", 1)]
    1 1 running_started
    ⟨by decide, _, rfl, by decide, by decide⟩ rfl (by decide) (List.mem_singleton.mpr rfl)
      (by decide) (by decide)
  have hstates : ((startUp ⟨"vsector-cluster-default"⟩ "node-0" [("docs", 1)]
      (.init (some (crashedFile "node-0" (.init (some startedData)) "docs" 1)))).1.listByNamespace
        "docs").map Shard.state =
        [.creating] := by
    decide +kernel
  obtain ⟨s, hs, hstate⟩ := List.mem_map.mp (hstates ▸ List.mem_singleton.mpr rfl :
    ShardState.creating ∈ List.map Shard.state _)
  rw [(hrecreated.served.2 s hs).1] at hstate
  cases hstate

end

end Vsector.Sharding
