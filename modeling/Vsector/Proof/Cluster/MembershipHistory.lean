import Vsector.Framework.Run
import Vsector.Impl.Cluster.Bootstrap
import Vsector.Impl.Sharding.FileStore
import Vsector.Proof.Sharding.MetadataFile

/-!
# The history of a cluster's members

Calls of any managers on one store, and restarts that read its file. A call
is refused and changes nothing, registers a node there was none of, or moves
one node along one edge of `TRANSITIONS` (`perform_cases`), and a restart
finds the nodes as they were. So the state of a node only ever follows
`TRANSITIONS`, and its version counts its moves (`membership_is_truthful`).
-/

namespace Vsector.Cluster

open Framework Models Sharding

/-! ## Calls -/

inductive MemberOp where
  | register (nodeId : String) (clusterId : Option String)
  | activate (nodeId : String)
  | beginDrain (nodeId : String)
  | remove (nodeId : String)
  | bootstrap (nodeId : String)

namespace MemberOp

def nodeId : MemberOp → String
  | register nodeId _ | activate nodeId | beginDrain nodeId | remove nodeId | bootstrap nodeId =>
    nodeId

def perform (m : ClusterMembershipManager) (store : InMemoryEtcd) :
    MemberOp → InMemoryEtcd × Except Exc ClusterNode
  | register nodeId clusterId => m.register store nodeId clusterId
  | activate nodeId => m.activate store nodeId
  | beginDrain nodeId => m.beginDrain store nodeId
  | remove nodeId => m.remove store nodeId
  | bootstrap nodeId => m.bootstrapLocalNode store nodeId

/-- How often the call's `_transition` succeeds, where the call returns. -/
def transitions (store : InMemoryEtcd) : MemberOp → Nat
  | register _ _ => 0
  | activate _ | beginDrain _ | remove _ => 1
  | bootstrap nodeId =>
    match store.getNode nodeId with
    | none => 1
    | some node => if node.state = .joining then 1 else 0

end MemberOp

/-- The node after a transition. -/
def ClusterNode.moved (n : ClusterNode) (dest : NodeMembershipState) : ClusterNode :=
  { n with state := dest, version := n.version + 1 }

section

variable (m : ClusterMembershipManager) (store : InMemoryEtcd)

theorem getNode_putNode (node : ClusterNode) (id : String) :
    (store.putNode node).getNode id = if id = node.nodeId then some node else store.getNode id :=
  Dict.get?_set _ _ _ _

theorem transition_cases (nodeId : String) (dest : NodeMembershipState) :
    (∃ n, store.getNode nodeId = some n ∧ dest ∈ n.state.next ∧
        m.transition store nodeId dest = (store.putNode (n.moved dest), .ok (n.moved dest))) ∨
      ∃ exc, m.transition store nodeId dest = (store, .error exc) := by
  unfold ClusterMembershipManager.transition
  rcases hn : store.getNode nodeId with _ | n
  · exact .inr ⟨_, rfl⟩
  · dsimp only
    rcases m.validateClusterId store nodeId with exc | ⟨⟩
    · exact .inr ⟨exc, rfl⟩
    · dsimp only [ClusterNode.transition]
      by_cases hd : dest ∈ n.state.next
      · rw [if_pos hd]
        exact .inl ⟨n, rfl, hd, rfl⟩
      · rw [if_neg hd]
        exact .inr ⟨_, rfl⟩

/-- A node that joins this cluster is let in. -/
theorem activate_joining {nodeId : String} {n : ClusterNode} (hn : store.getNode nodeId = some n)
    (hstate : n.state = .joining) (hcluster : n.clusterId = m.clusterId) :
    m.activate store nodeId = (store.putNode (n.moved .active), .ok (n.moved .active)) := by
  have hvalid : m.validateClusterId store nodeId = .ok () := by
    rw [ClusterMembershipManager.validateClusterId, hn]
    exact if_neg (not_not.mpr hcluster)
  have hnext : NodeMembershipState.active ∈ n.state.next := by
    rw [hstate]
    decide
  rw [ClusterMembershipManager.activate, ClusterMembershipManager.transition, hn]
  dsimp only
  rw [hvalid]
  dsimp only [ClusterNode.transition]
  rw [if_pos hnext]
  rfl

theorem register_cases (nodeId : String) (clusterId : Option String) :
    (store.getNode nodeId = none ∧ m.register store nodeId clusterId =
        (store.putNode ⟨nodeId, m.clusterId, .joining, 1⟩,
          .ok ⟨nodeId, m.clusterId, .joining, 1⟩)) ∨
      ∃ exc, m.register store nodeId clusterId = (store, .error exc) := by
  unfold ClusterMembershipManager.register
  rcases store.getNode nodeId with _ | n
  · dsimp only
    split_ifs with hcluster
    · exact .inr ⟨_, rfl⟩
    · exact .inl ⟨rfl, rfl⟩
  · exact .inr ⟨_, rfl⟩

theorem register_own {nodeId : String} (hn : store.getNode nodeId = none) :
    m.register store nodeId none =
    (store.putNode ⟨nodeId, m.clusterId, .joining, 1⟩, .ok ⟨nodeId, m.clusterId, .joining, 1⟩) := by
  rw [ClusterMembershipManager.register, hn]
  exact if_neg (not_not.mpr rfl)

theorem bootstrap_cases (nodeId : String) :
    (store.getNode nodeId = none ∧
      ∃ t, t = (store.putNode ⟨nodeId, m.clusterId, .joining, 1⟩).putNode
        ⟨nodeId, m.clusterId, .active, 2⟩ ∧
        m.bootstrapLocalNode store nodeId = (t, .ok ⟨nodeId, m.clusterId, .active, 2⟩)) ∨
      (∃ n, store.getNode nodeId = some n ∧ n.state = .joining ∧
        m.bootstrapLocalNode store nodeId = m.transition store nodeId .active) ∨
      ∃ n, store.getNode nodeId = some n ∧ n.state ≠ .joining ∧
        m.bootstrapLocalNode store nodeId = (store, .ok n) := by
  unfold ClusterMembershipManager.bootstrapLocalNode ClusterMembershipManager.activateJoining
  rcases hn : store.getNode nodeId with _ | n
  · have hput : (store.putNode ⟨nodeId, m.clusterId, .joining, 1⟩).getNode nodeId =
        some ⟨nodeId, m.clusterId, .joining, 1⟩ := by
      rw [getNode_putNode, if_pos rfl]
    refine .inl ⟨rfl, _, rfl, ?_⟩
    dsimp only
    rw [register_own m store hn]
    dsimp only
    rw [if_pos rfl, activate_joining m _ hput rfl rfl]
    rfl
  · dsimp only
    by_cases hstate : n.state = .joining
    · rw [if_pos hstate]
      exact .inr (.inl ⟨n, rfl, hstate, rfl⟩)
    · rw [if_neg hstate]
      exact .inr (.inr ⟨n, rfl, hstate, rfl⟩)

end

/-- Whether a store has the nodes of another but for `node`, in its file too. -/
structure Stored (store t : InMemoryEtcd) (node : ClusterNode) : Prop where
  nodes : t.getNode = Function.update store.getNode node.nodeId (some node)
  storable : store.live.Storable → t.live.Storable
  filed : store.file = some store.live → t.file = some t.live

section

variable (m : ClusterMembershipManager) (store : InMemoryEtcd)

theorem stored_putNode (node : ClusterNode) : Stored store (store.putNode node) node := by
  refine ⟨?_, fun h => h.apply (show (MetadataOp.putNode node).Storable from trivial), fun h => ?_⟩
  · funext id
    rw [getNode_putNode, Function.update_apply]
  · show store.file.map (fun _ => _) = _
    rw [h]
    rfl

theorem Stored.again {store t u : InMemoryEtcd} {node node' : ClusterNode} (h : Stored store t node)
    (h' : Stored t u node') (hid : node'.nodeId = node.nodeId) : Stored store u node' := by
  refine ⟨?_, fun hs => h'.storable (h.storable hs), fun hf => h'.filed (h.filed hf)⟩
  rw [h'.nodes, h.nodes, hid, Function.update_idem]

/-- A call that returns: it changes nothing, it registers a node there was none of, or it moves the
node there is. -/
inductive Returns (op : MemberOp) (t : InMemoryEtcd) : Prop
  | kept (hstore : t = store) (hcount : op.transitions store = 0)
  | joined (node : ClusterNode) (hnone : store.getNode op.nodeId = none)
      (hid : node.nodeId = op.nodeId)
      (hversion : node.version = 1 + op.transitions store) (hstored : Stored store t node)
  | moved (n : ClusterNode) (dest : NodeMembershipState) (hn : store.getNode op.nodeId = some n)
      (hdest : dest ∈ n.state.next) (hcount : op.transitions store = 1)
      (hstored : Stored store t (n.moved dest))
      (hjoining : op = .bootstrap op.nodeId → n.state = .joining)

/-- `transition`, for a call that makes one. -/
theorem transition_returns {op : MemberOp} {nodeId : String} {dest : NodeMembershipState}
    (hop : op.perform m store = m.transition store nodeId dest) (hid : op.nodeId = nodeId)
    (hcount : op.transitions store = 1)
    (hjoining : ∀ n, store.getNode nodeId = some n → op = .bootstrap nodeId → n.state = .joining) :
    (∃ exc, op.perform m store = (store, .error exc)) ∨
      ∃ t node, op.perform m store = (t, .ok node) ∧ Returns store op t := by
  rw [hop]
  rcases transition_cases m store nodeId dest with ⟨n, hn, hdest, ht⟩ | ⟨exc, ht⟩
  · refine .inr ⟨_, _, ht,
      .moved n dest (hid ▸ hn) hdest hcount (stored_putNode store _) fun h => ?_⟩
    exact hjoining n hn (hid ▸ h)
  · exact .inl ⟨exc, ht⟩

theorem perform_cases (op : MemberOp) :
    (∃ exc, op.perform m store = (store, .error exc)) ∨
      ∃ t node, op.perform m store = (t, .ok node) ∧ Returns store op t := by
  cases op with
  | register nodeId clusterId =>
    rcases register_cases m store nodeId clusterId with ⟨hnone, ht⟩ | ⟨exc, ht⟩
    · exact .inr ⟨_, _, ht, .joined _ hnone rfl rfl (stored_putNode store _)⟩
    · exact .inl ⟨exc, ht⟩
  | activate nodeId => exact transition_returns m store rfl rfl rfl fun _ _ h => by cases h
  | beginDrain nodeId => exact transition_returns m store rfl rfl rfl fun _ _ h => by cases h
  | remove nodeId => exact transition_returns m store rfl rfl rfl fun _ _ h => by cases h
  | bootstrap nodeId =>
    rcases bootstrap_cases m store
      nodeId with ⟨hnone, t, rfl, ht⟩ | ⟨n, hn, hstate, ht⟩ | ⟨n, hn, hstate, ht⟩
    · have hcount : (MemberOp.bootstrap nodeId).transitions store = 1 := by
        rw [MemberOp.transitions, hnone]
      refine .inr ⟨_, _, ht, .joined ⟨nodeId, m.clusterId, .active, 2⟩ hnone rfl ?_ ?_⟩
      · rw [hcount]
      · exact (stored_putNode store _).again (stored_putNode _ _) rfl
    · have hcount : (MemberOp.bootstrap nodeId).transitions store = 1 := by
        rw [MemberOp.transitions, hn]
        exact if_pos hstate
      refine transition_returns m store ht rfl hcount fun n' hn' _ => ?_
      rw [hn] at hn'
      cases hn'
      exact hstate
    · have hcount : (MemberOp.bootstrap nodeId).transitions store = 0 := by
        rw [MemberOp.transitions, hn]
        exact if_neg hstate
      exact .inr ⟨_, n, ht, .kept rfl hcount⟩

end

/-! ## Restarts -/

/-- The store that a restart makes of the file's text. -/
def reloaded (X : Externals) (times : String → Times) (store : InMemoryEtcd) :
    Option InMemoryEtcd :=
  store.file.bind fun d => (loadText X (d.persistText X times)).toData.map fun d => .init (some d)

theorem toData_loaded (d : EtcdData) (times : String → Times) :
    (d.loaded times).toData = some d := by
  have hkeyed : (∀ p ∈ (d.loaded times).shards.entries, p.2.id = p.1) ∧
      ∀ p ∈ (d.loaded times).migrations.entries, p.2.1.migrationId = p.1 := by
    constructor
    · exact fun p hp => d.shards_keyed p.1 p.2 (Dict.mem_entries.mp hp)
    · intro p hp
      obtain ⟨q, hq, rfl⟩ := List.mem_map.mp hp
      exact d.migrations_keyed q.1 q.2 (Dict.mem_entries.mp hq)
  have hentries : ((d.loaded times).migrations.entries.map fun p => (p.1, p.2.1)) =
      d.migrations.entries := by
    show (d.migrations.entries.map _).map _ = _
    rw [List.map_map]
    exact List.map_id _
  rw [LoadedData.toData, dif_pos hkeyed]
  obtain ⟨shards, nodes, migrations, hshards, hmigrations⟩ := d
  simp only [Option.some.injEq, EtcdData.mk.injEq]
  exact ⟨rfl, rfl, Dict.eq_of_entries hentries⟩

theorem reloaded_self {X : Externals} (hX : X.FloatReads) (times : String → Times)
    {store : InMemoryEtcd} (hs : store.live.Storable) (hfile : store.file = some store.live) :
    reloaded X times store = some store := by
  rw [reloaded, hfile, Option.bind_some, loadText_persistText hX hs, toData_loaded]
  obtain ⟨live, file⟩ := store
  change file = some live at hfile
  rw [hfile]
  rfl

/-! ## Runs -/

inductive MemberCall where
  | call (m : ClusterMembershipManager) (op : MemberOp)
  | reload

/-- A store, and how many transitions of each node succeeded. -/
structure Members where
  store : InMemoryEtcd
  transitions : String → Nat

namespace Members

def init (d : EtcdData) : Members := ⟨.init (some d), fun _ => 0⟩

def counted (s : Members) (op : MemberOp) (t : InMemoryEtcd) : Except Exc ClusterNode → Members
  | .ok _ =>
    ⟨t, Function.update s.transitions op.nodeId (s.transitions op.nodeId + op.transitions s.store)⟩
  | .error _ => ⟨t, s.transitions⟩

/-- `times` are those of the migrations in the store. -/
def step (X : Externals) (times : String → Times) (s : Members) : MemberCall → Option Members
  | .call m op => some (s.counted op (op.perform m s.store).1 (op.perform m s.store).2)
  | .reload => (reloaded X times s.store).map fun store => { s with store := store }

/-- What holds between calls. -/
structure Ok (s : Members) : Prop where
  storable : s.store.live.Storable
  filed : s.store.file = some s.store.live
  version : ∀ id n, s.store.getNode id = some n → n.version = 1 + s.transitions id
  absent : ∀ id, s.store.getNode id = none → s.transitions id = 0

/-- What a call may do to the nodes. -/
structure Truthful (s : Members) (call : MemberCall) (t : Members) : Prop where
  moves : ∀ id n, s.store.getNode id = some n →
    ∃ n', t.store.getNode id = some n' ∧ (n' = n ∨ ∃ dest ∈ n.state.next, n' = n.moved dest)
  refused : ∀ m op exc, call = .call m op → (op.perform m s.store).2 = .error exc →
    t.store.getNode = s.store.getNode
  bootstrap : ∀ m id n, call = .call m (.bootstrap id) → s.store.getNode id = some n →
    n.state = .draining ∨ n.state = .removed → t.store.getNode id = some n
  reload : call = .reload → t.store.getNode = s.store.getNode

variable {X : Externals} {times : String → Times} {s t : Members}

theorem truthful_of_same {call : MemberCall} (h : t.store.getNode = s.store.getNode) :
    Truthful s call t := by
  refine ⟨fun id n hn => ⟨n, ?_, .inl rfl⟩, fun _ _ _ _ _ => h, fun _ id n _ hn _ => ?_, fun _ => h⟩
  · rw [h]
    exact hn
  · rw [h]
    exact hn

theorem ok_init {d : EtcdData} (hd : d.Storable) (hnodes : d.nodes = ∅) : (init d).Ok := by
  have hnone : ∀ id, (init d).store.getNode id = none := by
    intro id
    show d.nodes.get? id = none
    rw [hnodes]
    rfl
  refine ⟨hd, rfl, fun id n hn => ?_, fun id _ => rfl⟩
  rw [hnone id] at hn
  cases hn

/-- The counts of a call that puts a node. -/
theorem ok_stored (node : ClusterNode) (hs : s.Ok) {op : MemberOp} {u : InMemoryEtcd}
    {new : ClusterNode} (hid : new.nodeId = op.nodeId)
    (hversion : new.version = 1 + (s.transitions op.nodeId + op.transitions s.store))
    (hstored : Stored s.store u new) :
    (s.counted op u (.ok node)).Ok ∧ ∀ id, u.getNode id = if id = op.nodeId then some new
      else s.store.getNode id := by
  have hnodes : ∀ id, u.getNode id = if id = op.nodeId then some new else s.store.getNode id := by
    intro id
    rw [hstored.nodes, hid, Function.update_apply]
  have hcounts : ∀ id, (s.counted op u (.ok node)).transitions id =
      if id = op.nodeId then s.transitions op.nodeId + op.transitions s.store
        else s.transitions id :=
    fun id => Function.update_apply _ _ _ _
  refine ⟨⟨hstored.storable hs.storable, hstored.filed hs.filed, fun id n hn =>
    ?_, fun id hn => ?_⟩, hnodes⟩
  · change u.getNode id = some n at hn
    rw [hnodes id] at hn
    rw [hcounts id]
    split_ifs at hn ⊢ with h
    · cases hn
      exact hversion
    · exact hs.version id n hn
  · change u.getNode id = none at hn
    rw [hnodes id] at hn
    rw [hcounts id]
    split_ifs at hn ⊢ with h
    exact hs.absent id hn

/-- A call that returns. -/
theorem ok_returns (hs : s.Ok) {m : ClusterMembershipManager} {op : MemberOp} {u : InMemoryEtcd}
    {node : ClusterNode} (hop : op.perform m s.store = (u, .ok node)) (hr : Returns s.store op u) :
    (s.counted op u (.ok node)).Ok ∧ Truthful s (.call m op) (s.counted op u (.ok node)) := by
  have hok : ∀ m' op' exc, MemberCall.call m op = .call m' op' →
      (op'.perform m' s.store).2 = .error exc → False := by
    intro m' op' exc hcall herr
    cases hcall
    rw [hop] at herr
    cases herr
  cases hr with
  | kept hstore hcount =>
    subst hstore
    have htransitions : (s.counted op s.store (.ok node)).transitions = s.transitions := by
      show Function.update s.transitions op.nodeId
        (s.transitions op.nodeId + op.transitions s.store) = _
      rw [hcount, Nat.add_zero, Function.update_eq_self]
    refine ⟨⟨hs.storable, hs.filed, ?_, ?_⟩, truthful_of_same rfl⟩
    · rw [htransitions]
      exact hs.version
    · rw [htransitions]
      exact hs.absent
  | joined new hnone hid hversion hstored =>
    obtain ⟨hs', hnodes⟩ :=
      ok_stored node hs hid (by rw [hs.absent _ hnone, Nat.zero_add, hversion]) hstored
    refine ⟨hs', fun id n hn => ⟨n, ?_, .inl rfl⟩, fun m' op' exc hcall herr =>
      (hok m' op' exc hcall herr).elim, fun m' id n hcall hn _ => ?_, fun hcall => by cases hcall⟩
    · have hne : id ≠ op.nodeId := by
        rintro rfl
        rw [hnone] at hn
        cases hn
      show u.getNode id = some n
      rw [hnodes id, if_neg hne]
      exact hn
    · cases hcall
      rw [show s.store.getNode id = none from hnone] at hn
      cases hn
  | moved n dest hn hdest hcount hstored hjoining =>
    have hversion : (n.moved dest).version = 1 +
        (s.transitions op.nodeId + op.transitions s.store) := by
      rw [hcount, ← Nat.add_assoc, ← hs.version _ n hn]
      rfl
    have hid : (n.moved dest).nodeId = op.nodeId := hs.storable.nodes_keyed _ n hn
    obtain ⟨hs', hnodes⟩ := ok_stored node hs hid hversion hstored
    refine ⟨hs', fun id n' hn' => ?_, fun m' op' exc hcall herr => (hok m' op' exc hcall herr).elim,
      fun m' id n' hcall hn' hstate => ?_, fun hcall => by cases hcall⟩
    · show ∃ n'', u.getNode id = some n'' ∧ _
      rw [hnodes id]
      by_cases hid : id = op.nodeId
      · rw [hid, hn] at hn'
        cases hn'
        rw [if_pos hid]
        exact ⟨_, rfl, .inr ⟨dest, hdest, rfl⟩⟩
      · rw [if_neg hid]
        exact ⟨n', hn', .inl rfl⟩
    · cases hcall
      rw [show s.store.getNode id = some n from hn] at hn'
      cases hn'
      rw [hjoining rfl] at hstate
      rcases hstate with h | h <;> cases h

variable (times) in
/-- Every call is made, and is truthful. -/
theorem step_ok (hX : X.FloatReads) (hs : s.Ok) (call : MemberCall) :
    ∃ t, step X times s call = some t ∧ t.Ok ∧ Truthful s call t := by
  cases call with
  | call m op =>
    refine ⟨_, rfl, ?_⟩
    rcases perform_cases m s.store op with ⟨exc, h⟩ | ⟨u, node, h, hr⟩
    · rw [h]
      exact ⟨hs, truthful_of_same rfl⟩
    · rw [h]
      exact ok_returns hs h hr
  | reload =>
    refine ⟨s, ?_, hs, truthful_of_same rfl⟩
    rw [step, reloaded_self hX times hs.storable hs.filed]
    rfl

variable (times) in
theorem run_ok (hX : X.FloatReads) (hs : s.Ok) (calls : List MemberCall) :
    ∃ t, run (step X times) s calls = some t ∧ t.Ok := by
  induction calls generalizing s with
  | nil => exact ⟨s, rfl, hs⟩
  | cons call calls ih =>
    obtain ⟨u, hu, hok, -⟩ := step_ok times hX hs call
    obtain ⟨t, ht, htok⟩ := ih hok
    exact ⟨t, run_cons_eq_some.mpr ⟨u, hu, ht⟩, htok⟩

/-- What the calls of a run make of a node there is. -/
theorem run_keeps (hX : X.FloatReads) (hs : s.Ok) {calls : List MemberCall}
    (hr : run (step X times) s calls = some t) {id : String} {n : ClusterNode}
    (hn : s.store.getNode id = some n) :
    ∃ n', t.store.getNode id = some n' ∧ n'.clusterId = n.clusterId ∧
      Relation.ReflTransGen (fun a b => b ∈ NodeMembershipState.next a) n.state n'.state ∧
      (n.state = .removed → n' = n) := by
  induction calls generalizing s n with
  | nil =>
    cases hr
    exact ⟨n, hn, rfl, .refl, fun _ => rfl⟩
  | cons call calls ih =>
    obtain ⟨u, hu, hr⟩ := run_cons_eq_some.mp hr
    obtain ⟨u', hu', hok, htruth⟩ := step_ok times hX hs call
    rw [hu] at hu'
    cases hu'
    obtain ⟨n', hn', hmove⟩ := htruth.moves id n hn
    obtain ⟨n'', hn'', hcluster, hreach, hremoved⟩ := ih hok hr hn'
    refine ⟨n'', hn'', ?_⟩
    rcases hmove with rfl | ⟨dest, hdest, rfl⟩
    · exact ⟨hcluster, hreach, hremoved⟩
    · refine ⟨hcluster, hreach.head hdest, fun hstate => ?_⟩
      rw [hstate] at hdest
      cases hdest

/-- Calls of any managers on one store, and restarts, from a store without nodes. -/
theorem membership_is_truthful (hX : X.FloatReads) {d : EtcdData} (hd : d.Storable)
    (hnodes : d.nodes = ∅) (calls : List MemberCall) :
    ∃ s, run (step X times) (init d) calls = some s ∧
      (∀ id n, s.store.getNode id = some n → n.version = 1 + s.transitions id) ∧
      (∀ call, ∃ t, step X times s call = some t ∧ Truthful s call t) ∧
      ∀ later t, run (step X times) s later = some t → ∀ id n, s.store.getNode id = some n →
        ∃ n', t.store.getNode id = some n' ∧ n'.clusterId = n.clusterId ∧
          Relation.ReflTransGen (fun a b => b ∈ NodeMembershipState.next a) n.state n'.state ∧
          (n.state = .removed → n' = n) := by
  obtain ⟨s, hr, hs⟩ := run_ok times hX (ok_init hd hnodes) calls
  refine ⟨s, hr, hs.version, fun call => ?_, fun later t ht id n hn => run_keeps hX hs ht hn⟩
  obtain ⟨t, ht, -, htruth⟩ := step_ok times hX hs call
  exact ⟨t, ht, htruth⟩

/-- A node of one cluster, and a manager of another. -/
theorem two_managers_truthful :
    let calls : List MemberCall :=
      [.call ⟨"a"⟩ (.bootstrap "n1"), .call ⟨"b"⟩ (.activate "n1"),
        .call ⟨"a"⟩ (.beginDrain "n1"), .reload,
        .call ⟨"b"⟩ (.bootstrap "n1"), .call ⟨"a"⟩ (.remove "n1"),
          .call ⟨"b"⟩ (.register "n1" none)]
    ∃ s, run (step readable fun _ => (0, 0)) (init ∅) calls = some s ∧
      (∀ id n, s.store.getNode id = some n → n.version = 1 + s.transitions id) ∧
      (∀ call, ∃ t, step readable (fun _ => (0, 0)) s call = some t ∧ Truthful s call t) ∧
      ∀ later t, run (step readable fun _ => (0, 0)) s later = some t →
        ∀ id n, s.store.getNode id = some n →
        ∃ n', t.store.getNode id = some n' ∧ n'.clusterId = n.clusterId ∧
          Relation.ReflTransGen (fun a b => b ∈ NodeMembershipState.next a) n.state n'.state ∧
          (n.state = .removed → n' = n) :=
  membership_is_truthful readable_floatReads storable_empty rfl _

end Members

end Vsector.Cluster
