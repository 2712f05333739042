import Vsector.Impl.Sharding.Placement
import Vsector.Proof.Models.Documents
import Vsector.Proof.Sharding.Router

/-!
# The write gate and the write decision

`route_write` and `route_write_decision` check the shard that a record is
selected for in two places (`agrees_gate`): what the first returns or raises,
and the kind of the second, say the same (`write_gate_agrees`).
-/

namespace Vsector.Sharding

open Models Cluster

/-- A lifecycle, ownership or membership error other than an ownership mismatch. -/
def refusal : Exc → Bool
  | .shardCreating .. | .shardDraining .. | .shardOffline .. | .noPrimaryOwner ..
  | .ownershipConflict .. => true
  | .unknownNode _ | .removedNode _ | .clusterIdMismatch .. => true
  | _ => false

theorem refusal_stateError (shard : Shard) : refusal (stateError shard) = true := by
  unfold stateError
  split <;> rfl

namespace ShardRouter

variable {X : Externals} {r : ShardRouter} {ns recordId localNode : String} {shard : Shard}

/-- What the gate makes of a request, beside the decision. -/
inductive Agrees (ns localNode : String) : Except Exc Shard → Except Exc RoutingDecision → Prop
  | writable (shard : Shard) (d : RoutingDecision) (htype : d.routeType = .localNode)
      (hid : d.shardId = shard.id) :
      Agrees ns localNode (.ok shard) (.ok d)
  | elsewhere (shardId owner : String) (d : RoutingDecision) (htype : d.routeType = .remote)
      (hid : d.shardId = shardId)
      (htarget : d.target = some owner) :
      Agrees ns localNode (.error (.ownershipMismatch ns shardId owner localNode)) (.ok d)
  | refused (exc : Exc) (d : RoutingDecision) (hexc : refusal exc = true)
      (htype : d.routeType = .unavailable) :
      Agrees ns localNode (.error exc) (.ok d)
  | unplaced (exc exc' : Exc) (hexc : refusal exc = false)
      (hmismatch : ∀ ns' shardId owner node, exc ≠ .ownershipMismatch ns' shardId owner node) :
      Agrees ns localNode (.error exc) (.error exc')

/-- The membership check of both. -/
theorem validateOwner_cases (howner : shard.nodeId ≠ "") :
    (r.validateOwner shard = .ok () ∧ ∃ state, r.ownerReason shard.nodeId = .ok (state, none)) ∨
      ∃ exc, r.validateOwner shard = .error exc ∧ refusal exc = true ∧
        ∃ state reason, r.ownerReason shard.nodeId = .ok (state, some reason) := by
  unfold validateOwner ownerReason
  rcases r.membership with _ | m
  · exact .inl ⟨rfl, none, rfl⟩
  · have hrequire : shard.requireOwner = .ok shard.nodeId := if_neg howner
    dsimp only
    rw [hrequire]
    show (ClusterMembershipManager.validateNode r.etcd shard.nodeId = .ok () ∧ _) ∨
      ∃ exc, ClusterMembershipManager.validateNode r.etcd shard.nodeId = .error exc ∧ _
    unfold ClusterMembershipManager.validateNode
    rcases r.etcd.getNode shard.nodeId with _ | n
    · exact .inr ⟨_, rfl, rfl, _, _, rfl⟩
    · by_cases hstate : n.state = .removed
      · dsimp only
        rw [if_pos hstate]
        exact .inr ⟨_, rfl, rfl, _, _, rfl⟩
      · dsimp only
        rw [if_neg hstate]
        exact .inl ⟨rfl, _, rfl⟩

theorem routeWrite_of_select (hselect : r.select X ns recordId = .ok shard) (node : Option String) :
    r.routeWrite X ns recordId node =
      if shard.state ≠ .active then .error (stateError shard)
      else (r.validateOwner shard).bind fun _ => (checkOwner ns shard node).map fun _ => shard := by
  rw [routeWrite, hselect]
  dsimp only
  rcases r.validateOwner shard with exc | ⟨⟩ <;> rfl

/-- Behind the selection. -/
theorem agrees_gate (hselect : r.select X ns recordId = .ok shard) :
    Agrees ns localNode (r.routeWrite X ns recordId (some localNode))
      (r.decisionFor ns shard (some localNode) .write) := by
  rw [routeWrite_of_select hselect]
  unfold decisionFor
  by_cases hactive : shard.state = .active
  · have hreason : stateReason shard .write = none := if_pos hactive
    rw [if_neg (not_not.mpr hactive), hreason]
    by_cases howner : shard.nodeId = ""
    · have hrequire : shard.requireOwner = .error (.noPrimaryOwner shard.ns shard.id) :=
        if_pos howner
      have hvalidate : r.validateOwner shard = .ok () ∨
          r.validateOwner shard = .error (.noPrimaryOwner shard.ns shard.id) := by
        unfold validateOwner
        rcases r.membership with _ | m
        · exact .inl rfl
        · exact .inr (by rw [hrequire]; rfl)
      have hgate : ((r.validateOwner shard).bind fun _ =>
          (checkOwner ns shard (some localNode)).map fun _ => shard) =
          .error (.noPrimaryOwner shard.ns shard.id) := by
        rcases hvalidate with h | h
        · rw [h]
          unfold checkOwner
          rw [hrequire]
          rfl
        · rw [h]
          rfl
      rw [hgate, if_pos howner]
      exact .refused _ _ rfl rfl
    · rw [if_neg howner]
      rcases validateOwner_cases (r := r) howner with ⟨hvalid, state, hstate⟩ | ⟨exc, hexc,
        hrefusal, state, reason, hstate⟩
      · have hcheck : checkOwner ns shard (some localNode) =
            if shard.nodeId ≠ localNode then
              .error (.ownershipMismatch ns shard.id shard.nodeId localNode) else .ok () := by
          unfold checkOwner
          rw [show shard.requireOwner = .ok shard.nodeId from if_neg howner]
        rw [hvalid]
        dsimp only
        rw [hstate, hcheck]
        by_cases hlocal : shard.nodeId = localNode
        · rw [if_neg (not_not.mpr hlocal)]
          exact .writable shard _ (by simp [hlocal]) rfl
        · rw [if_pos hlocal]
          exact .elsewhere _ shard.nodeId _ (by simp [hlocal]) rfl rfl
      · rw [hexc]
        dsimp only
        rw [hstate]
        exact .refused _ _ hrefusal rfl
  · have hreason : ∃ reason, stateReason shard .write = some reason := ⟨_, if_neg hactive⟩
    obtain ⟨reason, hreason⟩ := hreason
    rw [if_pos hactive, hreason]
    exact .refused _ _ (refusal_stateError shard) rfl

/-- The errors of the selection. -/
theorem select_error {exc : Exc} (h : r.select X ns recordId = .error exc) : refusal exc = false ∧
    ∀ ns' shardId owner node, exc ≠ .ownershipMismatch ns' shardId owner node := by
  unfold select RendezvousHash.getNode at h
  dsimp only at h
  split at h
  · cases h
    exact ⟨rfl, fun _ _ _ _ h => by cases h⟩
  · split at h
    · rename_i exc' hring
      split at hring
      · cases hring
        cases h
        exact ⟨rfl, fun _ _ _ _ h => by cases h⟩
      · cases hring
    · split at h
      · cases h
      · split at h
        · cases h
        · cases h
          exact ⟨rfl, fun _ _ _ _ h => by cases h⟩

theorem agrees : Agrees ns localNode (r.routeWrite X ns recordId (some localNode))
    (r.routeWriteDecision X ns recordId (some localNode)) := by
  unfold routeWriteDecision decide
  rcases hselect : r.select X ns recordId with exc | shard
  · obtain ⟨hrefusal, hmismatch⟩ := select_error hselect
    have hgate : r.routeWrite X ns recordId (some localNode) = .error exc := by
      rw [routeWrite, hselect]
    have hdecision : ∃ exc', r.selectOrRaise X ns recordId = .error exc' := by
      unfold selectOrRaise
      rw [hselect]
      cases exc <;> exact ⟨_, rfl⟩
    obtain ⟨exc', hdecision⟩ := hdecision
    rw [hgate, hdecision]
    exact .unplaced exc exc' hrefusal hmismatch
  · have hdecision : r.selectOrRaise X ns recordId = .ok shard := by
      unfold selectOrRaise
      rw [hselect]
    rw [hdecision]
    exact agrees_gate hselect

/-- The gate returns the shard of a local decision, raises a mismatch with the owner of a remote
one, and any other error of the lifecycle, the ownership or the membership where there is no way to
serve the request. -/
theorem write_gate_agrees (X : Externals) (r : ShardRouter) (ns recordId localNode : String) :
    let gate := r.routeWrite X ns recordId (some localNode)
    let decision := r.routeWriteDecision X ns recordId (some localNode)
    (∀ s ∈ r.etcd.listByNamespace ns, gate = .ok s ↔
        ∃ d, decision = .ok d ∧ d.routeType = .localNode ∧ d.shardId = s.id) ∧
      ((∃ s, gate = .ok s) ↔ ∃ d, decision = .ok d ∧ d.routeType = .localNode) ∧
      (∀ shardId owner, gate = .error (.ownershipMismatch ns shardId owner localNode) ↔
        ∃ d, decision = .ok d ∧ d.routeType = .remote ∧ d.shardId = shardId ∧
          d.target = some owner) ∧
      ((∃ ns' shardId owner node, gate = .error (.ownershipMismatch ns' shardId owner node)) ↔
        ∃ d, decision = .ok d ∧ d.routeType = .remote) ∧
      ((∃ exc, gate = .error exc ∧ refusal exc = true) ↔
        ∃ d, decision = .ok d ∧ d.routeType = .unavailable) := by
  intro gate decision
  have hagrees : Agrees ns localNode gate decision := agrees
  have hmem : ∀ s, gate = .ok s → s ∈ r.etcd.listByNamespace ns := fun s hs => routeWrite_mem hs
  generalize gate = g at hagrees hmem ⊢
  generalize decision = d at hagrees ⊢
  cases hagrees with
  | writable shard d htype hid =>
    refine ⟨fun s hs => ?_, ?_, ?_, ?_, ?_⟩
    · simp only [Except.ok.injEq, exists_eq_left', htype, true_and, hid]
      refine ⟨fun h => by rw [h], fun h => ?_⟩
      have hget := (InMemoryEtcd.mem_listByNamespace.mp (hmem shard rfl)).1
      rw [h, (InMemoryEtcd.mem_listByNamespace.mp hs).1] at hget
      exact (Option.some.inj hget).symm
    · simp [htype]
    · simp [htype]
    · simp [htype]
    · simp [htype]
  | elsewhere shardId owner d htype hid htarget =>
    refine ⟨fun s hs => ?_, ?_, ?_, ?_, ?_⟩
    · simp [htype]
    · simp [htype]
    · simp [htype, hid, htarget]
    · simp [htype]
    · simp [htype, refusal]
  | refused exc d hexc htype =>
    have hmismatch : ∀ ns' shardId owner node, exc ≠ .ownershipMismatch ns' shardId owner node := by
      rintro ns' shardId owner node rfl
      cases hexc
    refine ⟨fun s hs => ?_, ?_, ?_, ?_, ?_⟩
    · simp [htype]
    · simp [htype]
    · simp [htype, hmismatch]
    · simp [htype, hmismatch]
    · simp [htype, hexc]
  | unplaced exc exc' hexc hmismatch =>
    refine ⟨fun s hs => ?_, ?_, ?_, ?_, ?_⟩
    · simp
    · simp
    · simp [hmismatch]
    · simp [hmismatch]
    · simp [hexc]

/-- A shard of another node. -/
theorem write_gate_agrees_elsewhere :
    let r : ShardRouter :=
      ⟨(InMemoryEtcd.init none).put ⟨"s-1", "docs", "n2", .active, 0, 10, [], 1⟩, none⟩
    let gate := r.routeWrite fieldwise "docs" "a" (some "n1")
    let decision := r.routeWriteDecision fieldwise "docs" "a" (some "n1")
    (∀ s ∈ r.etcd.listByNamespace "docs", gate = .ok s ↔
        ∃ d, decision = .ok d ∧ d.routeType = .localNode ∧ d.shardId = s.id) ∧
      ((∃ s, gate = .ok s) ↔ ∃ d, decision = .ok d ∧ d.routeType = .localNode) ∧
      (∀ shardId owner, gate = .error (.ownershipMismatch "docs" shardId owner "n1") ↔
        ∃ d, decision = .ok d ∧ d.routeType = .remote ∧ d.shardId = shardId ∧
          d.target = some owner) ∧
      ((∃ ns' shardId owner node, gate = .error (.ownershipMismatch ns' shardId owner node)) ↔
        ∃ d, decision = .ok d ∧ d.routeType = .remote) ∧
      ((∃ exc, gate = .error exc ∧ refusal exc = true) ↔
        ∃ d, decision = .ok d ∧ d.routeType = .unavailable) :=
  write_gate_agrees fieldwise _ "docs" "a" "n1"

end ShardRouter

end Vsector.Sharding
