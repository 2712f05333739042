import Vsector.Impl.Sharding.LifecycleCalls
import Vsector.Proof.Sharding.LifecycleStates

/-!
# Rejected lifecycle calls

A call on the store's own shard is the same call on the object
(`get_perform`). What a call that raises leaves of the owner, the replicas,
the state and the version: a transition restores all of them whatever `put`
does, `create` assigns before it checks, and `change_owner` keeps the new
version where `put` raises. `Restores` is exactly when nothing changes
(`rejected_unchanged_iff`).
-/

namespace Vsector.Sharding

namespace ShardLifecycleManager

variable {lm : ShardLifecycleManager} {e : InMemoryEtcd} {put : Shard → Except Exc Unit}
  {shard : Shard}

/-- The shard is as it was: the same owner, replicas, state and version. -/
structure Unchanged (shard shard' : Shard) : Prop where
  nodeId : shard'.nodeId = shard.nodeId
  replicas : shard'.replicas = shard.replicas
  state : shard'.state = shard.state
  version : shard'.version = shard.version

/-- If the call raised, the shard is as it was. -/
def RejectedUnchanged (shard : Shard) (outcome : CallOutcome) : Prop :=
  ∀ exc, outcome.2 = .error exc → Unchanged shard outcome.1

/-- `create` is accepted and stored, or is given nothing new; `put` does not raise in
`change_owner`. -/
def Restores (lm : ShardLifecycleManager) (e : InMemoryEtcd) (put : Shard → Except Exc Unit)
    (shard : Shard) :
    LifecycleCall → Prop
  | .create owner replicas =>
    CreateAccepts lm e shard owner replicas ∧ put (registered shard owner replicas) = .ok () ∨
      owner.getD shard.nodeId = shard.nodeId ∧ replicas.getD shard.replicas = shard.replicas ∧
        (CreateAccepts lm e shard owner replicas → shard.state = .creating)
  | .changeOwner newOwner replicas =>
    ChangeOwnerAccepts lm e shard newOwner replicas →
      put (reassigned shard newOwner replicas) = .ok ()
  | .transition _ | .activate | .beginDrain | .retire => True

/-- A call on the store's own shard leaves there what the call on the object leaves. -/
theorem get_perform {id : String} (h : e.get id = some shard) (call : LifecycleCall) :
    (lm.perform e (call.on (.stored id))).get id =
      some (lm.performOn e (fun _ => .ok ()) shard call).1 := by
  have hid : shard.id = id := InMemoryEtcd.shard_id h
  have hput : ∀ (e : InMemoryEtcd) (s : Shard), s.id = id → (e.put s).get id = some s :=
    fun e s hs =>
    InMemoryEtcd.get_put.trans (if_pos hs.symm)
  have htransition : ∀ dest, (transition e (.stored id) dest).1.get id =
      some (transitionOn (fun _ => .ok ()) shard dest).1 := by
    intro dest
    have harg : ShardArg.shard e (.stored id) = some shard := h
    unfold transition transitionOn Shard.transition
    rw [harg]
    dsimp only
    by_cases hd : dest ∈ shard.state.next
    · rw [if_pos hd]
      exact hput _ _ hid
    · rw [if_neg hd]
      exact h
  cases call with
  | create owner replicas =>
    show (lm.create e (.stored id) owner replicas).1.get id =
      some (lm.createOn e _ shard owner replicas).1
    have harg : ShardArg.shard e (.stored id) = some shard := h
    unfold create createOn
    rw [harg]
    have hset : ∀ s : Shard, s.id = id → (e.setShard s).get id = some s := fun s hs =>
      InMemoryEtcd.get_setShard.trans (if_pos hs.symm)
    have hmember : ∀ (s : Shard) node, lm.validateMember (e.setShard s) node =
        lm.validateMember e node := fun _ _ => rfl
    dsimp only [ShardArg.write]
    rcases Shard.validateOwnership
      { shard with
        nodeId := owner.getD shard.nodeId, replicas := replicas.getD shard.replicas } with exc | ⟨⟩
    · exact hset _ hid
    · dsimp only
      rw [hmember]
      rcases lm.validateMember e (owner.getD shard.nodeId) with exc | ⟨⟩
      · exact hset _ hid
      · exact hput _ _ hid
  | transition dest => exact htransition dest
  | activate => exact htransition .active
  | beginDrain => exact htransition .draining
  | retire => exact htransition .offline
  | changeOwner newOwner replicas =>
    show (lm.changeOwner e (.stored id) newOwner replicas).1.get id =
      some (lm.changeOwnerOn e _ shard newOwner replicas).1
    have harg : ShardArg.shard e (.stored id) = some shard := h
    unfold changeOwner changeOwnerOn
    rw [harg]
    dsimp only
    split
    · exact h
    · split
      · exact h
      · rcases lm.validateMember e newOwner with exc | ⟨⟩
        · exact h
        · dsimp only
          split
          · exact h
          · exact hput _ _ hid

variable (lm e put shard) in
/-- What `create` leaves, by what it accepts. -/
theorem createOn_eq (owner : Option String) (replicas : Option (List String)) :
    (CreateAccepts lm e shard owner replicas ∧
        lm.createOn e put shard owner replicas =
          (registered shard owner replicas, put (registered shard owner replicas))) ∨
      ¬ CreateAccepts lm e shard owner replicas ∧ ∃ exc,
        lm.createOn e put shard owner replicas =
          ({ shard with
            nodeId := owner.getD shard.nodeId, replicas :=
            replicas.getD shard.replicas }, .error exc) := by
  unfold createOn CreateAccepts
  dsimp only
  split
  · rename_i exc hexc
    refine .inr ⟨fun h => ?_, exc, rfl⟩
    rw [h.1] at hexc
    cases hexc
  · rename_i hok
    split
    · rename_i exc hexc
      refine .inr ⟨fun h => ?_, exc, rfl⟩
      rw [h.2] at hexc
      cases hexc
    · rename_i hokm
      exact .inl ⟨⟨hok, hokm⟩, rfl⟩

theorem rejected_create_iff (owner : Option String) (replicas : Option (List String)) :
    RejectedUnchanged shard (lm.createOn e put shard owner replicas) ↔
      Restores lm e put shard (.create owner replicas) := by
  obtain ⟨haccepts, heq⟩ | ⟨hrefuses, exc, heq⟩ := createOn_eq lm e put shard owner replicas
  · rw [heq]
    constructor
    · intro h
      rcases hput : put (registered shard owner replicas) with exc | ⟨⟩
      · have hu := h exc hput
        exact .inr ⟨hu.nodeId, hu.replicas, fun _ => hu.state.symm⟩
      · exact .inl ⟨haccepts, hput⟩
    · rintro (⟨-, hput⟩ | ⟨hnode, hreplicas, hstate⟩) exc hexc
      · rw [hput] at hexc
        cases hexc
      · exact ⟨hnode, hreplicas, (hstate haccepts).symm, rfl⟩
  · rw [heq]
    constructor
    · intro h
      have hu := h exc rfl
      exact .inr ⟨hu.nodeId, hu.replicas, fun h => absurd h hrefuses⟩
    · rintro (⟨haccepts, -⟩ | ⟨hnode, hreplicas, -⟩) exc' -
      · exact absurd haccepts hrefuses
      · exact ⟨hnode, hreplicas, rfl, rfl⟩

/-- A transition restores what it changed. -/
theorem rejected_transition (dest : ShardState) :
    RejectedUnchanged shard (transitionOn put shard dest) := by
  intro exc h
  unfold transitionOn at *
  rcases ht : shard.transition dest with exc' | moved
  · exact ⟨rfl, rfl, rfl, rfl⟩
  · have hmoved : moved.nodeId = shard.nodeId ∧ moved.replicas = shard.replicas := by
      unfold Shard.transition at ht
      split at ht
      · cases ht
        exact ⟨rfl, rfl⟩
      · cases ht
    rw [ht] at h
    dsimp only at h ⊢
    rcases hput : put moved with exc' | ⟨⟩
    · exact ⟨hmoved.1, hmoved.2, rfl, rfl⟩
    · rw [hput] at h
      cases h

variable (lm e put shard) in
theorem changeOwnerOn_eq (newOwner : String) (replicas : Option (List String)) :
    (ChangeOwnerAccepts lm e shard newOwner replicas ∧
        lm.changeOwnerOn e put shard newOwner replicas =
          match put (reassigned shard newOwner replicas) with
          | .ok () => (reassigned shard newOwner replicas, .ok ())
          | .error exc =>
            ({ reassigned shard newOwner replicas with
              nodeId := shard.nodeId, replicas := shard.replicas }, .error exc)) ∨
      ¬ ChangeOwnerAccepts lm e shard newOwner replicas ∧ ∃ exc,
        lm.changeOwnerOn e put shard newOwner replicas = (shard, .error exc) := by
  unfold changeOwnerOn ChangeOwnerAccepts
  split
  · rename_i hstate
    exact .inr ⟨fun h => hstate h.1, _, rfl⟩
  · rename_i hstate
    split
    · rename_i hempty
      exact .inr ⟨fun h => h.2.1 hempty, _, rfl⟩
    · rename_i hempty
      split
      · rename_i exc hexc
        refine .inr ⟨fun h => ?_, exc, rfl⟩
        rw [h.2.2.1] at hexc
        cases hexc
      · rename_i hok
        dsimp only
        split
        · rename_i hmem
          exact .inr ⟨fun h => h.2.2.2 hmem, _, rfl⟩
        · rename_i hmem
          exact .inl ⟨⟨not_not.mp hstate, hempty, hok, hmem⟩, rfl⟩

theorem rejected_changeOwner_iff (newOwner : String) (replicas : Option (List String)) :
    RejectedUnchanged shard (lm.changeOwnerOn e put shard newOwner replicas) ↔
      Restores lm e put shard (.changeOwner newOwner replicas) := by
  obtain ⟨haccepts, heq⟩ | ⟨hrefuses, exc, heq⟩ :=
    changeOwnerOn_eq lm e put shard newOwner replicas
  · rw [heq]
    rcases hput : put (reassigned shard newOwner replicas) with exc | ⟨⟩
    · refine iff_of_false (fun h => ?_) fun h => ?_
      · -- the version that was raised stays
        have hversion : shard.version + 1 = shard.version := (h exc rfl).version
        omega
      · rw [h haccepts] at hput
        cases hput
    · exact iff_of_true nofun fun _ => hput
  · rw [heq]
    exact iff_of_true (fun _ _ => ⟨rfl, rfl, rfl, rfl⟩) fun h => absurd h hrefuses

/-- A call that raises leaves the shard as it was exactly under `Restores`. -/
theorem rejected_unchanged_iff (lm : ShardLifecycleManager) (e : InMemoryEtcd)
    (put : Shard → Except Exc Unit) (shard : Shard) (call : LifecycleCall) :
    RejectedUnchanged shard (lm.performOn e put shard call) ↔ Restores lm e put shard call := by
  cases call with
  | create owner replicas => exact rejected_create_iff owner replicas
  | transition dest => exact iff_of_true (rejected_transition dest) trivial
  | activate => exact iff_of_true (rejected_transition .active) trivial
  | beginDrain => exact iff_of_true (rejected_transition .draining) trivial
  | retire => exact iff_of_true (rejected_transition .offline) trivial
  | changeOwner newOwner replicas => exact rejected_changeOwner_iff newOwner replicas

private def drained : Shard := ⟨"s", "ns", "node-0", .draining, 0, 10, ["node-1"], 3⟩

/-- `create` refuses an owner that is a replica once it has made it the owner. -/
theorem rejected_changes :
    ¬ ∀ lm e put shard call, RejectedUnchanged shard (performOn lm e put shard call) := by
  intro h
  have hnode :=
    (h ⟨false⟩ (.init none) (fun _ => .ok ()) drained (.create (some "node-1") none) _ rfl).nodeId
  revert hnode
  decide

private def diskFull : Shard → Except Exc Unit :=
  fun _ => .error (.other "OSError" "No space left on device")

/-- `change_owner` keeps the version it has raised where `put` raises. -/
theorem changeOwner_keeps_version : ¬ RejectedUnchanged drained
    (performOn ⟨false⟩ (.init none) diskFull drained (.changeOwner "node-2" none)) := by
  intro h
  have hversion := (h _ rfl).version
  revert hversion
  decide

end ShardLifecycleManager

end Vsector.Sharding
