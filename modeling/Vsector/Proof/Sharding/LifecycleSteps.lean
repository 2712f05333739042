import Vsector.Impl.Sharding.Lifecycle

/-!
# What a lifecycle call does

Each call of `ShardLifecycleManager` is refused, or stores the shard it was
given in one changed form (`transition_cases`, `changeOwner_cases`,
`create_cases`). A `create` that is refused has changed the owner and the
replicas of the store's own shard before it checks them.
-/

namespace Vsector.Sharding

open Framework Cluster

/-- What `create` requires of the owner and the replicas. -/
def CreateAccepts (lm : ShardLifecycleManager) (e : InMemoryEtcd) (shard : Shard)
    (owner : Option String) (replicas : Option (List String)) : Prop :=
  Shard.validateOwnership { shard with
    nodeId := owner.getD shard.nodeId, replicas := replicas.getD shard.replicas } = .ok () ∧
    lm.validateMember e (owner.getD shard.nodeId) = .ok ()

/-- What `change_owner` requires. -/
def ChangeOwnerAccepts (lm : ShardLifecycleManager) (e : InMemoryEtcd) (shard : Shard)
    (newOwner : String) (replicas : Option (List String)) : Prop :=
  shard.state = .draining ∧ newOwner ≠ "" ∧ lm.validateMember e newOwner = .ok () ∧
  newOwner ∉ replicas.getD shard.replicas

namespace ShardLifecycleManager

/-- The shard with the owner and the replicas that `create` is given. -/
def assigned (shard : Shard) (owner : Option String) (replicas : Option (List String)) : Shard :=
  { shard with nodeId := owner.getD shard.nodeId, replicas := replicas.getD shard.replicas }

/-- The shard as `create` stores it. -/
def registered (shard : Shard) (owner : Option String) (replicas : Option (List String)) : Shard :=
  { assigned shard owner replicas with state := .creating }

/-- The shard as a transition stores it. -/
def moved (shard : Shard) (dest : ShardState) : Shard :=
  { shard with state := dest, version := shard.version + 1 }

/-- The shard as `change_owner` stores it. -/
def reassigned (shard : Shard) (newOwner : String) (replicas : Option (List String)) : Shard :=
  { shard with
    nodeId := newOwner, replicas := replicas.getD shard.replicas, version := shard.version + 1 }

variable (lm : ShardLifecycleManager) (e : InMemoryEtcd)

theorem validateMember_write (arg : ShardArg) (shard : Shard) (node : String) :
    lm.validateMember (arg.write e shard) node = lm.validateMember e node := by cases arg <;> rfl

theorem transition_cases (arg : ShardArg) (dest : ShardState) :
    (∃ shard, arg.shard e = some shard ∧ dest ∈ shard.state.next ∧
      (transition e arg dest).1 = e.put (moved shard dest)) ∨
      (∀ shard, arg.shard e = some shard → dest ∉ shard.state.next) ∧
      (transition e arg dest).1 = e := by
  unfold transition Shard.transition
  rcases arg.shard e with _ | shard
  · exact .inr ⟨nofun, rfl⟩
  · dsimp only
    by_cases hd : dest ∈ shard.state.next
    · rw [if_pos hd]
      exact .inl ⟨shard, rfl, hd, rfl⟩
    · rw [if_neg hd]
      exact .inr ⟨fun s hs => by cases hs; exact hd, rfl⟩

theorem changeOwner_cases (arg : ShardArg) (newOwner : String) (replicas : Option (List String)) :
    (∃ shard, arg.shard e = some shard ∧ ChangeOwnerAccepts lm e shard newOwner replicas ∧
        (lm.changeOwner e arg newOwner replicas).1 = e.put (reassigned shard newOwner replicas)) ∨
      (∀ shard, arg.shard e = some shard → ¬ ChangeOwnerAccepts lm e shard newOwner replicas) ∧
        (lm.changeOwner e arg newOwner replicas).1 = e := by
  unfold changeOwner ChangeOwnerAccepts
  rcases arg.shard e with _ | shard
  · exact .inr ⟨nofun, rfl⟩
  · dsimp only
    split
    · rename_i hstate
      exact .inr ⟨fun s hs h => by cases hs; exact hstate h.1, rfl⟩
    · rename_i hstate
      split
      · rename_i hempty
        exact .inr ⟨fun s hs h => h.2.1 hempty, rfl⟩
      · rename_i hempty
        split
        · rename_i exc hexc
          refine .inr ⟨fun s hs h => ?_, rfl⟩
          rw [h.2.2.1] at hexc
          cases hexc
        · rename_i hok
          split
          · rename_i hmem
            exact .inr ⟨fun s hs h => by cases hs; exact h.2.2.2 hmem, rfl⟩
          · rename_i hmem
            exact .inl ⟨shard, rfl, ⟨not_not.mp hstate, hempty, hok, hmem⟩, rfl⟩

theorem create_cases (arg : ShardArg) (owner : Option String) (replicas : Option (List String)) :
    (arg.shard e = none ∧ (lm.create e arg owner replicas).1 = e) ∨
      ∃ shard, arg.shard e = some shard ∧
        (CreateAccepts lm e shard owner replicas ∧
            (lm.create e arg owner replicas).1 =
              (arg.write e (assigned shard owner replicas)).put (registered shard owner replicas) ∨
          ¬ CreateAccepts lm e shard owner replicas ∧
            (lm.create e arg owner replicas).1 = arg.write e (assigned shard owner replicas)) := by
  unfold create
  rcases harg : arg.shard e with _ | shard
  · exact .inl ⟨rfl, rfl⟩
  · refine .inr ⟨shard, rfl, ?_⟩
    dsimp only
    rw [validateMember_write]
    by_cases hacc : CreateAccepts lm e shard owner replicas
    · refine .inl ⟨hacc, ?_⟩
      rw [hacc.1]
      dsimp only
      rw [hacc.2]
      rfl
    · refine .inr ⟨hacc, ?_⟩
      split
      · rfl
      · rename_i hok
        split
        · rfl
        · rename_i hokm
          exact absurd ⟨hok, hokm⟩ hacc

/-- No lifecycle call touches a node or a migration. -/
theorem perform_frame (op : LifecycleOp) :
    (lm.perform e op).live.nodes = e.live.nodes ∧
    (lm.perform e op).live.migrations = e.live.migrations := by
  have htransition : ∀ arg dest, (transition e arg dest).1.live.nodes = e.live.nodes ∧
      (transition e arg dest).1.live.migrations = e.live.migrations := by
    intro arg dest
    obtain ⟨s, -, -, h⟩ | ⟨-, h⟩ := transition_cases e arg dest
    all_goals
      rw [h]
      exact ⟨rfl, rfl⟩
  cases op with
  | create arg owner replicas =>
    show (lm.create e arg owner replicas).1.live.nodes = _ ∧
      (lm.create e arg owner replicas).1.live.migrations = _
    obtain ⟨-, h⟩ | ⟨s, -, ⟨-, h⟩ | ⟨-, h⟩⟩ := create_cases lm e arg owner replicas
    all_goals
      rw [h]
      cases arg <;> exact ⟨rfl, rfl⟩
  | transition arg dest => exact htransition arg dest
  | activate arg => exact htransition arg .active
  | beginDrain arg => exact htransition arg .draining
  | retire arg => exact htransition arg .offline
  | changeOwner arg newOwner replicas =>
    show (lm.changeOwner e arg newOwner replicas).1.live.nodes = _ ∧
      (lm.changeOwner e arg newOwner replicas).1.live.migrations = _
    obtain ⟨s, -, -, h⟩ | ⟨-, h⟩ := changeOwner_cases lm e arg newOwner replicas
    all_goals
      rw [h]
      exact ⟨rfl, rfl⟩

/-- Another shard is registered. -/
theorem get_create {arg : ShardArg} {shardId : String} (owner : Option String)
    (replicas : Option (List String)) (h : ∀ s, arg.shard e = some s → s.id ≠ shardId) :
    (lm.create e arg owner replicas).1.get shardId = e.get shardId := by
  have hset : ∀ (e : InMemoryEtcd) (s : Shard), s.id ≠ shardId →
      (e.setShard s).get shardId = e.get shardId :=
    fun e s hs => Dict.get?_set_ne _ _ (Ne.symm hs)
  have hwrite : ∀ s : Shard, s.id ≠ shardId → (arg.write e s).get shardId = e.get shardId := by
    intro s hs
    cases arg with
    | stored id => exact hset e s hs
    | other shard => rfl
  obtain ⟨-, hc⟩ | ⟨s, hs, ⟨-, hc⟩ | ⟨-, hc⟩⟩ := create_cases lm e arg owner replicas
  · rw [hc]
  · rw [hc]
    exact (hset _ (registered s owner replicas) (h s hs)).trans
      (hwrite (assigned s owner replicas) (h s hs))
  · rw [hc]
    exact hwrite (assigned s owner replicas) (h s hs)

end ShardLifecycleManager

end Vsector.Sharding
