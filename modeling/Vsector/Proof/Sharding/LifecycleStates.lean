import Vsector.Proof.Sharding.LifecycleSteps
import Vsector.Proof.Sharding.MigrationChanges

/-!
# The states of shards

A call of the lifecycle manager stores the `Shard` it is given, in the state
that its own checks lead to; the store may hold another record of the id, and
`create` does not look at it. `KeepsTable` says when the stored state changes
by an edge of `TRANSITIONS` even so (`tableStep_perform`), and a run keeps to
the table exactly if each of its calls does (`states_keep_table_iff`). The
steps of migrations always do.
-/

namespace Vsector.Sharding

open Framework Cluster

/-- What happens to the shards of a store: a call of a migration manager, or of a lifecycle
manager, or a write to the storage. The calls of the first meet the transfers `T`. -/
inductive ShardOp (ι δ : Type) where
  | migrate (mgr : ShardMigrationManager) (i : ι) (step : MigrationStep)
  | lifecycle (lm : ShardLifecycleManager) (op : LifecycleOp)
  | write (disks : δ)

section

variable {ι δ : Type} (T : ι → Transfer δ)

/-- One operation, whether or not it raises. `uuid4` never gives an id twice. -/
def shardStep (w : World δ) : ShardOp ι δ → Option (World δ)
  | .migrate mgr i step =>
    if ShardMigrationManager.isFresh w.store step then some (mgr.perform (T i) step w).final
      else none
  | .lifecycle lm op => some { w with store := lm.perform w.store op }
  | .write disks => some { w with disks := disks }

/-- The stores that an operation passes through. -/
def storesOf (w : World δ) : ShardOp ι δ → List InMemoryEtcd
  | .migrate mgr i step => (mgr.perform (T i) step w).points.map World.store
  | .lifecycle lm op => [lm.perform w.store op]
  | .write _ => []

end

/-- The stored state of a shard. -/
def shardState (id : String) (e : InMemoryEtcd) : Option ShardState := (e.get id).map Shard.state

/-- The stored states of all shards are as before, or one edge of `TRANSITIONS` further. -/
def TableStep (e e' : InMemoryEtcd) : Prop :=
  ∀ id s, shardState id e = some s → ∃ s', shardState id e' = some s' ∧ (s' = s ∨ s' ∈ s.next)

/-! ## When a call keeps to the table -/

/-- The store has no record of the id that may not be in the state `dest` next. -/
def MayBe (e : InMemoryEtcd) (id : String) (dest : ShardState) : Prop :=
  ∀ old, e.get id = some old → dest = old.state ∨ dest ∈ old.state.next

/-- A `Shard` that is not the store's own does not go to a state that the store's record may not. -/
def OwnOrMayBe (e : InMemoryEtcd) (arg : ShardArg) (dest : ShardState) : Prop :=
  ∀ shard, arg = .other shard → dest ∈ shard.state.next → MayBe e shard.id dest

/-- `create` is given shards that the store does not have, or has in `CREATING`; the other calls
are given the store's own shards, or take none where its record could not go. -/
def KeepsTable (lm : ShardLifecycleManager) (e : InMemoryEtcd) : LifecycleOp → Prop
  | .create arg owner replicas =>
    ∀ shard, arg.shard e = some shard → CreateAccepts lm e shard owner replicas →
      ∀ old, e.get shard.id = some old → old.state = .creating
  | .transition arg dest => OwnOrMayBe e arg dest
  | .activate arg => OwnOrMayBe e arg .active
  | .beginDrain arg => OwnOrMayBe e arg .draining
  | .retire arg => OwnOrMayBe e arg .offline
  | .changeOwner arg newOwner replicas =>
    ∀ shard, arg = .other shard → ChangeOwnerAccepts lm e shard newOwner replicas →
      MayBe e shard.id .draining

section

variable {lm : ShardLifecycleManager} {e e' : InMemoryEtcd}

theorem TableStep.refl (e : InMemoryEtcd) : TableStep e e := fun _ s hs => ⟨s, hs, .inl rfl⟩

/-- Where the states are the same. -/
theorem tableStep_of_eq (h : ∀ id, shardState id e' = shardState id e) : TableStep e e' :=
  fun id s hs => ⟨s, (h id).trans hs, .inl rfl⟩

/-- One shard is stored. -/
theorem tableStep_put_iff (shard : Shard)
    (h : ∀ id, shardState id e' = if id = shard.id then some shard.state else shardState id e) :
    TableStep e e' ↔ MayBe e shard.id shard.state := by
  constructor
  · intro ht old hold
    obtain ⟨s', hs', hnext⟩ := ht shard.id old.state (by rw [shardState, hold]; rfl)
    rw [h, if_pos rfl] at hs'
    cases hs'
    exact hnext
  · intro hm id s hs
    rw [h]
    split
    · rename_i hid
      rw [hid] at hs
      obtain ⟨old, hold, rfl⟩ := Option.map_eq_some_iff.mp hs
      exact ⟨_, rfl, hm old hold⟩
    · exact ⟨s, hs, .inl rfl⟩

theorem shardState_put (shard : Shard) (id : String) :
    shardState id (e.put shard) = if id = shard.id then some shard.state else shardState id e := by
  unfold shardState
  rw [InMemoryEtcd.get_put]
  split <;> rfl

/-- The store's own shard goes along its own edges. -/
theorem mayBe_stored {id : String} {shard : Shard} {dest : ShardState} (h : e.get id = some shard)
    (hd : dest = shard.state ∨ dest ∈ shard.state.next) : MayBe e shard.id dest := by
  intro old hold
  have hid : shard.id = id := InMemoryEtcd.shard_id h
  rw [hid, h] at hold
  cases hold
  exact hd

/-- A change of the shard's other fields, in the store if it is the store's own. -/
theorem shardState_write {arg : ShardArg} {shard shard' : Shard} (h : arg.shard e = some shard)
    (hid : shard'.id = shard.id) (hstate : shard'.state = shard.state) (id : String) :
    shardState id (arg.write e shard') = shardState id e := by
  cases arg with
  | other _ => rfl
  | stored a =>
    unfold shardState
    show ((e.setShard shard').get id).map _ = _
    rw [InMemoryEtcd.get_setShard]
    have hget : e.get a = some shard := h
    have ha : shard.id = a := InMemoryEtcd.shard_id hget
    split
    · rename_i hi
      rw [hi, hid, ha, hget]
      exact congrArg some hstate
    · rfl

theorem not_creating_mem_next (s : ShardState) :
    ShardState.creating ∉ s.next := by cases s <;> decide

theorem tableStep_create_iff (arg : ShardArg) (owner : Option String)
    (replicas : Option (List String)) :
    TableStep e (lm.create e arg owner replicas).1 ↔
      KeepsTable lm e (.create arg owner replicas) := by
  obtain ⟨hnone, heq⟩ | ⟨shard, hshard, ⟨haccepts, heq⟩ | ⟨hrefuses, heq⟩⟩ :=
    ShardLifecycleManager.create_cases lm e arg owner replicas
  · rw [heq]
    refine iff_of_true (.refl e) fun shard hs => ?_
    rw [hnone] at hs
    cases hs
  · have hwrite : ∀ id, shardState id
        (arg.write e (ShardLifecycleManager.assigned shard owner replicas)) = shardState id e :=
      shardState_write hshard rfl rfl
    rw [heq]
    refine (tableStep_put_iff (e := e) (ShardLifecycleManager.registered shard owner replicas)
      fun id => ?_).trans ?_
    · rw [shardState_put, hwrite]
    · constructor
      · intro hm a ha _ old hold
        rw [hshard] at ha
        cases ha
        obtain h | h := hm old hold
        · exact h.symm
        · exact absurd h (not_creating_mem_next _)
      · intro hk old hold
        exact .inl (hk shard hshard haccepts old hold).symm
  · rw [heq]
    refine iff_of_true (tableStep_of_eq (shardState_write hshard rfl rfl)) fun a ha haccepts => ?_
    rw [hshard] at ha
    cases ha
    exact absurd haccepts hrefuses

theorem tableStep_transition_iff (arg : ShardArg) (dest : ShardState) :
    TableStep e (ShardLifecycleManager.transition e arg dest).1 ↔ OwnOrMayBe e arg dest := by
  obtain ⟨shard, hshard, hnext, heq⟩ | ⟨hrefuses, heq⟩ :=
    ShardLifecycleManager.transition_cases e arg dest
  · rw [heq]
    refine (tableStep_put_iff _ (shardState_put _)).trans ?_
    show MayBe e shard.id dest ↔ OwnOrMayBe e arg dest
    cases arg with
    | stored id => exact iff_of_true (mayBe_stored hshard (.inr hnext)) nofun
    | other a =>
      cases hshard
      exact ⟨fun hm a ha _ => by cases ha; exact hm, fun h => h _ rfl hnext⟩
  · rw [heq]
    refine iff_of_true (.refl e) fun shard harg hd => ?_
    exact absurd hd (hrefuses shard (by rw [harg]; rfl))

theorem tableStep_changeOwner_iff (arg : ShardArg) (newOwner : String)
    (replicas : Option (List String)) :
    TableStep e (lm.changeOwner e arg newOwner replicas).1 ↔
      KeepsTable lm e (.changeOwner arg newOwner replicas) := by
  obtain ⟨shard, hshard, haccepts, heq⟩ | ⟨hrefuses, heq⟩ :=
    ShardLifecycleManager.changeOwner_cases lm e arg newOwner replicas
  · rw [heq]
    refine (tableStep_put_iff _ (shardState_put _)).trans ?_
    show MayBe e shard.id shard.state ↔ _
    rw [haccepts.1]
    cases arg with
    | stored id => exact iff_of_true (mayBe_stored hshard (.inl haccepts.1.symm)) nofun
    | other a =>
      cases hshard
      exact ⟨fun hm a ha _ => by cases ha; exact hm, fun h => h _ rfl haccepts⟩
  · rw [heq]
    refine iff_of_true (.refl e) fun shard harg haccepts => ?_
    exact absurd haccepts (hrefuses shard (by rw [harg]; rfl))

/-- A call keeps to the table exactly under `KeepsTable`. -/
theorem tableStep_perform_iff (op : LifecycleOp) :
    TableStep e (lm.perform e op) ↔ KeepsTable lm e op := by
  cases op with
  | create arg owner replicas => exact tableStep_create_iff arg owner replicas
  | transition arg dest => exact tableStep_transition_iff arg dest
  | activate arg => exact tableStep_transition_iff arg .active
  | beginDrain arg => exact tableStep_transition_iff arg .draining
  | retire arg => exact tableStep_transition_iff arg .offline
  | changeOwner arg newOwner replicas => exact tableStep_changeOwner_iff arg newOwner replicas

/-- A step of a migration changes no state. -/
theorem Change.tableStep (h : Change e e') : TableStep e e' := by
  refine tableStep_of_eq fun id => ?_
  unfold shardState
  cases h with
  | same _ hs => rw [hs]
  | created _ _ _ _ _ _ _ hs => rw [hs]
  | turned _ _ _ _ _ _ hs => rw [hs]
  | moved m shard shard' _ _ hshard hstate _ hs =>
    rw [hs]
    split
    · rename_i hid
      rw [hid, hshard]
      exact congrArg some hstate
    · rfl

end

/-! ## Runs -/

section

variable {ι δ : Type} {T : ι → Transfer δ}

/-- The calls of the lifecycle managers in a run meet `KeepsTable`. -/
def CallKeepsTable (w : World δ) : ShardOp ι δ → Prop
  | .lifecycle lm op => KeepsTable lm w.store op
  | .migrate _ _ _ => True
  | .write _ => True

/-- The steps of migrations lead from store to store by `Change`s. -/
theorem path_migrate {w w' : World δ} {mgr : ShardMigrationManager} {i : ι} {step : MigrationStep}
    (h : shardStep T w (.migrate mgr i step) = some w') :
    Path Change w.store (storesOf T w (.migrate mgr i step)) w'.store := by
  rw [shardStep] at h
  split at h
  · rename_i hf
    cases h
    exact (ShardMigrationManager.moves_perform (P := False) step False.elim hf).1
  · cases h

/-- A terminal state of the table is not left. -/
def StaysOffline (e e' : InMemoryEtcd) : Prop :=
  ∀ id s, shardState id e = some s → s.next = [] → shardState id e' = some s

theorem TableStep.staysOffline {e e' : InMemoryEtcd} (h : TableStep e e') : StaysOffline e e' := by
  intro id s hs hnext
  obtain ⟨s', hs', rfl | hs''⟩ := h id s hs
  · exact hs'
  · rw [hnext] at hs''
    exact absurd hs'' List.not_mem_nil

instance : IsTrans InMemoryEtcd StaysOffline where
  trans _ _ _ h h' id s hs hnext := h' id s (h id s hs hnext) hnext

/-- In a run of lifecycle calls and migration steps, every change of the stored state of a shard is
an edge of `TRANSITIONS` exactly if the calls meet `KeepsTable`; `OFFLINE` and `RETIRED` are then
never left. -/
theorem states_keep_table_iff {w w' : World δ} {ops : List (ShardOp ι δ)}
    (hrun : run (shardStep T) w ops = some w') :
    ((w.store :: trail (shardStep T) (storesOf T) w ops).IsChain TableStep ↔
        Along (shardStep T) CallKeepsTable w ops) ∧
      (Along (shardStep T) CallKeepsTable w ops →
        (w.store :: trail (shardStep T) (storesOf T) w ops).Pairwise StaysOffline) := by
  have hview : ∀ (s : World δ) (l : ShardOp ι δ) t, shardStep T s l = some t →
      Path (fun _ _ => True) s.store (storesOf T s l) t.store := by
    intro s l t h
    cases l with
    | migrate mgr i step => exact (path_migrate h).mono fun _ _ _ => trivial
    | lifecycle lm op =>
      cases h
      exact ⟨trivial, rfl⟩
    | write disks =>
      cases h
      rfl
  have hstep : ∀ (s : World δ) (l : ShardOp ι δ) t, shardStep T s l = some t →
      (Path TableStep s.store (storesOf T s l) t.store ↔ CallKeepsTable s l) := by
    intro s l t h
    cases l with
    | migrate mgr i step =>
      exact iff_of_true ((path_migrate h).mono fun _ _ h => h.tableStep) trivial
    | lifecycle lm op =>
      cases h
      exact (and_iff_left rfl).trans (tableStep_perform_iff op)
    | write disks =>
      cases h
      exact iff_of_true rfl trivial
  have hpath := path_trail_iff (R := TableStep) hview hstep hrun
  have hany := path_trail (I := fun _ => True) (fun s l t _ h => ⟨hview s l t h, trivial⟩)
    trivial hrun
  refine ⟨⟨fun h => hpath.mp (Path.of_isChain hany h), fun h => (hpath.mpr h).isChain⟩, fun h => ?_⟩
  exact ((hpath.mpr h).isChain.imp fun _ _ ht => ht.staysOffline).pairwise

end

private def noData : Unit → Transfer Unit := fun _ =>
  ⟨fun _ _ => Proc.throw (.valueError ""), fun _ _ _ => Proc.pure (), fun _ _ _ => Proc.pure "",
    fun _ _ => Proc.pure (), fun _ _ => Proc.pure ()⟩

private def activeShard : World Unit :=
  ⟨(InMemoryEtcd.init none).setShard ⟨"s", "ns", "n0", .active, 0, 10, [], 1⟩, ()⟩

private def call (op : LifecycleOp) : ShardOp Unit Unit := .lifecycle ⟨false⟩ op

private def handover : List (ShardOp Unit Unit) :=
  [call (.beginDrain (.stored "s")), call (.changeOwner (.stored "s") "n1" none),
    call (.activate (.stored "s"))]

/-- A change of owner, by calls on the store's own shard. -/
theorem states_keep_table_handover :
    (activeShard.store :: trail (shardStep noData) (storesOf noData) activeShard handover).IsChain
      TableStep := by
  have hrun : run (shardStep noData) activeShard handover =
      some ((run (shardStep noData) activeShard handover).get (by decide +kernel)) :=
        (Option.some_get _).symm
  exact (states_keep_table_iff hrun).1.mpr ⟨nofun,
    fun _ _ => ⟨nofun, fun _ _ => ⟨nofun, fun _ _ => trivial⟩⟩⟩

private def createdAgain : List (ShardOp Unit Unit) :=
  [call (.retire (.stored "s")), call (.create (.stored "s") none none)]

/-- `create` takes a shard that is `OFFLINE` back to `CREATING`. -/
theorem create_leaves_offline :
    (activeShard.store :: trail (shardStep noData) (storesOf noData) activeShard createdAgain).map
      (shardState "s") =
        [some .active, some .offline, some .creating] ∧
      ¬ (activeShard.store :: trail (shardStep noData) (storesOf noData) activeShard
        createdAgain).IsChain TableStep := by
  have hstates : (activeShard.store :: trail (shardStep noData) (storesOf noData) activeShard
      createdAgain).map
      (shardState "s") = [some .active, some .offline, some .creating] := by decide +kernel
  refine ⟨hstates, fun h => ?_⟩
  have hchain := (List.isChain_map (shardState "s") (R := fun o o' => ∀ s, o = some s →
    ∃ s', o' = some s' ∧
    (s' = s ∨ s' ∈ s.next))).mpr (h.imp fun a b ht => ht "s")
  rw [hstates] at hchain
  obtain ⟨s', hs', hnext⟩ :=
    (List.isChain_cons_cons.mp (List.isChain_cons_cons.mp hchain).2).1 .offline rfl
  cases hs'
  revert hnext
  decide

end Vsector.Sharding
