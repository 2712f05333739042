import Vsector.Proof.Sharding.Disks
import Vsector.Proof.Sharding.LifecycleStates
import Vsector.Proof.Sharding.MigrationHistory
import Vsector.Proof.Sharding.StaleGuard

/-!
# Cancelling beside the lifecycle

`start_copy` and `cancel` empty the target's directories. `start_copy` has
just found the source to be the owner; `cancel` looks at the migration alone,
so it relies on nobody giving the shard to the target in between. Where no
lifecycle call does (`NotToTarget`), a copy that is under way never has the
owner as its target (`Guarded`), and neither step touches the directories of
the owner of any shard (`cancel_spares_owner`). Where the target is the owner,
`cancel` empties them (`cancel_empties_owner`).
-/

namespace Vsector.Sharding

open Framework Models

/-! ## The two steps -/

/-- The directories of the owner of each shard are as they were. -/
def SparesOwners (w t : World Disks) : Prop :=
  ∀ shardId shard, w.store.get shardId = some shard →
    t.disks shard.nodeId shardId = w.disks shard.nodeId shardId

/-- A migration whose target is not the owner of its shard. -/
def ElsewhereThanOwner (e : InMemoryEtcd) (m : ShardMigration) : Prop :=
  ∀ shard, e.get m.shardId = some shard → shard.nodeId ≠ m.targetNodeId

namespace ShardMigrationManager

variable {X : Externals} {env : Nat → Storage.FlushEnv} {w : World Disks}

theorem sparesOwners_of_beside {m : ShardMigration} {t : World Disks}
    (hm : ElsewhereThanOwner w.store m) (h : Beside m.targetNodeId m.shardId w t) :
    SparesOwners w t := by
  intro shardId shard hs
  refine h.disks _ _ fun ⟨hnode, hid⟩ => ?_
  rw [hid] at hs
  exact hm shard hs hnode

theorem sparesOwners_refl (w : World Disks) (e : InMemoryEtcd) :
    SparesOwners w { w with store := e } := fun _ _ _ => rfl

/-- `start_copy` empties the target once it has found the source to be the owner. -/
theorem startCopy_sparesOwners (id : String)
    (htarget : ∀ m, w.store.getMigration id = some m → m.targetNodeId ≠ m.sourceNodeId) :
    Proc.Sat (startCopy (shardTransferProvider X env) id) w (SparesOwners w) fun t _ =>
      SparesOwners w t := by
  refine startCopy_beside (fun e _ => sparesOwners_refl w e) fun m shard hb t ht => ?_
  have hm : ElsewhereThanOwner w.store m := fun s hs he => by
    rw [hb.get] at hs
    cases hs
    exact htarget m hb.migration (he.symm.trans hb.owner)
  exact sparesOwners_of_beside hm ht

/-- `cancel` empties the target of a copy that is under way. -/
theorem cancel_sparesOwners (id : String)
    (hcopy : ∀ m, w.store.getMigration id = some m → m.state = .copying ∨ m.state = .verifying →
      ElsewhereThanOwner w.store m) :
    Proc.Sat (cancel (shardTransferProvider X env) id) w (SparesOwners w) fun t _ =>
      SparesOwners w t :=
  cancel_beside (fun e _ => sparesOwners_refl w e) fun m hm hstate _ ht =>
    sparesOwners_of_beside (hcopy m hm hstate) ht

end ShardMigrationManager

/-! ## What keeps the target from owning the shard -/

/-- Every migration leads away from its source, no shard has two that are open, and one whose copy
is under way does not lead to the owner. -/
structure Guarded (e : InMemoryEtcd) : Prop where
  target : ∀ id m, e.getMigration id = some m → m.targetNodeId ≠ m.sourceNodeId
  oneOpen : OneOpen e
  copy : ∀ id m, e.getMigration id = some m → m.state = .copying ∨ m.state = .verifying →
    ElsewhereThanOwner e m

theorem eq_preparing_of_next {s : MigrationState} (h : .copying ∈ s.next) : s = .preparing := by
  revert h
  cases s <;> decide

theorem eq_copying_of_next {s : MigrationState} (h : .verifying ∈ s.next) : s = .copying := by
  revert h
  cases s <;> decide

theorem Change.guarded {e e' : InMemoryEtcd} (h : Change e e') (hg : Guarded e) : Guarded e' := by
  have hone := h.edge.oneOpen hg.oneOpen
  cases h with
  | same hm hs =>
    refine ⟨fun id m ha => hg.target id m (by rw [← hm]; exact ha), hone,
      fun id m ha hst shard hshard => ?_⟩
    exact hg.copy id m (by rw [← hm]; exact ha) hst shard (by rw [← hs]; exact hshard)
  | created n hnew hstate hversion htarget hopen hm hs =>
    refine ⟨fun id m ha => ?_, hone, fun id m ha hst shard hshard => ?_⟩
    · rw [hm] at ha
      split at ha
      · cases ha
        exact htarget
      · exact hg.target id m ha
    · rw [hm] at ha
      rw [hs] at hshard
      split at ha
      · cases ha
        rw [hstate] at hst
        exact absurd hst (by decide)
      · exact hg.copy id m ha hst shard hshard
  | turned n n' hn turn hcopy hm hs =>
    have hsame := turn.same
    refine ⟨fun id m ha => ?_, hone, fun id m ha hst shard hshard => ?_⟩
    · rw [hm] at ha
      split at ha
      · cases ha
        rw [hsame.target, hsame.source]
        exact hg.target _ n hn
      · exact hg.target id m ha
    · rw [hm] at ha
      rw [hs] at hshard
      split at ha
      · cases ha
        rw [hsame.shard] at hshard
        rw [hsame.target]
        -- it was under way before, or its data is being copied from the owner
        obtain ⟨he, -⟩ | ⟨hnext, -⟩ := turn.state
        · rw [he] at hst
          exact hg.copy _ n hn hst shard hshard
        · obtain hst | hst := hst
          · rw [hst] at hnext
            obtain ⟨s, hs, hown⟩ := hcopy (eq_preparing_of_next hnext) hst
            rw [hs] at hshard
            cases hshard
            rw [hown]
            exact (hg.target _ n hn).symm
          · rw [hst] at hnext
            exact hg.copy _ n hn (.inl (eq_copying_of_next hnext)) shard hshard
      · exact hg.copy id m ha hst shard hshard
  | moved n s s' hn hcommit hget hstate hm hs =>
    refine ⟨fun id m ha => hg.target id m (by rw [← hm]; exact ha), hone,
      fun id m ha hst shard hshard => ?_⟩
    rw [hm] at ha
    rw [hs] at hshard
    split at hshard
    · -- the shard that is committed has no other open migration
      rename_i hid
      have hopen : m.state.isTerminal = false := by
        obtain hst | hst := hst
        · rw [hst]
          rfl
        · rw [hst]
          rfl
      have hidn := hg.oneOpen id n.migrationId m n ha hn hid hopen (by rw [hcommit]; rfl)
      rw [hidn, hn] at ha
      cases ha
      rw [hcommit] at hst
      exact absurd hst (by decide)
    · exact hg.copy id m ha hst shard hshard

/-- A `Shard` that is not the store's own, of that id and owner, takes a transition. -/
def HandedIn (shardId node : String) (arg : ShardArg) (dest : ShardState) : Prop :=
  ∃ shard, arg = .other shard ∧ shard.id = shardId ∧ shard.nodeId = node ∧ dest ∈ shard.state.next

/-- The call gives the shard to the node. A `create` that is refused changes the store's own shard
all the same. -/
def GivesTo (lm : ShardLifecycleManager) (e : InMemoryEtcd) (shardId node : String) :
    LifecycleOp → Prop
  | .create arg owner replicas =>
    ∃ shard, arg.shard e = some shard ∧ shard.id = shardId ∧ owner.getD shard.nodeId = node ∧
      (CreateAccepts lm e shard owner replicas ∨ arg = .stored shardId)
  | .transition arg dest => HandedIn shardId node arg dest
  | .activate arg => HandedIn shardId node arg .active
  | .beginDrain arg => HandedIn shardId node arg .draining
  | .retire arg => HandedIn shardId node arg .offline
  | .changeOwner arg newOwner replicas =>
    ∃ shard, arg.shard e = some shard ∧ shard.id = shardId ∧ newOwner = node ∧
      ChangeOwnerAccepts lm e shard newOwner replicas

section

variable {lm : ShardLifecycleManager} {e : InMemoryEtcd} {shardId : String}

/-- The store's own shard may have another owner after it was changed. -/
theorem owner_write {arg : ShardArg} {shard shard' s' : Shard} (hshard : arg.shard e = some shard)
    (hid : shard'.id = shard.id) (h : (arg.write e shard').get shardId = some s') :
    e.get shardId = some s' ∨ arg = .stored shardId ∧ shard.id = shardId ∧ shard' = s' := by
  cases arg with
  | other a => exact .inl h
  | stored id =>
    have hget : e.get id = some shard := hshard
    have hsid : shard.id = id := InMemoryEtcd.shard_id hget
    have hset := InMemoryEtcd.get_setShard.symm.trans h
    split at hset
    · rename_i hs
      cases hset
      exact .inr ⟨by rw [hs, hid, hsid], (hs.trans hid).symm, rfl⟩
    · exact .inl hset

theorem owner_transition {arg : ShardArg} {dest : ShardState} {s' : Shard}
    (h : (ShardLifecycleManager.transition e arg dest).1.get shardId = some s') :
    (∃ s, e.get shardId = some s ∧ s.nodeId = s'.nodeId) ∨ HandedIn shardId s'.nodeId arg dest := by
  obtain ⟨shard, hshard, hnext, heq⟩ | ⟨-, heq⟩ := ShardLifecycleManager.transition_cases e arg dest
  · rw [heq, InMemoryEtcd.get_put] at h
    split at h
    · rename_i hid
      cases h
      cases arg with
      | stored id =>
        have hget : e.get id = some shard := hshard
        have hsid : shard.id = id := InMemoryEtcd.shard_id hget
        have hs : shardId = id := hid.trans hsid
        exact .inl ⟨shard, by rw [hs]; exact hget, rfl⟩
      | other a =>
        cases hshard
        exact .inr ⟨_, rfl, hid.symm, rfl, hnext⟩
    · exact .inl ⟨s', h, rfl⟩
  · rw [heq] at h
    exact .inl ⟨s', h, rfl⟩

/-- The owner after a call: the one before, or one the call gives the shard to. -/
theorem owner_perform (op : LifecycleOp) {s' : Shard}
    (h : (lm.perform e op).get shardId = some s') :
    (∃ s, e.get shardId = some s ∧ s.nodeId = s'.nodeId) ∨ GivesTo lm e shardId s'.nodeId op := by
  cases op with
  | create arg owner replicas =>
    change (lm.create e arg owner replicas).1.get shardId = some s' at h
    obtain ⟨-, heq⟩ | ⟨shard, hshard, haccepts⟩ :=
      ShardLifecycleManager.create_cases lm e arg owner replicas
    · rw [heq] at h
      exact .inl ⟨s', h, rfl⟩
    · -- the store's own shard has its owner before the checks
      have hwrite : ∀ {t : Shard},
          (arg.write e (ShardLifecycleManager.assigned shard owner replicas)).get shardId =
          some t → (∃ s, e.get shardId = some s ∧ s.nodeId = t.nodeId) ∨
            GivesTo lm e shardId t.nodeId (.create arg owner replicas) := by
        intro t ht
        have hid : (ShardLifecycleManager.assigned shard owner replicas).id = shard.id := rfl
        obtain hs | ⟨harg, hid, rfl⟩ := owner_write hshard hid ht
        · exact .inl ⟨t, hs, rfl⟩
        · exact .inr ⟨shard, hshard, hid, rfl, .inr harg⟩
      obtain ⟨haccepts, heq⟩ | ⟨-, heq⟩ := haccepts
      · rw [heq, InMemoryEtcd.get_put] at h
        split at h
        · rename_i hid
          cases h
          exact .inr ⟨shard, hshard, hid.symm, rfl, .inl haccepts⟩
        · exact hwrite h
      · rw [heq] at h
        exact hwrite h
  | transition arg dest => exact owner_transition h
  | activate arg => exact owner_transition h
  | beginDrain arg => exact owner_transition h
  | retire arg => exact owner_transition h
  | changeOwner arg newOwner replicas =>
    change (lm.changeOwner e arg newOwner replicas).1.get shardId = some s' at h
    obtain ⟨shard, hshard, haccepts, heq⟩ | ⟨-, heq⟩ :=
      ShardLifecycleManager.changeOwner_cases lm e arg newOwner replicas
    · rw [heq, InMemoryEtcd.get_put] at h
      split at h
      · rename_i hid
        cases h
        exact .inr ⟨shard, hshard, hid.symm, rfl, haccepts⟩
      · exact .inl ⟨s', h, rfl⟩
    · rw [heq] at h
      exact .inl ⟨s', h, rfl⟩

end

/-! ## Runs -/

section

variable {X : Externals}

/-- The transfers of a run: the provider, whatever its imports meet. -/
abbrev onDisks (X : Externals) : (Nat → Storage.FlushEnv) → Transfer Disks :=
  shardTransferProvider X

/-- No lifecycle call gives a shard to the target of a copy that is under way. -/
def NotToTarget (w : World Disks) : ShardOp (Nat → Storage.FlushEnv) Disks → Prop
  | .lifecycle lm op =>
    ∀ id m, w.store.getMigration id = some m → m.state = .copying ∨ m.state = .verifying →
      ¬ GivesTo lm w.store m.shardId m.targetNodeId op
  | .migrate _ _ _ => True
  | .write _ => True

/-- If the operation is `cancel` or `start_copy`, it leaves the directories of the owner of every
shard alone, at every point. -/
def SparesWhereOwned (X : Externals) (w : World Disks) :
    ShardOp (Nat → Storage.FlushEnv) Disks → Prop
  | .migrate mgr env step =>
    ∀ id, step = .cancel id ∨ step = .startCopy id →
      Proc.Sat (mgr.perform (onDisks X env) step) w (SparesOwners w) fun t _ => SparesOwners w t
  | .lifecycle _ _ => True
  | .write _ => True

theorem guarded_step {w w' : World Disks} {op : ShardOp (Nat → Storage.FlushEnv) Disks}
    (hg : Guarded w.store) (hn : NotToTarget w op) (h : shardStep (onDisks X) w op = some w') :
    Guarded w'.store := by
  cases op with
  | migrate mgr env step => exact ((path_migrate h).keeps (fun _ _ h => h.guarded) hg).2
  | write disks =>
    cases h
    exact hg
  | lifecycle lm op =>
    cases h
    have hm := ShardLifecycleManager.getMigration_perform lm w.store op
    refine ⟨fun id m ha => ?_, fun id id' m m' ha ha' => ?_, fun id m ha hst shard hshard he => ?_⟩
    · rw [hm] at ha
      exact hg.target id m ha
    · rw [hm] at ha ha'
      exact hg.oneOpen id id' m m' ha ha'
    · rw [hm] at ha
      obtain ⟨s, hs, hown⟩ | hgives := owner_perform op hshard
      · exact hg.copy id m ha hst s hs (hown.trans he)
      · rw [he] at hgives
        exact hn id m ha hst hgives

/-- In a run in which no lifecycle call gives a shard to the target of a copy that is under way,
neither `cancel` nor `start_copy` ever touches the directories of the owner of a shard. -/
theorem cancel_spares_owner {w : World Disks} (hnone : ∀ id, w.store.getMigration id = none)
    {ops : List (ShardOp (Nat → Storage.FlushEnv) Disks)}
    (h : Along (shardStep (onDisks X)) NotToTarget w ops) :
    Along (shardStep (onDisks X)) (SparesWhereOwned X) w ops := by
  have hfalse : ∀ {p : Prop} {id m}, w.store.getMigration id = some m → p := fun hm => by
    rw [hnone] at hm
    cases hm
  have hstart : Guarded w.store :=
    ⟨fun _ _ hm => hfalse hm, fun _ _ _ _ hm => hfalse hm, fun _ _ hm => hfalse hm⟩
  refine h.of_invariant (I := fun w : World Disks => Guarded w.store) (fun s op hg _ => ?_)
    (fun s op t hg hn ht => guarded_step hg hn ht) hstart
  cases op with
  | migrate mgr env step =>
    rintro id (rfl | rfl)
    · exact ShardMigrationManager.cancel_sparesOwners id (hg.copy id)
    · exact ShardMigrationManager.startCopy_sparesOwners id (hg.target id)
  | lifecycle lm op => trivial
  | write disks => trivial

/-- Where the target of a copy that is under way owns the shard, `cancel` empties its
directories. -/
theorem cancel_empties_owner {w : World Disks} {mgr : ShardMigrationManager}
    {env : Nat → Storage.FlushEnv} {id : String} {m : ShardMigration} {shard : Shard}
    (hm : w.store.getMigration id = some m) (hst : m.state = .copying ∨ m.state = .verifying)
    (hshard : w.store.get m.shardId = some shard) (howner : shard.nodeId = m.targetNodeId) :
    (mgr.perform (onDisks X env) (.cancel id) w).final.disks shard.nodeId m.shardId = ∅ := by
  have hid : shard.id = m.shardId := InMemoryEtcd.shard_id hshard
  have hcancel : m.state.isCancelable = true := by
    obtain h | h := hst <;> rw [h] <;> rfl
  have hsat : Proc.Sat (ShardMigrationManager.cancel (onDisks X env) id) w
      (fun _ => True) fun t _ =>
      t.disks m.targetNodeId m.shardId = ∅ := by
    refine Proc.sat_bind.mpr (ShardMigrationManager.sat_require.mpr ?_)
    rw [hm]
    show Proc.Sat (if _ then _ else _) w (fun _ => True) fun t _ =>
      t.disks m.targetNodeId m.shardId = ∅
    rw [if_neg (by rw [hcancel]; simp)]
    refine Proc.Sat.bind (Q := fun t _ => t.disks m.targetNodeId m.shardId = ∅) ?_
      (fun t _ ht => (ShardMigrationManager.sat_advance
        (ShardMigrationManager.mem_next_of_cancelable hcancel)).mpr ⟨trivial, ht⟩)
      fun _ _ ht => ht
    refine Proc.sat_bind_get ?_
    rw [hshard]
    dsimp only
    rw [if_pos hst]
    refine Proc.sat_bind_attempt (ShardMigrationManager.sat_inDisks.mpr ?_)
    refine Proc.sat_bind_change trivial (Proc.sat_change.mpr ⟨trivial, Proc.sat_pure.mpr ?_⟩)
    show Disks.set _ m.targetNodeId shard.id _ m.targetNodeId m.shardId = ∅
    rw [hid]
    simp only [Disks.set, and_self, if_true]
    rfl
  rw [howner]
  exact hsat.2

end

private def node (id : String) : Cluster.ClusterNode := ⟨id, "c", .active, 1⟩

/-- A shard on the first of three nodes, and a log on the second. -/
private def atN0 : World Disks where
  store := ⟨{ (∅ : EtcdData).setShard ⟨"s", "ns", "n0", .active, 0, 10, [], 1⟩ with
    nodes := ((Dict.set ∅ "n0" (node "n0")).set "n1" (node "n1")).set "n2" (node "n2") }, none⟩
  disks := fun _ _ => ∅

private abbrev FlushEnvs : Type := Nat → Storage.FlushEnv

private def migrate (step : MigrationStep) : ShardOp FlushEnvs Disks :=
  .migrate ⟨⟨"c"⟩, "c"⟩ (fun n => ⟨n, 1, none⟩) step

private def changeTo (owner : String) : List (ShardOp FlushEnvs Disks) :=
  [.lifecycle ⟨true⟩ (.beginDrain (.stored "s")),
    .lifecycle ⟨true⟩ (.changeOwner (.stored "s") owner none)]

/-- The data is copied to `n1`, and then the owner becomes another. -/
private def copiedThen (owner : String) : List (ShardOp FlushEnvs Disks) :=
  [.createMigration "m" "ns" "s" "n1", .prepare "m", .startCopy "m"].map migrate ++ changeTo owner

private abbrev stepOn : World Disks → ShardOp FlushEnvs Disks → Option (World Disks) :=
  shardStep (onDisks fieldwise)

private def afterCopy : World Disks :=
  (run stepOn atN0 ((copiedThen "n2").take 4)).get (by decide +kernel)

theorem cancel_spares_owner_n2 :
    Along stepOn (SparesWhereOwned fieldwise) atN0
      (copiedThen "n2" ++ [migrate (.cancel "m")]) := by
  have htarget : ∀ id m, afterCopy.store.getMigration id = some m → m.targetNodeId = "n1" := by
    have hall : ∀ m ∈ afterCopy.store.listMigrations, m.targetNodeId = "n1" := by decide +kernel
    exact fun id m hm => hall m (Dict.mem_values.mpr ⟨id, hm⟩)
  refine cancel_spares_owner (fun _ => rfl) ⟨trivial, fun t₁ h₁ =>
    ⟨trivial, fun t₂ h₂ => ⟨trivial, fun t₃ h₃ =>
    ⟨fun _ _ _ _ ⟨_, harg, _⟩ => (nomatch harg), fun t₄ h₄ =>
      ⟨fun id m hm _ ⟨_, _, _, hown, _⟩ => ?_, fun _ _ => ⟨trivial, fun _ _ => trivial⟩⟩⟩⟩⟩⟩
  have hrun : run stepOn atN0 ((copiedThen "n2").take 4) = some t₄ :=
    run_cons_eq_some.mpr ⟨t₁, h₁, run_cons_eq_some.mpr ⟨t₂, h₂, run_cons_eq_some.mpr ⟨t₃, h₃,
      run_cons_eq_some.mpr ⟨t₄, h₄, rfl⟩⟩⟩⟩
  have hafter : t₄ = afterCopy := Option.some.inj (hrun.symm.trans (Option.some_get _).symm)
  rw [hafter] at hm
  rw [htarget id m hm] at hown
  exact absurd hown (by decide)

/-- The owner becomes the target of the migration, and takes a write. -/
private def writtenAtTarget : List (ShardOp FlushEnvs Disks) :=
  copiedThen "n1" ++ [.write fun n s => if n = "n1" ∧ s = "s" then ⟨[none], ∅, ∅⟩ else ∅]

private def beforeCancel : World Disks := (run stepOn atN0 writtenAtTarget).get (by decide +kernel)

/-- `cancel` empties the log of the new owner. -/
theorem cancel_empties_new_owner :
    ¬ Along stepOn (SparesWhereOwned fieldwise) atN0
      (writtenAtTarget ++ [migrate (.cancel "m")]) := by
  intro h
  have hlast := (h.append.2 beforeCancel (Option.some_get _).symm).1 "m" (.inl rfl)
  obtain ⟨shard, hshard⟩ : ∃ shard, beforeCancel.store.get "s" = some shard :=
    Option.isSome_iff_exists.mp (by decide +kernel)
  have howner : (beforeCancel.store.get "s").map Shard.nodeId = some "n1" := by decide +kernel
  rw [hshard] at howner
  have hwal := congrArg (fun root : Ingest.Root => root.wal.length) (hlast.2 "s" shard hshard)
  rw [Option.some.inj howner] at hwal
  revert hwal
  decide +kernel

end Vsector.Sharding
