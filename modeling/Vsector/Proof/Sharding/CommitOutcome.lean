import Vsector.Proof.Sharding.MigrationSteps

/-!
# The ownership commit is all or nothing

`commit` either raises, and then every shard of the store is as it was, or it
returns, and then the shard of the migration is the target's with everything
that was checked of it (`Committed`). The branch that lets a `MigrationError`
through without a rollback is never taken: what checks the moved shard raises
errors of ownership and of membership only.
-/

namespace Vsector.Sharding

open Framework Cluster

/-! ## The checks of the commit -/

theorem validateNode_eq_ok {e : InMemoryEtcd} {node : String}
    (h : ClusterMembershipManager.validateNode e node = .ok ()) :
    ∃ n, e.getNode node = some n ∧ n.state ≠ .removed := by
  unfold ClusterMembershipManager.validateNode at h
  split at h
  · cases h
  · rename_i n hn
    split at h
    · cases h
    · rename_i hs
      exact ⟨n, hn, hs⟩

theorem validateNode_eq_error {e : InMemoryEtcd} {node : String} {exc : Exc}
    (h : ClusterMembershipManager.validateNode e node = .error exc) :
    isMigrationError exc = false := by
  unfold ClusterMembershipManager.validateNode at h
  split at h
  · cases h
    rfl
  · split at h
    · cases h
      rfl
    · cases h

theorem validateReplicas_cons (e : InMemoryEtcd) (r : String) (l : List String) :
    ClusterMembershipManager.validateReplicas e (r :: l) =
      (ClusterMembershipManager.validateNode e r >>= fun _ =>
        ClusterMembershipManager.validateReplicas e l) := rfl

theorem validateReplicas_eq_ok {e : InMemoryEtcd} {l : List String}
    (h : ClusterMembershipManager.validateReplicas e l = .ok ()) :
    ∀ r ∈ l, ∃ n, e.getNode r = some n ∧ n.state ≠ .removed := by
  induction l with
  | nil => simp
  | cons r l ih =>
    rw [validateReplicas_cons] at h
    rcases hr : ClusterMembershipManager.validateNode e r with exc | ⟨⟩
    · rw [hr] at h
      cases h
    · rw [hr] at h
      exact List.forall_mem_cons.mpr ⟨validateNode_eq_ok hr, ih h⟩

theorem validateReplicas_eq_error {e : InMemoryEtcd} {l : List String} {exc : Exc}
    (h : ClusterMembershipManager.validateReplicas e l = .error exc) :
    isMigrationError exc = false := by
  induction l with
  | nil => cases h
  | cons r l ih =>
    rw [validateReplicas_cons] at h
    rcases hr : ClusterMembershipManager.validateNode e r with exc' | ⟨⟩
    · rw [hr] at h
      cases h
      exact validateNode_eq_error hr
    · rw [hr] at h
      exact ih h

theorem validateOwnership_eq_ok {s : Shard} (h : s.validateOwnership = .ok ()) :
    s.nodeId ≠ "" ∧ s.nodeId ∉ s.replicas := by
  unfold Shard.validateOwnership at h
  split at h
  · cases h
  · rename_i hn
    split at h
    · cases h
    · rename_i hr
      exact ⟨hn, hr⟩

theorem validateOwnership_eq_error {s : Shard} {exc : Exc} (h : s.validateOwnership = .error exc) :
    isMigrationError exc = false := by
  unfold Shard.validateOwnership at h
  split at h
  · cases h
    rfl
  · split at h
    · cases h
      rfl
    · cases h

namespace ShardMigrationManager

variable {δ : Type} {mgr : ShardMigrationManager} {T : Transfer δ} {w : World δ}

theorem checkMoved_eq_ok {e : InMemoryEtcd} {s : Shard} (h : checkMoved e s = .ok ()) :
    s.nodeId ∉ s.replicas ∧ ∀ r ∈ s.replicas, ∃ n, e.getNode r = some n ∧ n.state ≠ .removed := by
  unfold checkMoved at h
  rcases ho : s.validateOwnership with exc | ⟨⟩
  · rw [ho] at h
    cases h
  · rw [ho] at h
    exact ⟨(validateOwnership_eq_ok ho).2, validateReplicas_eq_ok h⟩

/-- The checks of the commit raise no `MigrationError`. -/
theorem checkMoved_eq_error {e : InMemoryEtcd} {s : Shard} {exc : Exc}
    (h : checkMoved e s = .error exc) :
    isMigrationError exc = false := by
  unfold checkMoved at h
  rcases ho : s.validateOwnership with exc' | ⟨⟩
  · rw [ho] at h
    cases h
    exact validateOwnership_eq_error ho
  · rw [ho] at h
    exact validateReplicas_eq_error h

/-! ## The outcome -/

/-- No shard has changed. -/
def SameShards (w w' : World δ) : Prop := ∀ id, w'.store.get id = w.store.get id

/-- What holds once `commit` of `id` has returned `m`, whose shard was `shard`. -/
structure Committed (T : Transfer δ) (w w' : World δ) (id : String) (m : ShardMigration)
    (shard : Shard) : Prop where
  migration : ∃ m₀, w.store.getMigration id = some m₀ ∧ SameMigration m₀ m
  stored : w'.store.getMigration id = some m
  before : w.store.get m.shardId = some shard
  after : w'.store.get m.shardId =
    some { shard with
      nodeId := m.targetNodeId
      replicas := shard.replicas.filter fun r => r ≠ m.targetNodeId
      version := shard.version + 1 }
  others : ∀ a, a ≠ m.shardId → w'.store.get a = w.store.get a
  notReplica : m.targetNodeId ∉ shard.replicas.filter fun r => r ≠ m.targetNodeId
  members : ∀ r ∈ shard.replicas.filter fun r => r ≠ m.targetNodeId,
    ∃ n, w.store.getNode r = some n ∧ n.state ≠ .removed
  completed : m.state = .completed
  finalized : m.finalized = true ↔
    (T.finalizeSource m.sourceNodeId (moveShard shard m.targetNodeId) w.disks).result = .ok ()
  error : ∀ e, (T.finalizeSource m.sourceNodeId (moveShard shard m.targetNodeId) w.disks).result =
    .error e →
    m.error = some s!"source finalization failed after ownership commit: {e.message}"

/-- Where a commit may end: it has raised and no shard has changed, or it has returned and all is
done. -/
def AllOrNothing (T : Transfer δ) (w : World δ) (id : String) (w' : World δ) :
    Except Exc ShardMigration → Prop
  | .error _ => SameShards w w'
  | .ok m => ∃ shard, Committed T w w' id m shard

/-- The store once the shard is the target's: nothing else has changed. -/
structure Moved (w t : World δ) (m : ShardMigration) (shard : Shard) : Prop where
  checked : checkMoved w.store (moveShard shard m.targetNodeId) = .ok ()
  disks : t.disks = w.disks
  after : t.store.get m.shardId = some (moveShard shard m.targetNodeId)
  others : ∀ a, a ≠ m.shardId → t.store.get a = w.store.get a

/-- The commit is done when its migration `m'` says what `finalize_source` has done. -/
theorem Moved.committed {id : String} {m m' : ShardMigration} {shard : Shard} {t : World δ} {d : δ}
    (hm : Moved w t m shard) (hb : Begun w id .verifying m shard) (hs : SameMigration m m')
    (hcompleted : m'.state = .completed)
    (hfinalized : m'.finalized = true ↔
      (T.finalizeSource m.sourceNodeId (moveShard shard m.targetNodeId) w.disks).result = .ok ())
    (herror : ∀ e, (T.finalizeSource m.sourceNodeId
      (moveShard shard m.targetNodeId) w.disks).result = .error e →
      m'.error = some s!"source finalization failed after ownership commit: {e.message}") :
    Committed T w (putMigration { t with disks := d } m') id m' shard := by
  obtain ⟨hrep, hmem⟩ := checkMoved_eq_ok hm.checked
  have hid : m'.migrationId = id := hs.id.trans (InMemoryEtcd.migration_id hb.migration)
  constructor
  case migration => exact ⟨m, hb.migration, hs⟩
  case stored => exact InMemoryEtcd.getMigration_putMigration.trans (if_pos hid.symm)
  case completed => exact hcompleted
  all_goals try rw [hs.target]
  all_goals try rw [hs.shard]
  case before => exact hb.get
  case after => exact hm.after
  case others => exact hm.others
  case notReplica => exact hrep
  case members => exact hmem
  all_goals rw [hs.source]
  case finalized => exact hfinalized
  case error => exact herror

variable (T) in
theorem sat_finishCommit {id : String} {m : ShardMigration} {shard : Shard} {t : World δ}
    (hm : Moved w t m shard) (hb : Begun w id .verifying m shard) :
    Proc.Sat (finishCommit T (stepTo m .committing) (moveShard shard m.targetNodeId)) t
      (fun _ => True)
      (AllOrNothing T w id) := by
  refine Proc.sat_bind_attempt (sat_inDisks.mpr (Proc.sat_final ?_))
  rw [hm.disks]
  show Proc.Sat (advance _ _) _ _ _
  have hdest : MigrationState.completed ∈ MigrationState.committing.next := by decide
  rcases hf : (T.finalizeSource m.sourceNodeId (moveShard shard m.targetNodeId)
    w.disks).result with exc | ⟨⟩
  · have hf' : (T.finalizeSource (stepTo m .committing).sourceNodeId _ _).result = _ := hf
    rw [hf']
    refine (sat_advance hdest).mpr ⟨trivial, shard,
      hm.committed hb ⟨rfl, rfl, rfl, rfl, rfl, rfl⟩ rfl ?_ fun e he => ?_⟩
    · rw [hf]
      exact ⟨fun h => absurd h Bool.false_ne_true, fun h => by cases h⟩
    · rw [hf] at he
      cases he
      rfl
  · have hf' : (T.finalizeSource (stepTo m .committing).sourceNodeId _ _).result = _ := hf
    rw [hf']
    refine (sat_advance hdest).mpr ⟨trivial, shard,
      hm.committed hb ⟨rfl, rfl, rfl, rfl, rfl, rfl⟩ rfl ?_ fun e he => ?_⟩
    · exact ⟨fun _ => hf, fun _ => rfl⟩
    · rw [hf] at he
      cases he

theorem sat_commit (id : String) :
    Proc.Sat (mgr.commit T id) w (fun _ => True) (AllOrNothing T w id) := by
  refine sat_bind_begin (fun _ _ => rfl) (fun _ _ _ _ _ => ⟨trivial, fun _ => rfl⟩)
    fun m shard hb => ?_
  refine Proc.sat_bind_get (Proc.sat_bind_ofExcept (fun _ _ => ?_) fun _ _ _ => rfl)
  have hshard : (w.store.putMigration (stepTo m .committing)).get shard.id = some shard := by
    rw [hb.shard_id]
    exact hb.get
  refine sat_bind_advance (by rw [hb.state]; decide) trivial
    (sat_bind_inStore trivial (Proc.sat_bind_get ?_))
  dsimp only
  split
  · rename_i hchecked
    -- the record is stored a second time, persisted now
    refine sat_bind_inStore trivial (sat_finishCommit T ⟨hchecked, rfl, ?_, fun a ha => ?_⟩ hb)
    · exact InMemoryEtcd.get_put.trans (if_pos hb.shard_id.symm)
    · have hne : a ≠ shard.id := hb.shard_id ▸ ha
      exact InMemoryEtcd.get_put.trans
        ((if_neg hne).trans (InMemoryEtcd.get_setShard.trans (if_neg hne)))
  · rename_i exc hexc
    split
    · rename_i hmig
      rw [checkMoved_eq_error hexc] at hmig
      cases hmig
    · refine sat_bind_inStore trivial
        (sat_bind_failMigration trivial (Proc.sat_throw.mpr fun a => ?_))
      exact get_rollback hshard _ _

variable (mgr T w) in
/-- `commit` raises and leaves every shard as it was, or returns and has moved the shard of the
migration. -/
theorem commit_all_or_nothing (id : String) :
    (∃ e, (mgr.commit T id w).result = .error e ∧ SameShards w (mgr.commit T id w).final) ∨
      ∃ m shard, (mgr.commit T id w).result = .ok m ∧
        Committed T w (mgr.commit T id w).final id m shard := by
  have h : AllOrNothing T w id (mgr.commit T id w).final (mgr.commit T id w).result :=
    (sat_commit id).2
  rcases hr : (mgr.commit T id w).result with e | m
  · rw [hr] at h
    exact .inl ⟨e, rfl, h⟩
  · rw [hr] at h
    obtain ⟨shard, hc⟩ := h
    exact .inr ⟨m, shard, rfl, hc⟩

end ShardMigrationManager

end Vsector.Sharding
