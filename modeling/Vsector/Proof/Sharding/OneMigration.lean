import Vsector.Proof.Sharding.CommitOutcome
import Vsector.Proof.Sharding.VerifiedCommit

/-!
# The calls of one migration

The calls that lead one migration on, whatever the transfer does: they leave
the other migrations as they were, and theirs is `COMPLETED` only once
`commit` has returned (`touches_perform`). After a call a migration that is
being copied has the digest of its source (`digested_perform`), also after a
`verify` that raised.
-/

namespace Vsector.Sharding

open Framework

namespace ShardMigrationManager

variable {δ α : Type} {mgr : ShardMigrationManager} {T : Transfer δ} {w : World δ}
  {id shardId : String}

/-- A call that leads the migration `id` of a shard on. -/
def leadsOn (id shardId : String) : MigrationStep → Bool
  | .createMigration uuid4 _ s _ => uuid4 = id ∧ s = shardId
  | .prepare a | .startCopy a | .verify a | .commit a => a = id
  | .cancel _ | .fail .. => false

/-! ## What is touched -/

/-- The other migrations are as they were, and that of `id` is not completed unless the call is
`done`. -/
structure Touches (e : InMemoryEtcd) (id : String) (done : Prop) (e' : InMemoryEtcd) : Prop where
  others : ∀ a, a ≠ id → e'.getMigration a = e.getMigration a
  own : ¬ done → ∀ m, e'.getMigration id = some m → m.state ≠ .completed

variable {e e' e'' : InMemoryEtcd} {m : ShardMigration} {done : Prop}

/-- The migration is not completed. -/
def Uncompleted (e : InMemoryEtcd) (id : String) : Prop :=
  ∀ m, e.getMigration id = some m → m.state ≠ .completed

theorem Uncompleted.touches (h : Uncompleted e id) : Touches e id done e :=
  ⟨fun _ _ => rfl, fun _ => h⟩

theorem Touches.set (h : Touches e id done e') (hid : m.migrationId = id)
    (hm : ¬ done → m.state ≠ .completed)
    (he : ∀ a, e''.getMigration a = if a = m.migrationId then some m else e'.getMigration a) :
    Touches e id done e'' := by
  refine ⟨fun a ha => ?_, fun hdone m' hm' => ?_⟩
  · rw [he, hid, if_neg ha, h.others a ha]
  · rw [he, hid, if_pos rfl] at hm'
    cases hm'
    exact hm hdone

theorem Touches.put (h : Touches e id done e') (hid : m.migrationId = id)
    (hm : ¬ done → m.state ≠ .completed) :
    Touches e id done (e'.putMigration m) :=
      h.set hid hm fun _ => InMemoryEtcd.getMigration_putMigration

/-- A change of the shards. -/
theorem Touches.congr (h : Touches e id done e')
    (he : ∀ a, e''.getMigration a = e'.getMigration a) : Touches e id done e'' :=
  ⟨fun a ha => (he a).trans (h.others a ha), fun hdone m hm =>
    h.own hdone m ((he id).symm.trans hm)⟩

theorem failed_ne_completed (h : m.state ≠ .completed) (error : String) :
    (failed m error).state ≠ .completed := by
  unfold failed ShardMigration.transition
  split
  · rename_i m' hm'
    split at hm'
    · cases hm'
      simp
    · cases hm'
  · exact h

theorem Touches.failed (h : Touches e id done e') (hid : m.migrationId = id)
    (hm : m.state ≠ .completed) (error : String) :
    Touches e id done (e'.putMigration (failed m error)) :=
      h.put (failed_id hid) fun _ => failed_ne_completed hm error

theorem touches_begin (hw : Uncompleted w.store id) {expected : MigrationState}
    {done : Except Exc α → Prop} {f : ShardMigration × Shard → Proc (World δ) Exc α}
    (h : ∀ m shard, Begun w id expected m shard → m.migrationId = id →
      Proc.Sat (f (m, shard)) w (fun _ => True) fun t r => Touches w.store id (done r) t.store) :
    Proc.Sat (begin id expected >>= f) w (fun _ => True) fun t r =>
      Touches w.store id (done r) t.store :=
  sat_bind_begin (fun _ => hw.touches)
    (fun m error _ hm _ =>
      ⟨trivial, hw.touches.failed (InMemoryEtcd.migration_id hm) (hw m hm) error⟩)
    fun m shard hb => h m shard hb (InMemoryEtcd.migration_id hb.migration)

theorem touches_prepare (hw : Uncompleted w.store id) :
    Proc.Sat (prepare id) w (fun _ => True) fun t _ => Touches w.store id False t.store :=
  touches_begin hw fun m _ hb hid => (sat_advance (by rw [hb.state]; decide)).mpr
    ⟨trivial, hw.touches.put ((sameMigration_stepTo m .preparing).id.trans hid) fun _ =>
      by simp [stepTo]⟩

theorem touches_startCopy (hw : Uncompleted w.store id) :
    Proc.Sat (startCopy T id) w (fun _ => True) fun t _ => Touches w.store id False t.store := by
  refine touches_begin hw fun m shard hb hid => ?_
  have hput : Touches w.store id False (w.store.putMigration (stepTo m .copying)) :=
    hw.touches.put hid fun _ => by simp [stepTo]
  refine sat_bind_advance (by rw [hb.state]; decide) trivial (Proc.sat_bind_attempt ?_)
  have hcopy : Proc.Sat (copyData T (stepTo m .copying) shard) (putMigration w (stepTo m .copying))
      (fun _ => True)
      fun t _ => Touches w.store id False t.store := by
    refine sat_bind_inDisks (sat_any fun _ => trivial) (fun _ data _ => ?_) fun _ _ _ => hput
    refine sat_bind_inDisks (sat_any fun _ => trivial) (fun _ _ _ => ?_) fun _ _ _ => hput
    let m₁ : ShardMigration := { stepTo m .copying with sourceDigest := some data.digest }
    have hset : Touches w.store id False
        ((w.store.putMigration (stepTo m .copying)).setMigration m₁) :=
      hput.set (m := m₁) hid (fun _ => by simp [m₁, stepTo]) fun _ =>
        InMemoryEtcd.getMigration_setMigration
    refine sat_bind_inStore trivial (sat_bind_inDisks (sat_any fun _ => trivial)
      (fun _ target _ => ?_) fun _ _ _ => hset)
    exact sat_bind_inStore trivial (Proc.sat_pure.mpr
      (hset.put (m := { m₁ with targetDigest := some target }) hid fun _ => by simp [m₁, stepTo]))
  refine hcopy.mono (fun _ h => h) fun t r ht => ?_
  rcases r with e | a
  · refine Proc.sat_bind_get ?_
    -- the migration that the handler fails is the store's
    have hlive : ((t.store.getMigration id).getD (stepTo m .copying)).migrationId = id ∧
        ((t.store.getMigration id).getD (stepTo m .copying)).state ≠ .completed := by
      rcases hm' : t.store.getMigration id with _ | m'
      · exact ⟨hid, by simp [stepTo]⟩
      · exact ⟨InMemoryEtcd.migration_id hm', ht.own not_false m' hm'⟩
    have hfailed := ht.failed hlive.1 hlive.2
    cases e
    all_goals exact sat_bind_failMigration trivial (Proc.sat_throw.mpr (hfailed _))
  · exact Proc.sat_pure.mpr ht

theorem touches_verify (hw : Uncompleted w.store id) :
    Proc.Sat (verify T id) w (fun _ => True) fun t _ => Touches w.store id False t.store := by
  refine touches_begin hw fun m shard hb hid => ?_
  have hput : Touches w.store id False (w.store.putMigration (stepTo m .verifying)) :=
    hw.touches.put hid fun _ => by simp [stepTo]
  refine sat_bind_advance (by rw [hb.state]; decide) trivial
    (Proc.sat_bind_attempt (sat_inDisks.mpr ?_))
  refine (sat_any fun _ => trivial).mono (fun _ _ => trivial) fun d r _ => ?_
  rcases r with e | actual
  · cases e
    case migrationVerification =>
      refine sat_bind_failMigration trivial (Proc.sat_throw.mpr ?_)
      exact hput.failed (m := stepTo m .verifying) hid (by simp [stepTo]) _
    all_goals exact Proc.sat_throw.mpr hput
  · exact sat_bind_inStore trivial (Proc.sat_pure.mpr
      (hput.put (m := { stepTo m .verifying with targetDigest := some actual }) hid fun _ =>
        by simp [stepTo]))

theorem touches_finishCommit {moved : Shard} {t : World δ} (h : ∀ done, Touches e id done t.store)
    (hid : m.migrationId = id) (hstate : m.state = .committing) :
    Proc.Sat (finishCommit T m moved) t (fun _ => True) fun u r =>
      Touches e id (r.isOk = true) u.store := by
  refine Proc.sat_bind_attempt
    (sat_inDisks.mpr ((sat_any fun _ => trivial).mono (fun _ _ => trivial) fun d r _ => ?_))
  have hadvance : ∀ (m' : ShardMigration) (u : World δ), m'.migrationId = id →
      m'.state = .committing →
      (∀ done, Touches e id done u.store) →
      Proc.Sat (advance m' .completed) u (fun _ => True) fun u r =>
        Touches e id (r.isOk = true) u.store := by
    intro m' u hid' hs hu
    refine (sat_advance (by rw [hs]; decide)).mpr ⟨trivial, ?_⟩
    exact (hu _).put (m := stepTo m' .completed) hid' fun hok => absurd rfl hok
  rcases r with exc | u
  · exact hadvance _ _ hid hstate h
  · exact hadvance _ _ hid hstate h

/-- `commit` leaves its migration completed only where it returns. -/
theorem touches_commit (hw : Uncompleted w.store id) :
    Proc.Sat (mgr.commit T id) w (fun _ => True) fun t r =>
      Touches w.store id (r.isOk = true) t.store := by
  refine touches_begin hw fun m shard hb hid => ?_
  have hput : ∀ done, Touches w.store id done (w.store.putMigration (stepTo m .committing)) :=
    fun _ =>
    hw.touches.put hid fun _ => by simp [stepTo]
  refine Proc.sat_bind_get (Proc.sat_bind_ofExcept (fun _ _ => ?_) fun _ _ => hw.touches)
  refine sat_bind_advance (by rw [hb.state]; decide) trivial
    (sat_bind_inStore trivial (Proc.sat_bind_get ?_))
  dsimp only
  split
  · exact sat_bind_inStore trivial
      (touches_finishCommit (m := stepTo m .committing)
        (fun _ => (hput _).congr fun _ => rfl) hid rfl)
  · split
    · exact Proc.sat_throw.mpr ((hput _).congr fun _ => rfl)
    · refine sat_bind_inStore trivial (sat_bind_failMigration trivial (Proc.sat_throw.mpr ?_))
      refine Touches.failed (m := stepTo m .committing) ?_ hid (by simp [stepTo]) _
      exact (hput _).congr fun _ => rfl

theorem touches_createMigration {ns target : String} (hf : w.store.getMigration id = none) :
    Proc.Sat (mgr.createMigration id ns shardId target) w (fun _ => True) fun t _ =>
      Touches w.store id False t.store := by
  have hw : Uncompleted w.store id := fun m hm => by
    rw [hf] at hm
    cases hm
  refine Proc.sat_bind_get (Proc.sat_bind_ofExcept (fun m hm => ?_) fun _ _ => hw.touches)
  obtain ⟨shard, -, -, -, -, -, rfl⟩ := newMigration_eq_ok hm
  exact sat_bind_inStore trivial (Proc.sat_pure.mpr (hw.touches.put rfl fun _ => by simp))

/-- A call touches its own migration only, which is completed once `commit` has returned, and not
before. -/
theorem touches_perform {step : MigrationStep} (hw : Uncompleted w.store id)
    (hstep : leadsOn id shardId step = true) (hf : isFresh w.store step = true) :
    Proc.Sat (mgr.perform T step) w (fun _ => True) fun t r =>
      Touches w.store id (step = .commit id ∧ r.isOk = true) t.store := by
  have hnever : ∀ {p : Proc (World δ) Exc ShardMigration} {done : Except Exc ShardMigration → Prop},
      Proc.Sat p w (fun _ => True) (fun t _ => Touches w.store id False t.store) →
        Proc.Sat p w (fun _ => True) fun t r => Touches w.store id (done r) t.store :=
    fun hp => hp.mono (fun _ h => h) fun _ _ ht => ⟨ht.others, fun _ => ht.own not_false⟩
  cases step with
  | createMigration uuid4 ns s target =>
    obtain ⟨rfl, rfl⟩ : uuid4 = id ∧ s = shardId := by simpa [leadsOn] using hstep
    exact hnever (touches_createMigration (Option.isNone_iff_eq_none.mp hf))
  | prepare a =>
    obtain rfl : a = id := by simpa [leadsOn] using hstep
    exact hnever (touches_prepare hw)
  | startCopy a =>
    obtain rfl : a = id := by simpa [leadsOn] using hstep
    exact hnever (touches_startCopy hw)
  | verify a =>
    obtain rfl : a = id := by simpa [leadsOn] using hstep
    exact hnever (touches_verify hw)
  | commit a =>
    obtain rfl : a = id := by simpa [leadsOn] using hstep
    exact touches_commit hw |>.mono (fun _ h => h) fun _ _ ht =>
      ⟨ht.others, fun h => ht.own fun hok => h ⟨rfl, hok⟩⟩
  | cancel a => cases hstep
  | fail a error => cases hstep

/-! ## Before it and after it -/

variable (mgr) in
/-- A call of a migration that is not there, or has ended, changes nothing, unless it creates it. -/
theorem perform_ended {step : MigrationStep} (hstep : leadsOn id shardId step = true)
    (hf : isFresh w.store step = true)
    (h : ∀ m, w.store.getMigration id = some m → m.state.isTerminal = true) :
    (mgr.perform T step w).final = w ∨
      w.store.getMigration id = none ∧
      ∃ ns target, step = .createMigration id ns shardId target := by
  have hbegin : ∀ {expected : MigrationState} {f : ShardMigration × Shard →
      Proc (World δ) Exc ShardMigration},
      expected.isTerminal = false →
        (begin id expected >>= f).Sat w (fun _ => True) fun t _ => t = w := by
    intro expected f hexp
    have hne : ∀ m, w.store.getMigration id = some m → m.state ≠ expected := fun m hm he => by
      have ht := h m hm
      rw [he, hexp] at ht
      cases ht
    exact sat_bind_begin (fun _ => rfl) (fun m _ _ hm hs => absurd hs (hne m hm)) fun m _ hb =>
      absurd hb.state (hne m hb.migration)
  cases step with
  | createMigration uuid4 ns s target =>
    obtain ⟨rfl, rfl⟩ : uuid4 = id ∧ s = shardId := by simpa [leadsOn] using hstep
    exact .inr ⟨Option.isNone_iff_eq_none.mp hf, ns, target, rfl⟩
  | prepare a =>
    obtain rfl : a = id := by simpa [leadsOn] using hstep
    exact .inl (hbegin rfl).2
  | startCopy a =>
    obtain rfl : a = id := by simpa [leadsOn] using hstep
    exact .inl (hbegin rfl).2
  | verify a =>
    obtain rfl : a = id := by simpa [leadsOn] using hstep
    exact .inl (hbegin rfl).2
  | commit a =>
    obtain rfl : a = id := by simpa [leadsOn] using hstep
    exact .inl (hbegin rfl).2
  | cancel a => cases hstep
  | fail a error => cases hstep

/-- What a new migration leads from. -/
theorem create_source {ns target : String} (hf : w.store.getMigration id = none) :
    ∀ m, (mgr.createMigration id ns shardId target w).final.store.getMigration id = some m →
      m.shardId = shardId ∧ ∃ shard, w.store.get shardId = some shard ∧
        shard.nodeId = m.sourceNodeId := by
  have hsat : Proc.Sat (mgr.createMigration id ns shardId target) w (fun _ => True) fun t _ =>
      ∀ m, t.store.getMigration id = some m →
        m.shardId = shardId ∧ ∃ shard, w.store.get shardId = some shard ∧
          shard.nodeId = m.sourceNodeId := by
    refine Proc.sat_bind_get (Proc.sat_bind_ofExcept (fun m hm => ?_) fun _ _ m hm => ?_)
    · obtain ⟨shard, hshard, -, -, -, -, rfl⟩ := newMigration_eq_ok hm
      refine sat_bind_inStore trivial (Proc.sat_pure.mpr fun m hm => ?_)
      cases getMigration_self.symm.trans hm
      exact ⟨rfl, shard, hshard, rfl⟩
    · rw [hf] at hm
      cases hm
  exact hsat.2

/-! ## Digests -/

/-- A migration that is being copied has the digest of its source. -/
def Digested (e : InMemoryEtcd) : Prop :=
  ∀ id m, e.getMigration id = some m → m.state = .copying → m.sourceDigest.isSome

theorem Digested.put (h : Digested e) (hm : m.state ≠ .copying) : Digested (e.putMigration m) := by
  intro a b hb hs
  rw [InMemoryEtcd.getMigration_putMigration] at hb
  split at hb
  · cases hb
    exact absurd hs hm
  · exact h a b hb hs

theorem LeavesJustified.digested {call : MigrationStep × Transfer δ} (h : LeavesJustified w call e)
    (hw : Digested w.store) :
    Digested e := by
  obtain hsame | ⟨id, m, hrewrites, hjust⟩ := h
  · intro a b hb
    rw [hsame] at hb
    exact hw a b hb
  · intro a b hb hs
    rw [hrewrites] at hb
    split at hb
    · cases hb
      obtain hold | ⟨-, hd⟩ | ⟨hv, -⟩ | ⟨hn, -⟩ := hjust
      · exact hw id m hold hs
      · exact hd
      · rw [hs] at hv
        cases hv
      · exact absurd hs hn
    · exact hw a b hb hs

theorem digested_verify (hw : Digested w.store) :
    Proc.Sat (verify T id) w (fun _ => True) fun t _ => Digested t.store := by
  refine sat_bind_begin (fun _ => hw) (fun m error e hm hs => ⟨trivial, hw.put ?_⟩)
    fun m shard hb => ?_
  · rw [failed_state (by rw [hs]; rfl)]
    decide
  · have hput : Digested (w.store.putMigration (stepTo m .verifying)) := hw.put (by simp [stepTo])
    refine sat_bind_advance (by rw [hb.state]; decide) trivial
      (Proc.sat_bind_attempt (sat_inDisks.mpr ?_))
    refine (sat_any fun _ => trivial).mono (fun _ _ => trivial) fun d r _ => ?_
    rcases r with e | actual
    · cases e
      case migrationVerification =>
        refine sat_bind_failMigration trivial (Proc.sat_throw.mpr (hput.put ?_))
        rw [failed_state rfl]
        decide
      all_goals exact Proc.sat_throw.mpr hput
    · exact sat_bind_inStore trivial (Proc.sat_pure.mpr (hput.put (by simp [stepTo])))

theorem digested_perform (hw : Digested w.store) (step : MigrationStep) :
    Digested (mgr.perform T step w).final.store := by
  cases step with
  | createMigration uuid4 ns s target =>
    exact (leaves_createMigration (T := T) uuid4 ns s target).2.digested hw
  | prepare id => exact (leaves_prepare (T := T) id).2.digested hw
  | startCopy id => exact (leaves_startCopy id).2.digested hw
  | verify id => exact (digested_verify hw).2
  | commit id => exact (leaves_commit id).2.digested hw
  | cancel id => exact (leaves_cancel id).2.digested hw
  | fail id error => exact (leaves_fail (T := T) id error).2.digested hw

end ShardMigrationManager

end Vsector.Sharding
