import Vsector.Framework.Run
import Vsector.Proof.Sharding.MigrationSteps

/-!
# Ownership moves after a verification

A migration is in the state `VERIFYING` before `verify_shard` is called, and
only a `MigrationVerificationError` takes it out of it again. Where
`verify_shard` raises nothing else, every migration in that state has been
verified (`Justified`), and `commit` moves ownership only then
(`moves_verified`), whatever the other calls of the transfer do. After any
other exception the migration is left to be committed unverified
(`verify_leaves_verifying`).
-/

namespace Vsector.Sharding

open Framework

namespace ShardMigrationManager

variable {δ : Type} {mgr : ShardMigrationManager} {T : Transfer δ} {w : World δ}

variable (mgr) in
/-- One call, which may be given any transfer. -/
def callStep (w : World δ) (call : MigrationStep × Transfer δ) : Option (World δ) :=
  if isFresh w.store call.1 then some (mgr.perform call.2 call.1 w).final else none

/-- The `verify_shard` call of `verify`. -/
def verifyCall (T : Transfer δ) (w : World δ) (m : ShardMigration) (shard : Shard) :
    Except Exc String :=
  (T.verifyShard m.targetNodeId shard m.sourceDigest w.disks).result

/-- `verify_shard` raises nothing but a mismatch. -/
def RaisesMismatch (w : World δ) (call : MigrationStep × Transfer δ) : Prop :=
  ∀ id, call.1 = .verify id → ∀ m shard, Begun w id .copying m shard →
    ∀ e, verifyCall call.2 w m shard = .error e →
    ∃ ns shardId expected actual, e = .migrationVerification ns shardId expected actual

/-- The call is a `verify` of the migration, and `verify_shard` returned for the digest that was
captured. -/
def Verifies (w : World δ) (call : MigrationStep × Transfer δ) (id : String) : Prop :=
  call.1 = .verify id ∧ ∃ m shard digest actual, Begun w id .copying m shard ∧
    m.sourceDigest = some digest ∧
    verifyCall call.2 w m shard = .ok actual

/-- What a call may leave of a migration: what was there, a migration with a digest that is being
copied, one that was just verified, or one in none of these two states. -/
def Justified (w : World δ) (call : MigrationStep × Transfer δ) (id : String) (m : ShardMigration) :
    Prop :=
  w.store.getMigration id = some m ∨ (m.state = .copying ∧ m.sourceDigest.isSome) ∨
    (m.state = .verifying ∧ Verifies w call id) ∨ (m.state ≠ .copying ∧ m.state ≠ .verifying)

theorem failed_mem_next {st : MigrationState} (h : st.isTerminal = false) : .failed ∈ st.next := by
  revert h
  cases st <;> decide

theorem failed_state {m : ShardMigration} (h : m.state.isTerminal = false) (error : String) :
    (failed m error).state = .failed := by
  unfold failed
  rw [transition_eq (failed_mem_next h)]
  rfl

/-- Of the migrations, only that of `id` was rewritten, and is now `m`. -/
def Rewrites (e : InMemoryEtcd) (id : String) (m : ShardMigration) (e' : InMemoryEtcd) : Prop :=
  ∀ a, e'.getMigration a = if a = id then some m else e.getMigration a

theorem rewrites_put {e : InMemoryEtcd} {id : String} {m : ShardMigration}
    (hid : m.migrationId = id) :
    Rewrites e id m (e.putMigration m) := fun _ => hid ▸ InMemoryEtcd.getMigration_putMigration

theorem Rewrites.put {e e' : InMemoryEtcd} {id : String} {m m' : ShardMigration}
    (h : Rewrites e id m e') (hid : m'.migrationId = id) :
    Rewrites e id m' (e'.putMigration m') := by
  intro a
  rw [InMemoryEtcd.getMigration_putMigration, hid]
  split
  · rfl
  · rename_i ha
    rw [h a, if_neg ha]

/-- How a call leaves the migrations: untouched, or with one of them rewritten, which is
justified. -/
def LeavesJustified (w : World δ) (call : MigrationStep × Transfer δ) (e : InMemoryEtcd) : Prop :=
  (∀ a, e.getMigration a = w.store.getMigration a) ∨ ∃ id m, Rewrites w.store id m e ∧
    Justified w call id m

section

variable {α : Type} {call : MigrationStep × Transfer δ} {id error : String} {m : ShardMigration}
  {e : InMemoryEtcd}

/-- A migration in neither of the two states. -/
theorem leaves_other (state : MigrationState) (h : Rewrites w.store id m e)
    (hstate : m.state = state) (hother : state ≠ .copying ∧ state ≠ .verifying) :
    LeavesJustified w call e :=
  .inr ⟨id, m, h, .inr (.inr (.inr (hstate ▸ hother)))⟩

theorem leaves_failed (hm : m.state.isTerminal = false)
    (h : Rewrites w.store id (failed m error) e) :
    LeavesJustified w call e := leaves_other .failed h (failed_state hm error) (by decide)

theorem stepTo_id (hm : e.getMigration id = some m) (dest : MigrationState) :
    (stepTo m dest).migrationId = id :=
  (sameMigration_stepTo m dest).id.trans (InMemoryEtcd.migration_id hm)

theorem failed_id (hid : m.migrationId = id) : (failed m error).migrationId = id :=
  (sameMigration_failed m error).id.trans hid

theorem leaves_begin {expected : MigrationState} (hexp : expected.isTerminal = false)
    {f : ShardMigration × Shard → Proc (World δ) Exc α}
    (h : ∀ m shard, Begun w id expected m shard →
      Proc.Sat (f (m, shard)) w (fun _ => True) fun t _ => LeavesJustified w call t.store) :
    Proc.Sat (begin id expected >>= f) w (fun _ => True) fun t _ =>
      LeavesJustified w call t.store := by
  refine sat_bind_begin (fun _ => .inl fun _ => rfl) (fun m error e hm hs => ⟨trivial, ?_⟩) h
  exact leaves_failed (hs ▸ hexp) (rewrites_put (failed_id (InMemoryEtcd.migration_id hm)))

end

theorem leaves_prepare (id : String) :
    Proc.Sat (prepare id) w (fun _ => True) fun t _ =>
      LeavesJustified w (.prepare id, T) t.store := by
  refine leaves_begin rfl fun m shard hb => ?_
  have hid := stepTo_id hb.migration .preparing
  exact (sat_advance (by rw [hb.state]; decide)).mpr ⟨trivial,
    leaves_other .preparing (rewrites_put hid) rfl (by decide)⟩

theorem leaves_verify (id : String) (hraises : RaisesMismatch w (.verify id, T)) (hdigest : ∀ m,
    w.store.getMigration id = some m → m.state = .copying → m.sourceDigest.isSome) :
    Proc.Sat (verify T id) w (fun _ => True) fun t _ =>
      LeavesJustified w (.verify id, T) t.store := by
  refine leaves_begin rfl fun m shard hb => ?_
  have hid := stepTo_id hb.migration .verifying
  have hput := rewrites_put (e := w.store) hid
  refine sat_bind_advance (by rw [hb.state]; decide) trivial
    (Proc.sat_bind_attempt (sat_inDisks.mpr ?_))
  refine Proc.sat_self.mono (fun _ _ => trivial) fun d r hr => ?_
  have hcall : r = verifyCall T w m shard := hr.2
  rcases r with e | actual
  · obtain ⟨ns, shardId, expected, actual, rfl⟩ := hraises id rfl m shard hb e hcall.symm
    refine sat_bind_failMigration trivial (Proc.sat_throw.mpr ?_)
    exact leaves_failed rfl (hput.put (failed_id hid))
  · obtain ⟨digest, hd⟩ := Option.isSome_iff_exists.mp (hdigest m hb.migration hb.state)
    refine sat_bind_inStore trivial
      (Proc.sat_pure.mpr (.inr ⟨id, _, hput.put hid, .inr (.inr (.inl ⟨rfl, rfl, ?_⟩))⟩))
    exact ⟨m, shard, digest, actual, hb, hd, hcall.symm⟩

theorem leaves_startCopy (id : String) :
    Proc.Sat (startCopy T id) w (fun _ => True) fun t _ =>
      LeavesJustified w (.startCopy id, T) t.store := by
  refine leaves_begin rfl fun m shard hb => ?_
  have hid := stepTo_id hb.migration .copying
  have hput := rewrites_put (e := w.store) hid
  refine sat_bind_advance (by rw [hb.state]; decide) trivial (Proc.sat_bind_attempt ?_)
  -- After the copy the migration is being copied, and has a digest if the copy succeeded.
  have hcopy : Proc.Sat (copyData T (stepTo m .copying) shard) (putMigration w (stepTo m .copying))
      (fun _ => True)
      fun t r => ∃ m', Rewrites w.store id m' t.store ∧ m'.migrationId = id ∧ m'.state = .copying ∧
        (r.isOk → m'.sourceDigest.isSome) := by
    refine sat_bind_inDisks (sat_any fun _ => trivial) (fun d data _ => ?_)
      fun _ _ _ => ⟨stepTo m .copying, hput, hid, rfl, fun h => by cases h⟩
    refine sat_bind_inDisks (sat_any fun _ => trivial) (fun d u _ => ?_)
      fun _ _ _ => ⟨stepTo m .copying, hput, hid, rfl, fun h => by cases h⟩
    let m₁ : ShardMigration := { stepTo m .copying with sourceDigest := some data.digest }
    have hset : Rewrites w.store id m₁
        ((w.store.putMigration (stepTo m .copying)).setMigration m₁) := hput.put hid
    refine sat_bind_inStore trivial (sat_bind_inDisks (sat_any fun _ => trivial)
      (fun d target _ => ?_)
      fun _ _ _ => ⟨m₁, hset, hid, rfl, fun h => by cases h⟩)
    refine sat_bind_inStore trivial (Proc.sat_pure.mpr ⟨{ m₁ with targetDigest := some target }, ?_,
      hid, rfl, fun _ => rfl⟩)
    exact hset.put hid
  refine hcopy.mono (fun _ h => h) fun t r ht => ?_
  obtain ⟨m', hm', hid', hstate, hdigest⟩ := ht
  rcases r with e | a
  · have hget : (t.store.getMigration id).getD (stepTo m .copying) = m' := by
      rw [hm' id, if_pos rfl]
      rfl
    refine Proc.sat_bind_get ?_
    rw [hget]
    have hfailed : ∀ error, LeavesJustified w (.startCopy id, T)
        (t.store.putMigration (failed m' error)) := fun error =>
      leaves_failed (hstate ▸ rfl) (hm'.put (failed_id hid'))
    cases e
    all_goals exact sat_bind_failMigration trivial (Proc.sat_throw.mpr (hfailed _))
  · exact Proc.sat_pure.mpr (.inr ⟨id, m', hm', .inr (.inl ⟨hstate, hdigest rfl⟩)⟩)

theorem leaves_commit (id : String) :
    Proc.Sat (mgr.commit T id) w (fun _ => True) fun t _ =>
      LeavesJustified w (.commit id, T) t.store := by
  refine leaves_begin rfl fun m shard hb => ?_
  have hid := stepTo_id hb.migration .committing
  have hput := rewrites_put (e := w.store) hid
  refine Proc.sat_bind_get (Proc.sat_bind_ofExcept (fun _ _ => ?_) fun _ _ => .inl fun _ => rfl)
  refine sat_bind_advance (by rw [hb.state]; decide) trivial
    (sat_bind_inStore trivial (Proc.sat_bind_get ?_))
  dsimp only
  split
  · refine sat_bind_inStore trivial (Proc.sat_bind_attempt (sat_inDisks.mpr ?_))
    refine (sat_any fun _ => trivial).mono (fun _ _ => trivial) fun d r _ => ?_
    cases r
    all_goals
      refine (sat_advance ?_).mpr ⟨trivial, leaves_other .completed (hput.put hid) rfl (by decide)⟩
      show MigrationState.completed ∈ MigrationState.committing.next
      decide
  · split
    · exact Proc.sat_throw.mpr (leaves_other .committing hput rfl (by decide))
    · refine sat_bind_inStore trivial (sat_bind_failMigration trivial (Proc.sat_throw.mpr ?_))
      exact leaves_failed rfl (hput.put (failed_id hid))

theorem leaves_cancel (id : String) :
    Proc.Sat (cancel T id) w (fun _ => True) fun t _ =>
      LeavesJustified w (.cancel id, T) t.store := by
  refine Proc.sat_bind.mpr (sat_require.mpr ?_)
  split
  · exact .inl fun _ => rfl
  · rename_i m hm
    show Proc.Sat (if _ then _ else _) w (fun _ => True) fun t _ =>
      LeavesJustified w (.cancel id, T) t.store
    split
    · exact Proc.sat_throw.mpr (.inl fun _ => rfl)
    · rename_i hc
      have hdest : MigrationState.cancelled ∈ m.state.next :=
        mem_next_of_cancelable (by simpa using hc)
      refine Proc.Sat.bind (sat_discardCopy (Q := fun t _ => t.store = w.store)
        (fun _ => rfl)) ?_ ?_
      · intro t _ ht
        refine (sat_advance hdest).mpr ⟨trivial, ?_⟩
        show LeavesJustified w (.cancel id, T) (t.store.putMigration _)
        rw [ht]
        exact leaves_other .cancelled (rewrites_put (stepTo_id hm .cancelled)) rfl (by decide)
      · intro t e ht
        rw [ht]
        exact .inl fun _ => rfl

theorem leaves_fail (id error : String) :
    Proc.Sat (fail id error) w (fun _ => True) fun t _ =>
      LeavesJustified w (.fail id error, T) t.store := by
  refine Proc.sat_bind.mpr (sat_require.mpr ?_)
  split
  · exact .inl fun _ => rfl
  · rename_i m hm
    show Proc.Sat (if _ then _ else _) w (fun _ => True) fun t _ =>
      LeavesJustified w (.fail id error, T) t.store
    split
    · exact Proc.sat_throw.mpr (.inl fun _ => rfl)
    · rename_i hopen
      have hput : Rewrites w.store id (failed m error) (w.store.putMigration (failed m error)) :=
        rewrites_put (failed_id (InMemoryEtcd.migration_id hm))
      exact sat_failMigration.mpr ⟨trivial, leaves_failed (Bool.eq_false_iff.mpr hopen) hput⟩

theorem leaves_createMigration (uuid4 ns shardId target : String) :
    Proc.Sat (mgr.createMigration uuid4 ns shardId target) w (fun _ => True) fun t _ =>
      LeavesJustified w (.createMigration uuid4 ns shardId target, T) t.store := by
  refine Proc.sat_bind_get (Proc.sat_bind_ofExcept (fun m hm => ?_) fun _ _ => .inl fun _ => rfl)
  obtain ⟨shard, -, -, -, -, -, rfl⟩ := newMigration_eq_ok hm
  exact sat_bind_inStore trivial
    (Proc.sat_pure.mpr (leaves_other .pending (rewrites_put rfl) rfl (by decide)))

variable (mgr) in
/-- What is known of the migrations after a call, where those that are copied have a digest. -/
theorem leaves_perform (call : MigrationStep × Transfer δ) (hraises : RaisesMismatch w call)
    (hdigest : ∀ id m, w.store.getMigration id = some m → m.state = .copying →
      m.sourceDigest.isSome) :
    LeavesJustified w call (mgr.perform call.2 call.1 w).final.store := by
  obtain ⟨step, T⟩ := call
  cases step with
  | createMigration uuid4 ns shardId target =>
    exact (leaves_createMigration uuid4 ns shardId target).2
  | prepare id => exact (leaves_prepare id).2
  | startCopy id => exact (leaves_startCopy id).2
  | verify id => exact (leaves_verify id hraises (hdigest id)).2
  | commit id => exact (leaves_commit id).2
  | cancel id => exact (leaves_cancel id).2
  | fail id error => exact (leaves_fail id error).2

/-! ## Runs -/

variable (mgr) in
/-- The migration was verified by one of the calls that led from `w` on. -/
def VerifiedIn (w : World δ) (calls : List (MigrationStep × Transfer δ)) (id : String) : Prop :=
  ∃ earlier call later u, calls = earlier ++ call :: later ∧ run (callStep mgr) w earlier = some u ∧
    Verifies u call id

variable (mgr) in
/-- The call is a `commit` of the migration, and some shard has another owner at one of its points,
or at its end. -/
def MovesOwner (w : World δ) (call : MigrationStep × Transfer δ) (id : String) : Prop :=
  call.1 = .commit id ∧ ∃ t, (t ∈ (mgr.perform call.2 call.1 w).points ∨
    t = (mgr.perform call.2 call.1 w).final) ∧
    ∃ shardId s s', w.store.get shardId = some s ∧ t.store.get shardId = some s' ∧
      s'.nodeId ≠ s.nodeId

variable (mgr) in
/-- In the run, `commit` moves the ownership of a shard only once the migration was verified. -/
def VerifiedMoves (w₀ : World δ) (calls : List (MigrationStep × Transfer δ)) : Prop :=
  ∀ before call after w id, calls = before ++ call :: after →
    run (callStep mgr) w₀ before = some w →
    MovesOwner mgr w call id → VerifiedIn mgr w₀ before id

variable (mgr) in
/-- The calls so far lead to a store where a migration being copied has a digest, and one in
`VERIFYING` was verified. -/
structure Accounted (w₀ : World δ) (calls : List (MigrationStep × Transfer δ)) (w : World δ) :
    Prop where
  run : run (callStep mgr) w₀ calls = some w
  digest : ∀ id m, w.store.getMigration id = some m → m.state = .copying → m.sourceDigest.isSome
  verified : ∀ id m, w.store.getMigration id = some m → m.state = .verifying →
    VerifiedIn mgr w₀ calls id

theorem VerifiedIn.append {w₀ : World δ} {calls : List (MigrationStep × Transfer δ)} {id : String}
    (h : VerifiedIn mgr w₀ calls id) (calls' : List (MigrationStep × Transfer δ)) :
    VerifiedIn mgr w₀ (calls ++ calls') id := by
  obtain ⟨earlier, call, later, u, rfl, hrun, hv⟩ := h
  exact ⟨earlier, call, later ++ calls', u, by rw [List.append_assoc, List.cons_append], hrun, hv⟩

theorem accounted_step {w₀ t : World δ} {calls : List (MigrationStep × Transfer δ)}
    {call : MigrationStep × Transfer δ} (h : Accounted mgr w₀ calls w)
    (hraises : RaisesMismatch w call) (hstep : callStep mgr w call = some t) :
    Accounted mgr w₀ (calls ++ [call]) t := by
  have hrun : run (callStep mgr) w₀ (calls ++ [call]) = some t :=
    run_append_eq_some.mpr ⟨w, h.run, run_cons_eq_some.mpr ⟨t, hstep, rfl⟩⟩
  unfold callStep at hstep
  split at hstep
  · cases hstep
    rcases leaves_perform mgr call hraises h.digest with hsame | ⟨id, m, hrewrites, hjust⟩
    · refine ⟨hrun, fun a b hb => ?_, fun a b hb hst => ?_⟩
      · exact h.digest a b (by rw [← hsame]; exact hb)
      · exact (h.verified a b (by rw [← hsame]; exact hb) hst).append [call]
    · have hcases : ∀ a b, (mgr.perform call.2 call.1 w).final.store.getMigration a = some b →
          a = id ∧ b = m ∨ w.store.getMigration a = some b := by
        intro a b hb
        rw [hrewrites a] at hb
        split at hb
        · rename_i ha
          cases hb
          exact .inl ⟨ha, rfl⟩
        · exact .inr hb
      refine ⟨hrun, fun a b hb hst => ?_, fun a b hb hst => ?_⟩
      · obtain ⟨rfl, rfl⟩ | hb := hcases a b hb
        · obtain hold | ⟨-, hd⟩ | ⟨hv, -⟩ | ⟨hn, -⟩ := hjust
          · exact h.digest a b hold hst
          · exact hd
          · rw [hst] at hv
            cases hv
          · exact absurd hst hn
        · exact h.digest a b hb hst
      · obtain ⟨rfl, rfl⟩ | hb := hcases a b hb
        · obtain hold | ⟨hc, -⟩ | ⟨-, hv⟩ | ⟨-, hn⟩ := hjust
          · exact (h.verified a b hold hst).append [call]
          · rw [hst] at hc
            cases hc
          · exact ⟨calls, call, [], w, rfl, h.run, hv⟩
          · exact absurd hst hn
        · exact (h.verified a b hb hst).append [call]
  · cases hstep

variable (mgr T w) in
/-- `commit` changes no shard before it has found the migration in `VERIFYING`. -/
theorem commit_begun (id : String) :
    Proc.Sat (mgr.commit T id) w
      (fun t => (∀ a, t.store.get a = w.store.get a) ∨ ∃ m shard, Begun w id .verifying m shard)
      fun t _ => (∀ a, t.store.get a = w.store.get a) ∨ ∃ m shard, Begun w id .verifying m shard :=
  sat_bind_begin (fun _ => .inl fun _ => rfl)
    (fun _ _ _ _ _ => ⟨.inl fun _ => rfl, .inl fun _ => rfl⟩)
    fun m shard hb => ⟨fun _ _ => .inr ⟨m, shard, hb⟩, .inr ⟨m, shard, hb⟩⟩

theorem MovesOwner.begun {call : MigrationStep × Transfer δ} {id : String}
    (h : MovesOwner mgr w call id) :
    ∃ m shard, Begun w id .verifying m shard := by
  obtain ⟨step, T⟩ := call
  obtain ⟨rfl, t, ht, shardId, s, s', hs, hs', hne⟩ := h
  have hcommit := commit_begun mgr T w id
  have hbegun : (∀ a, t.store.get a = w.store.get a) ∨
      ∃ m shard, Begun w id .verifying m shard := by
    rcases ht with ht | rfl
    · exact hcommit.1 t ht
    · exact hcommit.2
  rcases hbegun with hsame | hb
  · rw [hsame, hs] at hs'
    cases hs'
    exact absurd rfl hne
  · exact hb

/-- In a run of the manager in which `verify_shard` raises nothing but a mismatch for `verify`,
whatever else the transfer's calls raise, ownership moves only after a verification. -/
theorem moves_verified {w₀ : World δ} {calls : List (MigrationStep × Transfer δ)}
    (hstart : ∀ id m, w₀.store.getMigration id = some m → m.state ≠ .copying ∧ m.state ≠ .verifying)
    (hraises : Along (callStep mgr) RaisesMismatch w₀ calls) : VerifiedMoves mgr w₀ calls := by
  intro before call after w id hcalls hrun hmoves
  subst hcalls
  have hbegin : Accounted mgr w₀ [] w₀ :=
    ⟨rfl, fun id m hm hst => absurd hst (hstart id m hm).1, fun id m hm hst =>
      absurd hst (hstart id m hm).2⟩
  have hbefore : Accounted mgr w₀ ([] ++ before) w :=
    invariant_history (fun _ _ _ _ h hc hs => accounted_step h hc hs) hbegin hraises.append.1 hrun
  obtain ⟨m, shard, hb⟩ := hmoves.begun
  exact hbefore.verified id m hb.migration hb.state

theorem checkSource_of_begun {id : String} {expected : MigrationState} {m : ShardMigration}
    {shard : Shard} (hb : Begun w id expected m shard) :
    checkSource m (w.store.get m.shardId) = .ok shard := by
  rw [hb.get, checkSource]
  rw [if_neg (not_not.mpr hb.migratable), if_neg (not_not.mpr hb.owner),
    if_neg (not_not.mpr hb.version)]

/-- A step whose checks pass goes on. -/
theorem Begun.sat_bind {α : Type} {id : String} {expected : MigrationState} {m : ShardMigration}
    {shard : Shard} {f : ShardMigration × Shard → Proc (World δ) Exc α} {C : World δ → Prop}
    {Q : World δ → Except Exc α → Prop} (hb : Begun w id expected m shard)
    (h : Proc.Sat (f (m, shard)) w C Q) : Proc.Sat (begin id expected >>= f) w C Q := by
  have hbegin : Proc.Sat (begin id expected) w C fun t r => t = w ∧ r = .ok (m, shard) := by
    unfold begin
    rw [Proc.sat_bind, sat_require, hb.migration]
    simp only [Proc.then_ok, Proc.sat_bind, Proc.sat_ofExcept, requireState, if_pos hb.state,
      assertSourceValid, Proc.sat_get, checkSource_of_begun hb, Proc.sat_pure]
    exact ⟨trivial, trivial⟩
  refine hbegin.bind (fun t a ht => ?_) fun t e ht => ?_
  · obtain ⟨rfl, ha⟩ := ht
    cases ha
    exact h
  · cases ht.2

/-- After an exception that is no mismatch, the migration is in `VERIFYING`. -/
theorem verify_leaves_verifying {id : String} {m : ShardMigration} {shard : Shard} {e : Exc}
    (hb : Begun w id .copying m shard) (he : verifyCall T w m shard = .error e)
    (hother : ∀ ns shardId expected actual, e ≠ .migrationVerification ns shardId expected actual) :
    (verify T id w).final.store.getMigration id = some (stepTo m .verifying) := by
  have hput := rewrites_put (e := w.store) (stepTo_id hb.migration .verifying)
  have hsat : Proc.Sat (verify T id) w (fun _ => True) fun t _ =>
      t.store.getMigration id = some (stepTo m .verifying) := by
    refine hb.sat_bind (sat_bind_advance (by rw [hb.state]; decide) trivial
      (Proc.sat_bind_attempt (sat_inDisks.mpr ?_)))
    refine Proc.sat_self.mono (fun _ _ => trivial) fun d r hr => ?_
    have hcall : r = verifyCall T w m shard := hr.2
    rw [hcall, he]
    have hverifying : (w.store.putMigration (stepTo m .verifying)).getMigration id =
        some (stepTo m .verifying) :=
      (hput id).trans (if_pos rfl)
    cases e
    case migrationVerification ns shardId expected actual =>
      exact absurd rfl (hother ns shardId expected actual)
    all_goals exact Proc.sat_throw.mpr hverifying
  exact hsat.2

end ShardMigrationManager

section

open ShardMigrationManager

/-- A transfer whose `verify_shard` ends with `checked`. -/
private def checking (checked : Except Exc String) : Transfer Unit where
  exportShard _ shard := Proc.pure ⟨shard.ns, shard.id, [], [], "digest"⟩
  importShard _ _ _ := Proc.pure ()
  verifyShard _ _ _ := Proc.ofExcept checked
  finalizeSource _ _ := Proc.pure ()
  discardTarget _ _ := Proc.pure ()

private def shardManager : ShardMigrationManager := ⟨⟨"c"⟩, "c"⟩

/-- A shard on the first of two nodes. -/
private def onN0 : World Unit where
  store := ⟨{ (∅ : EtcdData).setShard ⟨"s", "ns", "n0", .active, 0, 10, [], 1⟩ with
    nodes := (Dict.set ∅ "n0" ⟨"n0", "c", .active, 1⟩).set "n1" ⟨"n1", "c", .active, 1⟩ }, none⟩
  disks := ()

/-- The shard is copied to `n1`, and `verify_shard` ends with `checked` when the copy is
verified. -/
private def toN1 (checked : Except Exc String) : List (MigrationStep × Transfer Unit) :=
  [.createMigration "m" "ns" "s" "n1", .prepare "m", .startCopy "m"].map
    (·, checking (.ok "digest")) ++
    [(.verify "m", checking checked)]

private def beforeCommit (checked : Except Exc String) : Option (World Unit) :=
  run (callStep shardManager) onN0 (toN1 checked)

private def commitIt : MigrationStep × Transfer Unit := (.commit "m", checking (.ok "digest"))

private theorem moves_commitIt {w : World Unit}
    (howner : (w.store.get "s").map Shard.nodeId = some "n0")
    (hmoved : ((shardManager.perform commitIt.2 commitIt.1 w).final.store.get "s").map
      Shard.nodeId = some "n1") :
    MovesOwner shardManager w commitIt "m" := by
  obtain ⟨s, hs, hn⟩ := Option.map_eq_some_iff.mp howner
  obtain ⟨s', hs', hn'⟩ := Option.map_eq_some_iff.mp hmoved
  refine ⟨rfl, _, .inr rfl, "s", s, s', hs, hs', ?_⟩
  rw [hn, hn']
  decide

theorem moves_verified_toN1 : ∃ w, beforeCommit (.ok "digest") = some w ∧
    MovesOwner shardManager w commitIt "m" ∧
    VerifiedIn shardManager onN0 (toN1 (.ok "digest")) "m" := by
  have hrun : beforeCommit (.ok "digest") =
      some ((beforeCommit (.ok "digest")).get (by decide +kernel)) :=
    (Option.some_get _).symm
  have hmoves := moves_commitIt (w := (beforeCommit (.ok "digest")).get (by decide +kernel))
    (by decide +kernel)
    (by decide +kernel)
  have hraises : ∀ (w : World Unit) step, RaisesMismatch w (step, checking (.ok "digest")) :=
    fun _ _ _ _ _ _ _ _ he => by cases he
  refine ⟨_, hrun, hmoves, ?_⟩
  refine moves_verified (fun id m hm => by cases hm) ?_ (toN1 (.ok "digest")) commitIt [] _
    "m" rfl hrun hmoves
  exact ⟨hraises _ _, fun _ _ =>
    ⟨hraises _ _, fun _ _ => ⟨hraises _ _, fun _ _ => ⟨hraises _ _, fun _ _ =>
    ⟨hraises _ _, fun _ _ => trivial⟩⟩⟩⟩⟩

/-- A table of the copy cannot be read when it is verified, and `commit` moves the ownership. -/
theorem moves_unverified : ¬ VerifiedMoves shardManager onN0
    (toN1 (.error (.osError "disk")) ++ [commitIt]) := by
  intro h
  have hrun : beforeCommit (.error (.osError "disk")) =
      some ((beforeCommit (.error (.osError "disk"))).get (by decide +kernel)) :=
        (Option.some_get _).symm
  have hmoves :=
    moves_commitIt (w := (beforeCommit (.error (.osError "disk"))).get (by decide +kernel))
    (by decide +kernel) (by decide +kernel)
  obtain ⟨earlier, call, later, u, hcalls, -, hid, m, shard, digest, actual, -, -, hcall⟩ :=
    h (toN1 (.error (.osError "disk"))) commitIt [] _ "m" rfl hrun hmoves
  have hmem : call ∈ toN1 (.error (.osError "disk")) := by
    rw [hcalls]
    exact List.mem_append_right _ List.mem_cons_self
  rcases List.mem_append.mp hmem with hmem | hmem
  · obtain ⟨step, hstep, rfl⟩ := List.mem_map.mp hmem
    rw [show step = .verify "m" from hid] at hstep
    simp at hstep
  · rw [List.mem_singleton.mp hmem] at hcall
    cases hcall

end

end Vsector.Sharding
