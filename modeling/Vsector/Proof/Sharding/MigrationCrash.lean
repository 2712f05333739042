import Vsector.Proof.Sharding.MigrationEffects
import Vsector.Proof.Sharding.MigrationHistory
import Vsector.Proof.Sharding.ShardTransfer
import Vsector.Proof.Sharding.VerifiedCommit

/-!
# Migrations that a crash cuts off

A process may die between any two changes of the store and the disks, and is
started again from the store's file (`crashStep`). A migration in `VERIFYING`,
or in `COPYING` with the digest of its source, has its copy in the target's
directories (`Backed`): every call keeps that at each of its points, but for
`cancel`, which removes the copy before it records the cancellation, and for
`verify` of a migration whose copy was cut off, which has no digest to check.
Where neither happens, `commit` gives a shard only to a node that recovers
what its owner does, and the owner's directories are removed only then
(`commits_finished_copy`).
-/

namespace Vsector.Sharding

open Framework Models Storage Ingest

variable {X : Externals}

/-! ## Copies -/

/-- The recoveries over the source and over the target find the same. -/
def SameRoots (X : Externals) (d : Disks) (m : ShardMigration) : Prop :=
  ∃ log store result log' store' result',
    recoverRoot X (d m.sourceNodeId m.shardId) = .ok (log, store, result) ∧
    recoverRoot X (d m.targetNodeId m.shardId) = .ok (log', store', result') ∧
    result'.records.Perm (result.records.map VectorRecord.sorted) ∧
    result'.deletedIds = result.deletedIds

/-- The copy was finished, and nobody has given it up. -/
def HoldsCopy (m : ShardMigration) : Prop :=
  m.state = .verifying ∨ m.state = .copying ∧ m.sourceDigest.isSome

instance (m : ShardMigration) : Decidable (HoldsCopy m) := inferInstanceAs (Decidable (_ ∨ _))

/-- What the migrations of a store say of the disks. -/
structure Backed (X : Externals) (e : InMemoryEtcd) (d : Disks) : Prop where
  oneOpen : OneOpen e
  target : ∀ id m, e.getMigration id = some m → m.targetNodeId ≠ m.sourceNodeId
  digest : ∀ id m, e.getMigration id = some m → m.state = .pending ∨ m.state = .preparing →
    m.sourceDigest = none
  copied : ∀ id m, e.getMigration id = some m → HoldsCopy m → SameRoots X d m

theorem HoldsCopy.open {m : ShardMigration} (h : HoldsCopy m) : m.state.isTerminal = false := by
  obtain h | ⟨h, -⟩ := h
  · rw [h]
    rfl
  · rw [h]
    rfl

theorem SameRoots.congr {d d' : Disks} {m : ShardMigration} (h : SameRoots X d m)
    (hs : d' m.sourceNodeId m.shardId = d m.sourceNodeId m.shardId)
    (ht : d' m.targetNodeId m.shardId = d m.targetNodeId m.shardId) : SameRoots X d' m := by
  unfold SameRoots
  rw [hs, ht]
  exact h

namespace Backed

variable {e e' : InMemoryEtcd} {d d' : Disks} {m m' : ShardMigration}

theorem mono (h : Backed X e d)
    (he : ∀ {id m}, e'.getMigration id = some m → e.getMigration id = some m) : Backed X e' d where
  oneOpen id id' m m' hm hm' := h.oneOpen id id' m m' (he hm) (he hm')
  target id m hm := h.target id m (he hm)
  digest id m hm := h.digest id m (he hm)
  copied id m hm := h.copied id m (he hm)

/-- An open migration is changed, and perhaps the directories of its shard on one node: no other
copy is there. -/
theorem turn (h : Backed X e d) (hm : e.getMigration m.migrationId = some m)
    (hopen : m.state.isTerminal = false) (hturn : Turn m m')
    (he : ∀ id, e'.getMigration id = if id = m.migrationId then some m' else e.getMigration id)
    {node : String} (hd : OnlyAt node m.shardId d d')
    (hdigest : m'.state = .pending ∨ m'.state = .preparing → m'.sourceDigest = none)
    (hcopy : HoldsCopy m' → SameRoots X d' m') : Backed X e' d' := by
  refine ⟨(Edge.turned m m' hm hturn he).oneOpen h.oneOpen, fun id a ha => ?_, fun id a ha hs =>
    ?_, fun id a ha hc => ?_⟩
  · rw [he] at ha
    split at ha
    · cases ha
      rw [hturn.same.target, hturn.same.source]
      exact h.target _ m hm
    · exact h.target id a ha
  · rw [he] at ha
    split at ha
    · cases ha
      exact hdigest hs
    · exact h.digest id a ha hs
  · rw [he] at ha
    split at ha
    · cases ha
      exact hcopy hc
    · rename_i hid
      have hshard : a.shardId ≠ m.shardId := fun hs =>
        hid (h.oneOpen id m.migrationId a m ha hm hs hc.open hopen)
      exact (h.copied id a ha hc).congr (hd _ _ fun hn => hshard hn.2)
        (hd _ _ fun hn => hshard hn.2)

/-- The directories of a migration that holds no copy are changed on one node. -/
theorem disks (h : Backed X e d) (hm : e.getMigration m.migrationId = some m)
    (hopen : m.state.isTerminal = false) (hno : ¬ HoldsCopy m) {node : String}
    (hd : OnlyAt node m.shardId d d') : Backed X e d' := by
  refine h.turn hm hopen ⟨.refl m, .inl ⟨rfl, rfl⟩⟩ (fun id => ?_) hd (h.digest _ m hm) fun hc =>
    absurd hc hno
  split
  · rename_i hid
    rw [hid, hm]
  · rfl

end Backed

/-! ## The store and its file -/

/-- A process that is started again. -/
def restarted (w : World Disks) : World Disks := { w with store := .init w.store.file }

/-- What a process that dies here leaves. -/
abbrev Restartable (X : Externals) (w : World Disks) : Prop := Backed X (restarted w).store w.disks

/-- What holds between two calls. -/
structure Sound (X : Externals) (w : World Disks) : Prop where
  backed : Backed X w.store w.disks
  synced : w.store.Synced

section

variable {w : World Disks}

theorem getMigration_restarted (hs : w.store.Synced) {id : String} {m : ShardMigration}
    (h : (restarted w).store.getMigration id = some m) : w.store.getMigration id = some m := by
  rcases hf : w.store.file with _ | f
  · rw [restarted, hf] at h
    cases h
  · rw [restarted, hf] at h
    have hsame : f.migrations = w.store.live.migrations := hs f hf
    exact (congrArg (fun d : Dict String ShardMigration => d.get? id) hsame).symm.trans h

theorem Sound.restartable (h : Sound X w) : Restartable X w :=
  h.backed.mono (getMigration_restarted h.synced)

theorem Restartable.sound (h : Restartable X w) : Sound X (restarted w) := by
  refine ⟨h, fun d hd => ?_⟩
  have hfile : w.store.file = some d := hd
  rw [restarted, hfile]
  rfl

namespace ShardMigrationManager

variable {m m' : ShardMigration} {d : Disks}

/-- A record that is persisted, after a change of the directories of its shard. -/
theorem sound_put (node : String) (h : Backed X w.store d)
    (hm : w.store.getMigration m.migrationId = some m) (hopen : m.state.isTerminal = false)
    (hturn : Turn m m') (hd : OnlyAt node m.shardId d w.disks)
    (hdigest : m'.state = .pending ∨ m'.state = .preparing → m'.sourceDigest = none)
    (hcopy : HoldsCopy m' → SameRoots X w.disks m') : Sound X (putMigration w m') := by
  refine ⟨h.turn hm hopen hturn (fun id => ?_) hd hdigest hcopy,
    InMemoryEtcd.inStep_putMigration (P := True) _ _ trivial⟩
  rw [← hturn.same.id]
  exact InMemoryEtcd.getMigration_putMigration

theorem sound_failed (node : String) (h : Backed X w.store d)
    (hm : w.store.getMigration m.migrationId = some m) (hopen : m.state.isTerminal = false)
    (hd : OnlyAt node m.shardId d w.disks) (error : String) :
    Sound X (putMigration w (failed m error)) := by
  have hstate : (failed m error).state = .failed := failed_state hopen error
  refine sound_put node h hm hopen (turn_failed m error) hd (fun hs => ?_) fun hc => ?_
  · rw [hstate] at hs
    exact absurd hs (by decide)
  · rw [HoldsCopy, hstate] at hc
    exact absurd hc (by simp)

theorem sound_disks {node : String} (h : Sound X w)
    (hm : w.store.getMigration m.migrationId = some m) (hopen : m.state.isTerminal = false)
    (hno : ¬ HoldsCopy m) (hd : OnlyAt node m.shardId w.disks d) : Sound X { w with disks := d } :=
  ⟨h.backed.disks hm hopen hno hd, h.synced⟩

/-! ## Steps -/

/-- Every point of `p` can be restarted from, and so can its end. -/
abbrev KeepsCopies {α : Type} (X : Externals) (p : Proc (World Disks) Exc α) (w : World Disks) :
    Prop :=
  Proc.Sat p w (Restartable X) fun t _ => Sound X t

section

variable {α : Type} {mgr : ShardMigrationManager} {env : Nat → FlushEnv} {id : String}
  {shard : Shard} {C : Disks → Prop}

theorem getMigration_id (hm : w.store.getMigration id = some m) :
    w.store.getMigration m.migrationId = some m := by
  rw [InMemoryEtcd.migration_id hm]
  exact hm

theorem sound_fail (h : Sound X w) (hm : w.store.getMigration id = some m)
    (hopen : m.state.isTerminal = false) (error : String) :
    Sound X (putMigration w (failed m error)) :=
  sound_failed "" h.backed (getMigration_id hm) hopen (.refl _) error

/-- A transition, and what it asks of a migration that holds its copy then. -/
theorem sound_step (h : Sound X w) {dest : MigrationState}
    (hm : w.store.getMigration m.migrationId = some m) (hdest : dest ∈ m.state.next)
    (hcopy : HoldsCopy (stepTo m dest) → SameRoots X w.disks m) :
    Sound X (putMigration w (stepTo m dest)) := by
  have hopen : m.state.isTerminal = false := by
    refine Bool.eq_false_iff.mpr fun ht => ?_
    rw [next_of_isTerminal ht] at hdest
    cases hdest
  refine sound_put "" h.backed hm hopen (turn_stepTo hdest) (.refl _) (fun hs => ?_) hcopy
  refine h.backed.digest _ m hm ?_
  obtain hs | hs := hs
  all_goals
    rw [show dest = _ from hs] at hdest
    revert hdest
    cases m.state <;> simp [MigrationState.next]

theorem keeps_begin (h : Sound X w) {expected : MigrationState} (hexp : expected.isTerminal = false)
    {f : ShardMigration × Shard → Proc (World Disks) Exc α}
    (hok : ∀ m shard, Begun w id expected m shard → w.store.getMigration m.migrationId = some m →
      KeepsCopies X (f (m, shard)) w) : KeepsCopies X (begin id expected >>= f) w := by
  refine sat_bind_begin (fun _ => h) (fun m error e hm hs => ?_) fun m shard hb =>
    hok m shard hb (getMigration_id hb.migration)
  have hfailed := sound_fail h hm (hs ▸ hexp) error
  exact ⟨hfailed.restartable, hfailed⟩

theorem keeps_prepare (h : Sound X w) : KeepsCopies X (prepare id) w := by
  refine keeps_begin h rfl fun m shard hb hm => ?_
  have hdest : MigrationState.preparing ∈ m.state.next := by
    rw [hb.state]
    decide
  have hnext := sound_step h hm hdest fun hc => by
    rw [HoldsCopy] at hc
    exact absurd hc (by simp [stepTo])
  exact (sat_advance hdest).mpr ⟨hnext.restartable, hnext⟩

theorem sat_bind_exportShard {C : World Disks → Prop} {source : String}
    {f : ShardExport → Proc (World Disks) Exc α} {Q : World Disks → Except Exc α → Prop}
    (herr : ∀ e, Q w (.error e))
    (hok : ∀ log store result, recoverRoot X (w.disks source shard.id) = .ok (log, store, result) →
      Proc.Sat (f (ShardTransferProvider.exportOf X shard result)) w C Q) :
    Proc.Sat (inDisks (ShardTransferProvider.exportShard X source shard) >>= f) w C Q := by
  refine Proc.sat_bind.mpr (sat_inDisks.mpr (Proc.sat_bind_get ?_))
  split
  · exact Proc.sat_throw.mpr (herr _)
  · rename_i log store result hr
    exact Proc.sat_pure.mpr (hok log store result hr)

/-- What the source of a migration recovers has finite floats. -/
def FiniteSource (X : Externals) (d : Disks) (m : ShardMigration) : Prop :=
  ∀ found ∈ (recoverRoot X (d m.sourceNodeId m.shardId)).toOption, ∀ r ∈ found.2.2.records, r.Finite

instance (d : Disks) (m : ShardMigration) : Decidable (FiniteSource X d m) :=
  inferInstanceAs (Decidable (∀ found ∈ _, _))

theorem FiniteSource.of_recovers {d : Disks} (h : FiniteSource X d m) {log : Log Text}
    {store : SegmentStore} {result : RecoveryResult}
    (hr : recoverRoot X (d m.sourceNodeId m.shardId) = .ok (log, store, result)) :
    ∀ r ∈ result.records, r.Finite :=
  h (log, store, result) (by rw [hr]; rfl)

/-- An import of the source's export, at its points and where it ends. -/
theorem sat_copy (hX : X.Lawful) (hB : X.ByName) (hne : m.targetNodeId ≠ m.sourceNodeId)
    (hid : shard.id = m.shardId) (hfin : FiniteSource X d m) {log : Log Text} {store : SegmentStore}
    {result : RecoveryResult}
    (hr : recoverRoot X (d m.sourceNodeId shard.id) = .ok (log, store, result)) :
    Proc.Sat (ShardTransferProvider.importShard X env m.targetNodeId shard
      (ShardTransferProvider.exportOf X shard result)) d
      (OnlyAt m.targetNodeId m.shardId d) fun d' r => OnlyAt m.targetNodeId m.shardId d d' ∧
        (r = .ok () → SameRoots X d' m) := by
  obtain ⟨ds, hfinds⟩ := ShardTransferProvider.finds_of_recoverRoot hr
  have hwrites : WritesAt (ShardTransferProvider.importShard X env m.targetNodeId shard
    (ShardTransferProvider.exportOf X shard result)) m.targetNodeId m.shardId d
      d := writesAt_importShard env _ hid (.refl d)
  have himport :=
    (ShardTransferProvider.sat_import (d := d) hX hB (.dumped hX) env m.targetNodeId shard hfinds
    (hfin.of_recovers (hid ▸ hr)) (e := ShardTransferProvider.exportOf X shard result) rfl
    (List.Pairwise.insertionSort_eq hfinds.sorted)).2.2
  refine ⟨hwrites.1, hwrites.2, fun hok => ?_⟩
  obtain ⟨found, durable, hrec, -⟩ := himport hok
  obtain ⟨log', store', hfound⟩ := hrec.recovered
  have hsource := hwrites.2 m.sourceNodeId m.shardId fun h => hne h.1.symm
  refine ⟨log, store, result, log', store', found, ?_, hid ▸ hfound, hrec.records, hrec.deleted⟩
  rw [hsource, ← hid]
  exact hr

/-- The copy leaves its migration in `COPYING`, with a digest only if its data is there. -/
theorem keeps_copyData (hX : X.Lawful) (hB : X.ByName) (h : Sound X w)
    (hm : w.store.getMigration m.migrationId = some m) (hstate : m.state = .copying)
    (hno : m.sourceDigest = none) (hid : shard.id = m.shardId) (hfin : FiniteSource X w.disks m) :
    Proc.Sat (copyData (shardTransferProvider X env) m shard) w (Restartable X) fun t r =>
      (∀ a, r = .ok a → Sound X t) ∧ ∀ e, r = .error e → Backed X t.store t.disks ∧
        ∃ m', t.store.getMigration m.migrationId = some m' ∧ m'.state = .copying := by
  have hopen : m.state.isTerminal = false := by
    rw [hstate]
    rfl
  have hcopy : ¬ HoldsCopy m := by
    rw [HoldsCopy, hstate, hno]
    simp
  have herr : ∀ {d : Disks} {exc : Exc}, OnlyAt m.targetNodeId m.shardId w.disks d →
      (∀ a, (.error exc : Except Exc ShardMigration) = .ok a → Sound X { w with disks := d }) ∧
        ∀ e, (.error exc : Except Exc ShardMigration) = .error e → Backed X w.store d ∧
          ∃ m', w.store.getMigration m.migrationId = some m' ∧ m'.state = .copying :=
    fun hd => ⟨fun _ ha => (by cases ha), fun _ _ =>
      ⟨h.backed.disks hm hopen hcopy hd, m, hm, hstate⟩⟩
  refine sat_bind_exportShard (fun _ => herr (.refl _)) fun log store result hr => ?_
  refine sat_bind_inDisks (R := fun d r => OnlyAt m.targetNodeId m.shardId w.disks d ∧
    (r = .ok () → SameRoots X d m))
    ((sat_copy hX hB (h.backed.target _ m hm) hid hfin hr).mono (fun d hd => ?_) fun _ _ hd => hd)
      (fun d u hd => ?_)
    fun d e hd => herr hd.1
  · exact (sound_disks h hm hopen hcopy hd).restartable
  -- the data is there, and the digest is a change of the live record
  have hsame := hd.2 rfl
  let m₁ : ShardMigration :=
    { m with sourceDigest := some (ShardTransferProvider.exportOf X shard result).digest }
  let w₁ : World Disks := { store := w.store.setMigration m₁, disks := d }
  have hturn : Turn m m₁ := ⟨⟨rfl, rfl, rfl, rfl, rfl, rfl⟩, .inl ⟨rfl, rfl⟩⟩
  have hm₁ : w₁.store.getMigration m₁.migrationId = some m₁ :=
    InMemoryEtcd.getMigration_setMigration.trans (if_pos rfl)
  have hnot : ¬ (m.state = .pending ∨ m.state = .preparing) := by
    rw [hstate]
    decide
  have hbacked : Backed X w₁.store d :=
    h.backed.turn hm hopen hturn (fun _ => InMemoryEtcd.getMigration_setMigration)
    hd.1 (fun hs => absurd hs hnot) fun _ => hsame
  have hrestart : Restartable X w₁ := (sound_disks h hm hopen hcopy hd.1).restartable
  refine sat_bind_inStore hrestart (Proc.sat_bind.mpr (sat_verifyTarget fun r => ?_))
  rcases r with e | target
  · exact ⟨fun _ ha => (by cases ha), fun _ _ => ⟨hbacked, m₁, hm₁, hstate⟩⟩
  · have hput : Sound X (putMigration w₁ { m₁ with targetDigest := some target }) :=
      sound_put "" (d := d) hbacked hm₁ hopen ⟨⟨rfl, rfl, rfl, rfl, rfl, rfl⟩,
        .inl ⟨rfl, rfl⟩⟩ (.refl _)
        (fun hs => absurd hs hnot) fun _ => hsame
    refine Proc.then_ok.mpr (sat_bind_inStore hput.restartable (Proc.sat_pure.mpr ?_))
    exact ⟨fun _ _ => hput, fun _ he => (by cases he)⟩

theorem keeps_startCopy (hX : X.Lawful) (hB : X.ByName) (h : Sound X w)
    (hfin : ∀ m shard, Begun w id .preparing m shard → FiniteSource X w.disks m) :
    KeepsCopies X (startCopy (shardTransferProvider X env) id) w := by
  refine keeps_begin h rfl fun m shard hb hm => ?_
  have hdest : MigrationState.copying ∈ m.state.next := by
    rw [hb.state]
    decide
  have hno : m.sourceDigest = none := h.backed.digest _ m hm (.inr hb.state)
  have hcopying := sound_step h hm hdest fun hc => by
    rw [HoldsCopy] at hc
    exact absurd hc (by simp [stepTo, hno])
  refine sat_bind_advance hdest hcopying.restartable (Proc.sat_bind_attempt ?_)
  have hid : m.migrationId = id := InMemoryEtcd.migration_id hb.migration
  refine (keeps_copyData (m := stepTo m .copying) hX hB hcopying getMigration_self
    rfl hno hb.shard_id
    (hfin m shard hb)).mono (fun _ ht => ht) fun t r ht => ?_
  rcases r with e | a
  · obtain ⟨hbacked, m', hm', hstate⟩ := ht.2 e rfl
    have hget : (t.store.getMigration id).getD (stepTo m .copying) = m' := by
      rw [← hid]
      exact congrArg (fun o : Option ShardMigration => o.getD (stepTo m .copying)) hm'
    have hfailed : ∀ error, Sound X (putMigration t (failed m' error)) := fun error =>
      sound_failed "" hbacked (getMigration_id hm') (by rw [hstate]; rfl) (.refl _) error
    refine Proc.sat_bind_get ?_
    rw [hget]
    cases e
    all_goals exact sat_bind_failMigration (hfailed _).restartable (Proc.sat_throw.mpr (hfailed _))
  · exact Proc.sat_pure.mpr (ht.1 a rfl)

theorem keeps_verify (h : Sound X w)
    (hdigest : ∀ m, w.store.getMigration id = some m → m.state = .copying → m.sourceDigest.isSome) :
    KeepsCopies X (verify (shardTransferProvider X env) id) w := by
  refine keeps_begin h rfl fun m shard hb hm => ?_
  have hdest : MigrationState.verifying ∈ m.state.next := by
    rw [hb.state]
    decide
  have hsame : SameRoots X w.disks m :=
    h.backed.copied _ m hm (.inr ⟨hb.state, hdigest m hb.migration hb.state⟩)
  have hverifying := sound_step h hm hdest fun _ => hsame
  refine sat_bind_advance hdest hverifying.restartable
    (Proc.sat_bind_attempt (sat_verifyTarget fun r => ?_))
  have hopen : (stepTo m .verifying).state.isTerminal = false := rfl
  rcases r with e | actual
  · have hfailed : ∀ error, Sound X
        (putMigration (putMigration w (stepTo m .verifying))
        (failed (stepTo m .verifying) error)) :=
      fun error => sound_fail hverifying getMigration_self hopen error
    cases e
    case migrationVerification =>
      exact sat_bind_failMigration (hfailed _).restartable (Proc.sat_throw.mpr (hfailed _))
    all_goals exact Proc.sat_throw.mpr hverifying
  · have hput : Sound X (putMigration (putMigration w (stepTo m .verifying))
        { stepTo m .verifying with targetDigest := some actual }) :=
      sound_put "" hverifying.backed getMigration_self hopen ⟨⟨rfl, rfl, rfl, rfl, rfl, rfl⟩,
        .inl ⟨rfl, rfl⟩⟩ (.refl _)
        (fun hs => absurd hs (by simp [stepTo])) fun _ => hsame
    exact sat_bind_inStore hput.restartable (Proc.sat_pure.mpr hput)

/-- A change of a shard that is not yet persisted. -/
theorem sound_setShard (h : Sound X w) (shard : Shard) :
    Sound X { w with store := w.store.setShard shard } :=
  ⟨h.backed.mono id, h.synced⟩

theorem sound_putShard (h : Sound X w) (shard : Shard) :
    Sound X { w with store := w.store.put shard } := by
  refine ⟨h.backed.mono id, fun d hd => ?_⟩
  obtain ⟨d', -, rfl⟩ := Option.map_eq_some_iff.mp hd
  rfl

theorem keeps_finishCommit (h : Sound X w) (hm : w.store.getMigration m.migrationId = some m)
    (hstate : m.state = .committing) (hid : shard.id = m.shardId) :
    KeepsCopies X (finishCommit (shardTransferProvider X env) m shard) w := by
  have hopen : m.state.isTerminal = false := by
    rw [hstate]
    rfl
  have hno : ¬ HoldsCopy m := by
    rw [HoldsCopy, hstate]
    simp
  have hdest : MigrationState.completed ∈ m.state.next := by
    rw [hstate]
    decide
  refine Proc.sat_bind_attempt (sat_inDisks.mpr ?_)
  refine (writesAt_removeTrees hid (.refl _)).mono
    (fun d hd => (sound_disks h hm hopen hno hd).restartable) fun d r hd => ?_
  have hfinish : ∀ (finalized : Bool) (error : Option String),
      Proc.Sat (advance { m with finalized := finalized, error := error } .completed)
        { w with disks := d } (Restartable X)
        fun t _ => Sound X t := by
    intro finalized error
    have hput : Sound X (putMigration { w with disks := d }
        (stepTo { m with finalized := finalized, error := error } .completed)) := by
      refine sound_put m.sourceNodeId h.backed hm hopen ⟨⟨rfl, rfl, rfl, rfl, rfl, rfl⟩,
        .inr ⟨hdest, rfl⟩⟩ hd
        (fun hs => absurd hs (by simp [stepTo])) fun hc => ?_
      rw [HoldsCopy] at hc
      exact absurd hc (by simp [stepTo])
    exact (sat_advance (m := { m with finalized := finalized, error := error }) hdest).mpr
      ⟨hput.restartable, hput⟩
  rcases r with e | ⟨⟩
  · exact hfinish _ _
  · exact hfinish _ m.error

theorem keeps_commit (h : Sound X w) :
    KeepsCopies X (mgr.commit (shardTransferProvider X env) id) w := by
  refine keeps_begin h rfl fun m shard hb hm => ?_
  refine Proc.sat_bind_get (Proc.sat_bind_ofExcept (fun _ _ => ?_) fun _ _ => h)
  have hdest : MigrationState.committing ∈ m.state.next := by
    rw [hb.state]
    decide
  have hcommitting := sound_step h hm hdest fun hc => by
    rw [HoldsCopy] at hc
    exact absurd hc (by simp [stepTo])
  have hmoved := sound_setShard hcommitting (moveShard shard m.targetNodeId)
  refine sat_bind_advance hdest hcommitting.restartable
    (sat_bind_inStore hmoved.restartable (Proc.sat_bind_get ?_))
  dsimp only
  split
  · have hput := sound_putShard hmoved (moveShard shard m.targetNodeId)
    refine sat_bind_inStore hput.restartable ?_
    exact keeps_finishCommit (m := stepTo m .committing) hput getMigration_self rfl hb.shard_id
  · split
    · exact Proc.sat_throw.mpr hmoved
    · have hback := sound_setShard hmoved shard
      have hfailed := fun error =>
        sound_fail (m := stepTo m .committing) hback getMigration_self rfl error
      exact sat_bind_inStore hback.restartable
        (sat_bind_failMigration (hfailed _).restartable (Proc.sat_throw.mpr (hfailed _)))

/-- What is left of a migration that a process dies over while it cancels it. -/
def GivenUp (t : World Disks) (id : String) : Prop :=
  ∀ m, (restarted t).store.getMigration id = some m → ¬ HoldsCopy m

theorem restartable_discard (h : Sound X w) (hm : w.store.getMigration m.migrationId = some m)
    (hopen : m.state.isTerminal = false) (hd : OnlyAt m.targetNodeId m.shardId w.disks d)
    (hup : GivenUp { w with disks := d } m.migrationId) : Restartable X { w with disks := d } := by
  have hb := h.restartable
  refine ⟨hb.oneOpen, hb.target, hb.digest, fun a b hab hc => ?_⟩
  have hshard : b.shardId ≠ m.shardId := by
    intro hs
    have hid : a = m.migrationId :=
      h.backed.oneOpen a _ b m (getMigration_restarted h.synced hab) hm hs hc.open hopen
    exact hup b (hid ▸ hab) hc
  exact (hb.copied a b hab hc).congr (hd _ _ fun hn => hshard hn.2) (hd _ _ fun hn => hshard hn.2)

/-- `cancel` can be cut off once it has recorded that the copy is given up. -/
theorem keeps_cancel (h : Sound X w) : Proc.Sat (cancel (shardTransferProvider X env) id) w
    (fun t => GivenUp t id → Restartable X t) fun t _ => Sound X t := by
  refine Proc.sat_bind.mpr (sat_require.mpr ?_)
  split
  · exact h
  · rename_i m hm
    show Proc.Sat (if _ then _ else _) w (fun t => GivenUp t id → Restartable X t)
      fun t _ => Sound X t
    split
    · exact Proc.sat_throw.mpr h
    · rename_i hc
      have hdest : MigrationState.cancelled ∈ m.state.next :=
        mem_next_of_cancelable (by simpa using hc)
      have hopen : m.state.isTerminal = false := by
        refine Bool.eq_false_iff.mpr fun ht => ?_
        rw [next_of_isTerminal ht] at hdest
        cases hdest
      have hid : m.migrationId = id := InMemoryEtcd.migration_id hm
      have hm' := getMigration_id hm
      have hput : ∀ d, OnlyAt m.targetNodeId m.shardId w.disks d →
          Sound X (putMigration { w with disks := d } (stepTo m .cancelled)) := by
        intro d hd
        refine sound_put m.targetNodeId h.backed hm' hopen (turn_stepTo hdest) hd
          (fun hs => absurd hs (by simp [stepTo])) fun hc => ?_
        rw [HoldsCopy] at hc
        exact absurd hc (by simp [stepTo])
      refine Proc.Sat.bind (Q := fun t r => r = .ok () ∧ t.store = w.store ∧
        OnlyAt m.targetNodeId m.shardId w.disks t.disks)
        ?_ (fun t _ ht => ?_) fun _ _ ht => by cases ht.1
      · refine Proc.sat_bind_get ?_
        split
        · exact Proc.sat_pure.mpr ⟨rfl, rfl, .refl _⟩
        · rename_i shard hshard
          split
          · refine Proc.sat_bind_attempt (sat_inDisks.mpr ?_)
            refine (writesAt_removeTrees (InMemoryEtcd.shard_id hshard) (.refl _)).mono
              (fun d hd hup => ?_)
              fun d r hd => Proc.sat_pure.mpr ⟨rfl, rfl, hd⟩
            exact restartable_discard h hm' hopen hd (hid ▸ hup)
          · exact Proc.sat_pure.mpr ⟨rfl, rfl, .refl _⟩
      · have ht' : t = { w with disks := t.disks } := by rw [← ht.2.1]
        rw [ht']
        exact (sat_advance hdest).mpr ⟨fun _ => (hput _ ht.2.2).restartable, hput _ ht.2.2⟩

theorem keeps_fail (h : Sound X w) (error : String) : KeepsCopies X (fail id error) w := by
  refine Proc.sat_bind.mpr (sat_require.mpr ?_)
  split
  · exact h
  · rename_i m hm
    show KeepsCopies X (if _ then _ else _) w
    split
    · exact Proc.sat_throw.mpr h
    · rename_i hopen
      have hfailed := sound_fail h hm (Bool.eq_false_iff.mpr hopen) error
      exact sat_failMigration.mpr ⟨hfailed.restartable, hfailed⟩

theorem keeps_createMigration (h : Sound X w) {uuid4 : String} (ns shardId target : String)
    (hf : w.store.getMigration uuid4 = none) :
    KeepsCopies X (mgr.createMigration uuid4 ns shardId target) w := by
  refine Proc.sat_bind_get (Proc.sat_bind_ofExcept (fun m hm => ?_) fun _ _ => h)
  obtain ⟨shard, -, -, -, hne, hopen, hnew⟩ := newMigration_eq_ok hm
  have hid : m.migrationId = uuid4 := congrArg ShardMigration.migrationId hnew
  have hstate : m.state = .pending := congrArg ShardMigration.state hnew
  have hshard : m.shardId = shardId := congrArg ShardMigration.shardId hnew
  have hedge : Edge w.store (w.store.putMigration m) := by
    refine .created m (hid ▸ hf) hstate (congrArg ShardMigration.version hnew)
      (fun id a ha hs => ?_)
      fun _ => InMemoryEtcd.getMigration_putMigration
    exact hopen a (Dict.mem_values.mpr ⟨id, ha⟩) (hs.trans hshard)
  have hcases : ∀ id a, (w.store.putMigration m).getMigration id = some a →
      a = m ∨ w.store.getMigration id = some a := by
    intro id a ha
    rw [InMemoryEtcd.getMigration_putMigration] at ha
    split at ha
    · exact .inl (Option.some.inj ha).symm
    · exact .inr ha
  have hsound : Sound X (putMigration w m) := by
    refine ⟨⟨hedge.oneOpen h.backed.oneOpen, fun id a ha => ?_, fun id a ha hs =>
      ?_, fun id a ha hc => ?_⟩, InMemoryEtcd.inStep_putMigration (P := True) _ _ trivial⟩
    · obtain rfl | ha := hcases id a ha
      · rw [hnew]
        exact hne
      · exact h.backed.target id a ha
    · obtain rfl | ha := hcases id a ha
      · rw [hnew]
      · exact h.backed.digest id a ha hs
    · obtain rfl | ha := hcases id a ha
      · rw [HoldsCopy, hstate] at hc
        exact absurd hc (by simp)
      · exact h.backed.copied id a ha hc
  exact sat_bind_inStore hsound.restartable (Proc.sat_pure.mpr hsound)

/-- The condition on a call: `verify` finds a digest to compare with, and what is copied has finite
floats. -/
def StepOk (X : Externals) (w : World Disks) : MigrationStep → Prop
  | .verify id => ∀ m ∈ w.store.getMigration id, m.state = .copying → m.sourceDigest.isSome
  | .startCopy id => ∀ m ∈ w.store.getMigration id, FiniteSource X w.disks m
  | _ => True

instance : ∀ step, Decidable (StepOk X w step)
  | .verify id =>
    inferInstanceAs (Decidable (∀ m ∈ w.store.getMigration id, m.state = .copying →
      m.sourceDigest.isSome))
  | .startCopy id =>
    inferInstanceAs (Decidable (∀ m ∈ w.store.getMigration id, FiniteSource X w.disks m))
  | .createMigration .. | .prepare _ | .commit _ | .cancel _ | .fail .. => .isTrue trivial

/-- The condition on where a call is cut off: a copy that `cancel` has begun to remove is no longer
one of the file. -/
def CutOk (t : World Disks) : MigrationStep → Prop
  | .cancel id => GivenUp t id
  | _ => True

instance (t : World Disks) : ∀ step, Decidable (CutOk t step)
  | .cancel id =>
    inferInstanceAs (Decidable (∀ m ∈ (restarted t).store.getMigration id, ¬ HoldsCopy m))
  | .createMigration .. | .prepare _ | .startCopy _ | .verify _ | .commit _ | .fail .. =>
    .isTrue trivial

/-- Where a call that meets the condition is cut off, or ends, every copy is still there. -/
theorem keeps_perform (hX : X.Lawful) (hB : X.ByName) (h : Sound X w) (step : MigrationStep)
    (hf : isFresh w.store step) (hok : StepOk X w step) :
    Proc.Sat (mgr.perform (shardTransferProvider X env) step) w
      (fun t => CutOk t step → Restartable X t) fun t _ => Sound X t := by
  have hkeeps : ∀ {p : Proc (World Disks) Exc ShardMigration}, KeepsCopies X p w →
      Proc.Sat p w (fun t => CutOk t step → Restartable X t) fun t _ => Sound X t :=
    fun hp => hp.mono (fun _ ht _ => ht) fun _ _ ht => ht
  cases step with
  | createMigration uuid4 ns shardId target =>
    exact hkeeps (keeps_createMigration h ns shardId target (Option.isNone_iff_eq_none.mp hf))
  | prepare id => exact hkeeps (keeps_prepare h)
  | startCopy id => exact hkeeps (keeps_startCopy hX hB h fun m _ hb => hok m hb.migration)
  | verify id => exact hkeeps (keeps_verify h hok)
  | commit id => exact hkeeps (keeps_commit h)
  | cancel id => exact keeps_cancel h
  | fail id error => exact hkeeps (keeps_fail h error)

/-! ## What is moved -/

/-- The call commits the migration, and the target recovers what the source does. -/
def CommitsCopy (X : Externals) (w : World Disks) (step : MigrationStep) (m : ShardMigration) :
    Prop :=
  ∃ id, step = .commit id ∧ w.store.getMigration id = some m ∧ m.state = .verifying ∧
    SameRoots X w.disks m

/-- What has changed by `t`, where a call of `w` is cut off or ends. A shard is given to the target
of a copy. The directories that change are the source's of a copy, when its target owns the shard,
or the target's of a migration that is copied or cancelled. -/
structure MovesCopies (X : Externals) (w : World Disks) (step : MigrationStep) (t : World Disks) :
    Prop where
  shards : ∀ a, t.store.get a ≠ w.store.get a → ∃ m shard, CommitsCopy X w step m ∧ m.shardId = a ∧
    w.store.get a = some shard ∧ shard.nodeId = m.sourceNodeId ∧
    t.store.get a = some (moveShard shard m.targetNodeId)
  disks : ∀ node a, t.disks node a ≠ w.disks node a → ∃ m, m.shardId = a ∧
    (CommitsCopy X w step m ∧ node = m.sourceNodeId ∧
      (t.store.get a).map Shard.nodeId = some m.targetNodeId ∨
      node = m.targetNodeId ∧ node ≠ m.sourceNodeId ∧
        ∃ id, w.store.getMigration id = some m ∧ (step = .startCopy id ∨ step = .cancel id))

theorem moves_ofShards (w : World Disks) (step : MigrationStep) :
    OfShards (MovesCopies X w step) w :=
  fun _ he => ⟨fun a ha => absurd (he a) ha, fun _ _ hd => absurd rfl hd⟩

theorem moves_beside {t : World Disks} {step : MigrationStep} (h : Sound X w)
    (hm : w.store.getMigration id = some m) (hstep : step = .startCopy id ∨ step = .cancel id)
    (ht : Beside m.targetNodeId m.shardId w t) : MovesCopies X w step t := by
  refine ⟨fun a ha => absurd (ht.shards a) ha, fun node a hd => ?_⟩
  obtain ⟨rfl, rfl⟩ : node = m.targetNodeId ∧ a = m.shardId := by
    by_contra hne
    exact hd (ht.disks node a hne)
  exact ⟨m, rfl, .inr ⟨rfl, h.backed.target id m hm, id, hm, hstep⟩⟩

theorem moves_movedTo {t : World Disks} (h : Sound X w) (hb : Begun w id .verifying m shard)
    (ht : MovedTo w t m shard) :
    MovesCopies X w (.commit id) t := by
  have hcopy : CommitsCopy X w (.commit id) m :=
    ⟨id, rfl, hb.migration, hb.state, h.backed.copied id m hb.migration (.inl hb.state)⟩
  have hshard : t.store.get m.shardId = some (moveShard shard m.targetNodeId) :=
    (ht.shards m.shardId).trans (if_pos rfl)
  refine ⟨fun a ha => ?_, fun node a hd => ?_⟩
  · obtain rfl : a = m.shardId := by
      by_contra hne
      exact ha ((ht.shards a).trans (if_neg hne))
    exact ⟨m, shard, hcopy, rfl, hb.get, hb.owner, hshard⟩
  · obtain ⟨rfl, rfl⟩ : node = m.sourceNodeId ∧ a = m.shardId := by
      by_contra hne
      exact hd (ht.disks node a hne)
    refine ⟨m, rfl, .inl ⟨hcopy, rfl, ?_⟩⟩
    rw [hshard]
    rfl

theorem moves_copies (h : Sound X w) (step : MigrationStep) :
    Proc.Sat (mgr.perform (shardTransferProvider X env) step) w (MovesCopies X w step) fun t _ =>
      MovesCopies X w step t := by
  have hnothing := moves_ofShards (X := X) w step
  cases step with
  | createMigration uuid4 ns shardId target =>
    exact createMigration_nothing hnothing uuid4 ns shardId target
  | prepare id => exact prepare_nothing hnothing
  | startCopy id =>
    exact startCopy_beside hnothing fun m shard hb _ ht => moves_beside h hb.migration (.inl rfl) ht
  | verify id => exact verify_nothing hnothing
  | commit id => exact commit_moves hnothing fun m shard hb _ ht => moves_movedTo h hb ht
  | cancel id => exact cancel_beside hnothing fun m hm _ _ ht => moves_beside h hm (.inr rfl) ht
  | fail id error => exact fail_nothing hnothing error

end

end ShardMigrationManager

end

/-! ## Runs -/

open ShardMigrationManager

/-- A call, a call that the process dies in and is started again after, or a restart between two
calls. -/
inductive CrashOp where
  | call (mgr : ShardMigrationManager) (env : Nat → FlushEnv) (step : MigrationStep)
  | crash (mgr : ShardMigrationManager) (env : Nat → FlushEnv) (step : MigrationStep) (point : Nat)
  | restart

variable (X) in
/-- One operation, whether or not the call raises. `uuid4` never gives an id twice. -/
def crashStep (w : World Disks) : CrashOp → Option (World Disks)
  | .call mgr env step =>
    if isFresh w.store step then some (mgr.perform (shardTransferProvider X env) step w).final
      else none
  | .crash mgr env step point =>
    if isFresh w.store step then
      (mgr.perform (shardTransferProvider X env) step w).points[point]?.map restarted else none
  | .restart => some (restarted w)

variable (X) in
/-- The condition on an operation. -/
def CrashOk (w : World Disks) : CrashOp → Prop
  | .call _ _ step => StepOk X w step
  | .crash mgr env step point =>
    StepOk X w step ∧ ∀ t ∈ (mgr.perform (shardTransferProvider X env) step w).points[point]?,
      CutOk t step
  | .restart => True

instance (w : World Disks) : ∀ op, Decidable (CrashOk X w op)
  | .call _ _ step => inferInstanceAs (Decidable (StepOk X w step))
  | .crash mgr env step point =>
    inferInstanceAs (Decidable (StepOk X w step ∧
      ∀ t ∈ (mgr.perform (shardTransferProvider X env) step w).points[point]?, CutOk t step))
  | .restart => .isTrue trivial

theorem sound_crashStep (hX : X.Lawful) (hB : X.ByName) {w t : World Disks} {op : CrashOp}
    (h : Sound X w) (hok : CrashOk X w op) (ht : crashStep X w op = some t) : Sound X t := by
  cases op with
  | call mgr env step =>
    rw [crashStep] at ht
    split at ht
    · rename_i hf
      cases ht
      exact (keeps_perform hX hB h step hf hok).2
    · cases ht
  | crash mgr env step point =>
    rw [crashStep] at ht
    split at ht
    · rename_i hf
      obtain ⟨u, hu, rfl⟩ := Option.map_eq_some_iff.mp ht
      have hrestart := (keeps_perform hX hB h step hf hok.1).1 u (List.mem_of_getElem? hu)
      exact (hrestart (hok.2 u hu)).sound
    · cases ht
  | restart =>
    cases ht
    exact h.restartable.sound

/-- In every run of the calls, cut off anywhere and started again, in which no `verify` meets a
copy without a digest and no crash leaves a copy in the file that `cancel` has begun to remove:
what the next call does by any of its points, it does with finished copies only. -/
theorem commits_finished_copy (hX : X.Lawful) (hB : X.ByName) {file : EtcdData}
    (hfile : file.migrations = ∅) (disks : Disks) {ops : List CrashOp}
    (hok : Along (crashStep X) (CrashOk X) ⟨.init (some file), disks⟩ ops) {w : World Disks}
    (hrun : run (crashStep X) ⟨.init (some file), disks⟩ ops = some w) (mgr : ShardMigrationManager)
    (env : Nat → FlushEnv) (step : MigrationStep) :
    Proc.Sat (mgr.perform (shardTransferProvider X env) step) w (MovesCopies X w step) fun t _ =>
      MovesCopies X w step t := by
  have hnone : ∀ id, (InMemoryEtcd.init (some file)).getMigration id = none := by
    intro id
    show file.migrations.get? id = none
    rw [hfile]
    rfl
  have hno : ∀ {p : Prop} {id m}, (InMemoryEtcd.init (some file)).getMigration id = some m →
      p := fun hm => by
    rw [hnone] at hm
    cases hm
  have hstart : Sound X ⟨.init (some file), disks⟩ :=
    ⟨⟨fun _ _ _ _ hm => hno hm, fun _ _ hm => hno hm, fun _ _ hm => hno hm, fun _ _ hm =>
      hno hm⟩, fun d hd => by cases hd; rfl⟩
  exact moves_copies (invariant (fun _ _ _ h hc ht => sound_crashStep hX hB h hc ht)
    hstart hok hrun) step

private def ownedByN0 : EtcdData :=
  { (∅ : EtcdData).setShard ⟨"s", "ns", "n0", .active, 0, 10, [], 1⟩ with
    nodes := (Dict.set ∅ "n0" ⟨"n0", "c", .active, 1⟩).set "n1" ⟨"n1", "c", .active, 1⟩ }

/-- The log of the shard on its owner holds one entry. -/
private def ownerLog (entry : Text) : World Disks :=
  ⟨.init (some ownedByN0), fun n s => if n = "n0" ∧ s = "s" then ⟨[entry], ∅, ∅⟩ else ∅⟩

private def copier : ShardMigrationManager := ⟨⟨"c"⟩, "c"⟩

private def finishes (step : MigrationStep) : CrashOp := .call copier (fun n => ⟨n, 1, none⟩) step

/-- The process dies in the call, which would not have been able to write a table. -/
private def diesIn (step : MigrationStep) (point : Nat) : CrashOp :=
  .crash copier (fun n => ⟨n, 1, some .opening⟩) step point

/-- The verification is cut off once its state is in the file. -/
private def cutVerification : List CrashOp :=
  [.createMigration "m" "ns" "s" "n1", .prepare "m", .startCopy "m"].map finishes ++
    [diesIn (.verify "m") 0]

theorem commits_finished_copy_toN1 : ∃ w, run (crashStep named)
    (ownerLog (deletePayload "gone")) cutVerification = some w ∧
    Proc.Sat (copier.perform (shardTransferProvider named fun n => ⟨n, 1, none⟩) (.commit "m")) w
      (MovesCopies named w (.commit "m")) fun t _ => MovesCopies named w (.commit "m") t := by
  have hrun : run (crashStep named) (ownerLog (deletePayload "gone")) cutVerification =
      some ((run (crashStep named) (ownerLog (deletePayload "gone")) cutVerification).get
        (by decide +kernel)) :=
    (Option.some_get _).symm
  exact ⟨_, hrun, commits_finished_copy named_lawful named_byName rfl _ (by decide +kernel)
    hrun copier _ _⟩

private def commitIn (w : World Disks) : World Disks :=
  (copier.perform (shardTransferProvider named fun n => ⟨n, 1, none⟩) (.commit "m") w).final

/-- How many records, and which tombstones, the recovery over a node's directories finds. -/
private def foundAt (w : World Disks) (node : String) : Option (Nat × List String) :=
  (recoverRoot named (w.disks node "s")).toOption.map fun found =>
    (found.2.2.records.length, found.2.2.deletedIds)

private theorem not_movesCopies {w : World Disks} (hfound : foundAt w "n0" ≠ foundAt w "n1")
    (hmigrations : ∀ m ∈ w.store.listMigrations, m.sourceNodeId = "n0" ∧ m.targetNodeId = "n1")
    (hmoved : ((commitIn w).store.get "s").map Shard.nodeId ≠ (w.store.get "s").map Shard.nodeId) :
    ¬ MovesCopies named w (.commit "m") (commitIn w) := by
  intro h
  obtain ⟨m, shard, ⟨id, -, hm, -, log, store, result, log', store', result', hs, ht, hperm,
      hdeleted⟩, hshard, -⟩ :=
    h.shards "s" fun he => hmoved (congrArg _ he)
  obtain ⟨hsource, htarget⟩ := hmigrations m (Dict.mem_values.mpr ⟨id, hm⟩)
  rw [hsource, hshard] at hs
  rw [htarget, hshard] at ht
  refine hfound ?_
  rw [foundAt, foundAt, hs, ht]
  show some (_, _) = some (_, _)
  rw [hdeleted, hperm.length_eq, List.length_map]

/-- The copy is cut off once its state is in the file, and is verified after the restart. -/
private def cutCopy : List CrashOp :=
  [.createMigration "m" "ns" "s" "n1", .prepare "m"].map finishes ++
    [diesIn (.startCopy "m") 0, finishes (.verify "m")]

private def oneRecordOnN0 : World Disks :=
  ownerLog (some (named.modelDumpJson (unitRecord zeroId [])))

private def afterCut : World Disks :=
  (run (crashStep named) oneRecordOnN0 cutCopy).get (by decide +kernel)

/-- `commit` gives the shard to a node that has nothing of its record. -/
theorem half_copy_committed : run (crashStep named) oneRecordOnN0 cutCopy = some afterCut ∧
    foundAt afterCut "n0" = some (1, []) ∧ foundAt afterCut "n1" = some (0, []) ∧
    ((commitIn afterCut).store.get "s").map Shard.nodeId = some "n1" ∧
    ¬ MovesCopies named afterCut (.commit "m") (commitIn afterCut) := by
  refine ⟨(Option.some_get _).symm, by decide +kernel, by decide +kernel, by decide +kernel, ?_⟩
  exact not_movesCopies (by decide +kernel) (by decide +kernel) (by decide +kernel)

/-- The copy is whole, and its cancellation is cut off when the directories are removed. -/
private def cutCancel : List CrashOp :=
  [.createMigration "m" "ns" "s" "n1", .prepare "m", .startCopy "m", .verify "m"].map finishes ++
    [diesIn (.cancel "m") 1]

private def afterDiscard : World Disks :=
  (run (crashStep named) (ownerLog (deletePayload "gone")) cutCancel).get (by decide +kernel)

/-- `commit` gives the shard to the node that `cancel` has emptied. -/
theorem discarded_copy_committed : run (crashStep named)
    (ownerLog (deletePayload "gone")) cutCancel = some afterDiscard ∧
    ¬ MovesCopies named afterDiscard (.commit "m") (commitIn afterDiscard) :=
  ⟨(Option.some_get _).symm, not_movesCopies (by decide +kernel) (by decide +kernel)
    (by decide +kernel)⟩

/-- The same before the copy is verified; then the verification is cut off too, once its state is in
the file. -/
private def cutTwice : List CrashOp :=
  [.createMigration "m" "ns" "s" "n1", .prepare "m", .startCopy "m"].map finishes ++
    [diesIn (.cancel "m") 1, diesIn (.verify "m") 0]

private def afterSecondCut : World Disks :=
  (run (crashStep named) (ownerLog (deletePayload "gone")) cutTwice).get (by decide +kernel)

/-- A copy with its digest counts as one too: `verify` records `VERIFYING` before it looks at the
target. -/
theorem discarded_digest_committed :
    run (crashStep named) (ownerLog (deletePayload "gone")) cutTwice = some afterSecondCut ∧
    ¬ MovesCopies named afterSecondCut (.commit "m") (commitIn afterSecondCut) :=
  ⟨(Option.some_get _).symm,
    not_movesCopies (by decide +kernel) (by decide +kernel) (by decide +kernel)⟩

end Vsector.Sharding
