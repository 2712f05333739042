import Vsector.Proof.Sharding.MigrationSteps

/-!
# What the steps change

Every change that a step of a manager makes in the store, whatever the
transfer does, is a `Change`: a new migration of a shard without an open one,
a change of one migration, or the shard of a migration that is being committed
(`moves_perform`). The invariants of migrations and of shards follow from
that alone.
-/

namespace Vsector.Sharding

open Framework

/-- A migration after a change of its record: in its state, or one transition further. -/
structure Turn (m m' : ShardMigration) : Prop where
  same : ShardMigrationManager.SameMigration m m'
  state : m'.state = m.state ∧ m'.version = m.version ∨ m'.state ∈ m.state.next ∧
    m'.version = m.version + 1

/-- The data of the migration is copied from the owner of its shard. -/
def FromOwner (e : InMemoryEtcd) (m : ShardMigration) : Prop :=
  ∃ s, e.get m.shardId = some s ∧ s.nodeId = m.sourceNodeId

/-- A change of the store by a step. -/
inductive Change (e e' : InMemoryEtcd) : Prop where
  | same (hm : ∀ id, e'.getMigration id = e.getMigration id) (hs : ∀ id, e'.get id = e.get id)
  | created (m : ShardMigration) (hnew : e.getMigration m.migrationId = none)
      (hstate : m.state = .pending)
      (hversion : m.version = 1) (htarget : m.targetNodeId ≠ m.sourceNodeId)
      (hopen : ∀ id a, e.getMigration id = some a → a.shardId = m.shardId →
        a.state.isTerminal = true)
      (hm : ∀ id, e'.getMigration id = if id = m.migrationId then some m else e.getMigration id)
      (hs : ∀ id, e'.get id = e.get id)
  | turned (m m' : ShardMigration) (hget : e.getMigration m.migrationId = some m) (turn : Turn m m')
      (hcopy : m.state = .preparing → m'.state = .copying → FromOwner e m)
      (hm : ∀ id, e'.getMigration id = if id = m.migrationId then some m' else e.getMigration id)
      (hs : ∀ id, e'.get id = e.get id)
  | moved (m : ShardMigration) (shard shard' : Shard) (hget : e.getMigration m.migrationId = some m)
      (hcommit : m.state = .committing) (hshard : e.get m.shardId = some shard)
      (hstate : shard'.state = shard.state)
      (hm : ∀ id, e'.getMigration id = e.getMigration id)
      (hs : ∀ id, e'.get id = if id = m.shardId then some shard' else e.get id)

theorem Change.refl (e : InMemoryEtcd) : Change e e := .same (fun _ => rfl) fun _ => rfl

/-- The file says of the migrations what the live store says. -/
def InMemoryEtcd.Synced (e : InMemoryEtcd) : Prop :=
  ∀ d, e.file = some d → d.migrations = e.live.migrations

/-- The file is in step, if it was at the start (`P`). -/
abbrev InMemoryEtcd.InStep (P : Prop) (e : InMemoryEtcd) : Prop := P → e.Synced

theorem InMemoryEtcd.inStep_putMigration {P : Prop} (e : InMemoryEtcd) (m : ShardMigration) :
    (e.putMigration m).InStep P := by
  intro _ d hd
  obtain ⟨d', -, rfl⟩ := Option.map_eq_some_iff.mp hd
  rfl

namespace ShardMigrationManager

open Proc

variable {δ α β : Type} {mgr : ShardMigrationManager} {T : Transfer δ} {w : World δ}

theorem turn_stepTo {m : ShardMigration} {dest : MigrationState} (h : dest ∈ m.state.next) :
    Turn m (stepTo m dest) :=
  ⟨sameMigration_stepTo m dest, .inr ⟨h, rfl⟩⟩

/-- A migration that the store holds is changed, in the store and perhaps in the file. -/
theorem change_setMigration {e e' : InMemoryEtcd} {m : ShardMigration} (m' : ShardMigration)
    (hm : e.getMigration m.migrationId = some m) (h : Turn m m')
    (hcopy : m.state = .preparing → m'.state = .copying → FromOwner e m)
    (hmigrations : ∀ id, e'.getMigration id = if id = m'.migrationId then some m'
      else e.getMigration id)
    (hs : ∀ id, e'.get id = e.get id) : Change e e' :=
  .turned m m' hm h hcopy (by rw [← h.same.id]; exact hmigrations) hs

theorem change_putMigration {e : InMemoryEtcd} {m m' : ShardMigration}
    (hm : e.getMigration m.migrationId = some m) (h : Turn m m')
    (hcopy : m.state = .preparing → m'.state = .copying → FromOwner e m) :
    Change e (e.putMigration m') :=
  change_setMigration m' hm h hcopy (fun _ => InMemoryEtcd.getMigration_putMigration) fun _ => rfl

/-- The digests of a migration are set. -/
theorem change_digests {e e' : InMemoryEtcd} {m : ShardMigration}
    (hm : e.getMigration m.migrationId = some m) (source target : Option String)
    (hmigrations : ∀ id, e'.getMigration id = if id = m.migrationId then some
      { m with sourceDigest := source, targetDigest := target } else e.getMigration id)
    (hs : ∀ id, e'.get id = e.get id) : Change e e' :=
  change_setMigration { m with sourceDigest := source, targetDigest := target } hm
    ⟨⟨rfl, rfl, rfl, rfl, rfl, rfl⟩, .inl ⟨rfl, rfl⟩⟩
    (fun hp hc => absurd (hp.symm.trans hc) (by decide)) hmigrations hs

theorem turn_failed (m : ShardMigration) (error : String) : Turn m (failed m error) := by
  refine ⟨sameMigration_failed m error, ?_⟩
  unfold failed ShardMigration.transition
  by_cases h : MigrationState.failed ∈ m.state.next
  · rw [if_pos h]
    exact .inr ⟨h, rfl⟩
  · rw [if_neg h]
    exact .inl ⟨rfl, rfl⟩

theorem change_failed {e : InMemoryEtcd} {m : ShardMigration}
    (hm : e.getMigration m.migrationId = some m) (error : String) :
    Change e (e.putMigration (failed m error)) := by
  refine change_putMigration hm (turn_failed m error) fun hp hc => ?_
  unfold failed ShardMigration.transition at hc
  rw [hp, if_pos (by decide)] at hc
  cases hc

/-! ## Rules -/

/-- Every change of the store by `p` is a `Change`, and `Q` where `p` ends. -/
abbrev MovesStore (p : Proc (World δ) Exc α) (w : World δ) (Q : World δ → Except Exc α → Prop) :
    Prop :=
  Moves Change World.store p w Q

section

variable {Q : World δ → Except Exc β → Prop}

theorem moves_inDisks {p : Proc δ Exc α} :
    MovesStore (inDisks p) w fun t _ => t.store = w.store := by
  refine ⟨Path.const (.refl _) (fun x hx => ?_) rfl, rfl⟩
  obtain ⟨t, ht, rfl⟩ := List.mem_map.mp hx
  obtain ⟨d, -, rfl⟩ := List.mem_map.mp ht
  rfl

theorem moves_bind_inDisks {p : Proc δ Exc α} {f : α → Proc (World δ) Exc β}
    (hok : ∀ t a, t.store = w.store → MovesStore (f a) t Q)
    (herr : ∀ t e, t.store = w.store → Q t (.error e)) :
    MovesStore (inDisks p >>= f) w Q :=
  moves_inDisks.bind (fun t a => hok t a) fun t e => herr t e

theorem moves_bind_require {id : String} {f : ShardMigration → Proc (World δ) Exc β}
    (herr : ∀ e, Q w (.error e))
    (hok : ∀ m, w.store.getMigration id = some m → MovesStore (f m) w Q) :
    MovesStore (require id >>= f) w Q := by
  have hreq : MovesStore (require id) w fun t r =>
      t = w ∧ ∀ m, r = .ok m → w.store.getMigration id = some m := by
    unfold MovesStore Moves require
    rcases w.store.getMigration id with _ | m
    · exact ⟨rfl, rfl, fun _ h => nomatch h⟩
    · exact ⟨rfl, rfl, fun _ h => by cases h; rfl⟩
  refine hreq.bind (fun t m h => ?_) fun t e h => ?_
  · rw [h.1]
    exact hok m (h.2 m rfl)
  · rw [h.1]
    exact herr e

theorem moves_bind_failMigration {m : ShardMigration} {error : String}
    {f : ShardMigration → Proc (World δ) Exc β} (hm : w.store.getMigration m.migrationId = some m)
    (h : MovesStore (f (failed m error)) (putMigration w (failed m error)) Q) :
    MovesStore (failMigration m error >>= f) w Q := by
  refine Moves.bind (Q := fun t r => t = putMigration w (failed m error) ∧
    r = .ok (failed m error)) ?_ ?_ ?_
  · exact moves_bind_change (change_failed hm error) (moves_pure ⟨rfl, rfl⟩)
  · rintro t a ⟨rfl, ha⟩
    cases ha
    exact h
  · rintro t e ⟨-, he⟩
    cases he

theorem moves_bind_advance {m : ShardMigration} {dest : MigrationState}
    {f : ShardMigration → Proc (World δ) Exc β} (hm : w.store.getMigration m.migrationId = some m)
    (hdest : dest ∈ m.state.next) (hcopy : dest = .copying → FromOwner w.store m)
    (h : MovesStore (f (stepTo m dest)) (putMigration w (stepTo m dest)) Q) :
    MovesStore (advance m dest >>= f) w Q := by
  refine Moves.bind (Q := fun t r => t = putMigration w (stepTo m dest) ∧
    r = .ok (stepTo m dest)) ?_ ?_ ?_
  · refine moves_bind_ofExcept (fun a ha => ?_) fun e he => ?_
    · rw [transition_eq hdest] at ha
      cases ha
      exact moves_bind_change (change_putMigration hm (turn_stepTo hdest) fun _ => hcopy)
        (moves_pure ⟨rfl, rfl⟩)
    · rw [transition_eq hdest] at he
      cases he
  · rintro t a ⟨rfl, ha⟩
    cases ha
    exact h
  · rintro t e ⟨-, he⟩
    cases he

end

variable {P : Prop}

/-- What is shown of every step: its changes of the store are `Change`s, and it leaves the file in
step. -/
abbrev Lawful (P : Prop) (p : Proc (World δ) Exc α) (w : World δ) : Prop :=
  MovesStore p w fun t _ => t.store.InStep P

theorem lawful_failThrow {m : ShardMigration} (hm : w.store.getMigration m.migrationId = some m)
    (error : String) (exc : Exc) :
    Lawful P (do let _ ← failMigration m error; Proc.throw exc : Proc (World δ) Exc α) w :=
  moves_bind_failMigration hm (moves_throw (InMemoryEtcd.inStep_putMigration _ _))

theorem lawful_advance {m : ShardMigration} {dest : MigrationState}
    (hm : w.store.getMigration m.migrationId = some m) (hdest : dest ∈ m.state.next)
    (hcopy : dest ≠ .copying) : Lawful P (advance m dest) w := by
  refine moves_bind_ofExcept (fun a ha => ?_) fun e he => ?_
  · rw [transition_eq hdest] at ha
    cases ha
    refine moves_bind_change ?_ (moves_pure (InMemoryEtcd.inStep_putMigration _ _))
    exact change_putMigration hm (turn_stepTo hdest) fun _ hc => absurd hc hcopy
  · rw [transition_eq hdest] at he
    cases he

theorem lawful_begin {id : String} {expected : MigrationState}
    {f : ShardMigration × Shard → Proc (World δ) Exc α} (hs : w.store.InStep P)
    (h : ∀ m shard, Begun w id expected m shard → w.store.getMigration m.migrationId = some m →
      Lawful P (f (m, shard)) w) :
    Lawful P (begin id expected >>= f) w := by
  refine Moves.bind (Q := fun t r => t.store.InStep P ∧ ∀ p, r = .ok p →
    t = w ∧ Begun w id expected p.1 p.2) ?_ ?_ ?_
  · refine moves_bind_require (fun e => ⟨hs, fun _ h => nomatch h⟩) fun m hm => ?_
    refine moves_bind_ofExcept (fun _ hstate => ?_) fun e _ => ⟨hs, fun _ h => nomatch h⟩
    have hid : m.migrationId = id := InMemoryEtcd.migration_id hm
    have hstate : m.state = expected := by
      unfold requireState at hstate
      split at hstate
      · assumption
      · cases hstate
    refine Moves.bind (Q := fun t r => t.store.InStep P ∧
      ∀ shard, r = .ok shard → t = w ∧ Begun w id expected m shard) ?_ ?_ ?_
    · refine moves_bind_get ?_
      split
      · rename_i shard hshard
        obtain ⟨hget, hmig, hown, hver⟩ := checkSource_eq_ok hshard
        exact moves_pure ⟨hs, fun _ h =>
          by cases h; exact ⟨rfl, hm, hstate, hget, hmig, hown, hver⟩⟩
      · rename_i error reason _
        refine moves_bind_failMigration (by rw [hid]; exact hm)
          (moves_throw ⟨?_, fun _ h => nomatch h⟩)
        exact InMemoryEtcd.inStep_putMigration _ _
    · rintro t shard ⟨ht, hb⟩
      exact moves_pure ⟨ht, fun p hp => by cases hp; exact hb shard rfl⟩
    · rintro t e ⟨ht, -⟩
      exact ⟨ht, fun _ h => nomatch h⟩
  · rintro t ⟨m, shard⟩ ⟨-, hp⟩
    obtain ⟨rfl, hb⟩ := hp _ rfl
    have hid : m.migrationId = id := InMemoryEtcd.migration_id hb.migration
    exact h m shard hb (by rw [hid]; exact hb.migration)
  · exact fun t e h => h.1

/-! ## Steps -/

theorem lawful_prepare (id : String) (hs : w.store.InStep P) : Lawful P (prepare id) w :=
  lawful_begin hs fun m shard hb hm => lawful_advance hm (by rw [hb.state]; decide) (by decide)

theorem lawful_verify (id : String) (hs : w.store.InStep P) : Lawful P (verify T id) w := by
  refine lawful_begin hs fun m shard hb hm => ?_
  refine moves_bind_advance hm (by rw [hb.state]; decide) nofun (moves_bind_attempt ?_)
  refine moves_inDisks.mono fun t r ht => ?_
  have hsync : t.store.InStep P := by rw [ht]; exact InMemoryEtcd.inStep_putMigration _ _
  have hget : t.store.getMigration m.migrationId = some (stepTo m .verifying) := by
    rw [ht]; exact getMigration_self
  rcases r with e | actual
  · cases e
    case migrationVerification => exact lawful_failThrow hget _ _
    all_goals exact moves_throw hsync
  · refine moves_bind_change ?_ (moves_pure (InMemoryEtcd.inStep_putMigration _ _))
    exact change_digests (m := stepTo m .verifying) hget _ (some actual)
      (fun _ => InMemoryEtcd.getMigration_putMigration) fun _ => rfl

/-- The copy leaves the migration in the store, and the file in step unless it raises. -/
theorem moves_copyData {m : ShardMigration} {shard : Shard}
    (hm : w.store.getMigration m.migrationId = some m) :
    MovesStore (copyData T m shard) w fun t r =>
      (∃ m', t.store.getMigration m.migrationId = some m' ∧ m'.migrationId = m.migrationId) ∧
        ∀ a, r = .ok a → t.store.InStep P := by
  have hstart : ∀ (t : World δ) (e : Exc), t.store = w.store →
      (∃ m', t.store.getMigration m.migrationId = some m' ∧ m'.migrationId = m.migrationId) ∧
        ∀ a, (.error e : Except Exc ShardMigration) = .ok a → t.store.InStep P :=
    fun t e ht => ⟨⟨m, by rw [ht]; exact hm, rfl⟩, fun _ h => nomatch h⟩
  refine moves_bind_inDisks (fun t data ht => ?_) hstart
  refine moves_bind_inDisks (fun t' u ht' => ?_) fun t' e ht' => hstart t' e (ht'.trans ht)
  have hget : ∀ {e : InMemoryEtcd} {a : ShardMigration}, a.migrationId = m.migrationId →
      (e.setMigration a).getMigration m.migrationId = some a := fun ha =>
    InMemoryEtcd.getMigration_setMigration.trans (if_pos ha.symm)
  -- the digest of the source is a change of the live record only
  refine moves_bind_change ?_ (moves_bind_inDisks (fun t₂ target ht₂ => ?_) fun t₂ e ht₂ => ?_)
  · refine change_digests (m := m) ?_ (some data.digest) m.targetDigest
      (fun _ => InMemoryEtcd.getMigration_setMigration) fun _ => rfl
    show t'.store.getMigration m.migrationId = some m
    rw [ht', ht]
    exact hm
  · refine moves_bind_change ?_
      (moves_pure ⟨⟨_, hget rfl, rfl⟩, fun _ _ => InMemoryEtcd.inStep_putMigration _ _⟩)
    refine change_digests (m := { m with sourceDigest := some data.digest }) ?_
      (some data.digest) (some target)
      (fun _ => InMemoryEtcd.getMigration_putMigration) fun _ => rfl
    show t₂.store.getMigration m.migrationId = _
    rw [ht₂]
    exact hget rfl
  · refine ⟨⟨{ m with sourceDigest := some data.digest }, ?_, rfl⟩, fun _ h => nomatch h⟩
    rw [ht₂]
    exact hget rfl

theorem lawful_copyFailed {id : String} {m m' : ShardMigration} {exc : Exc}
    (hget : w.store.getMigration id = some m') :
    Lawful P (copyFailed id m exc) w := by
  have hid : m'.migrationId = id := InMemoryEtcd.migration_id hget
  have hm' : w.store.getMigration m'.migrationId = some m' := by rw [hid]; exact hget
  refine moves_bind_get ?_
  rw [hget]
  cases exc
  all_goals exact lawful_failThrow hm' _ _

theorem lawful_startCopy (id : String) (hs : w.store.InStep P) : Lawful P (startCopy T id) w := by
  refine lawful_begin hs fun m shard hb hm => ?_
  refine moves_bind_advance hm (by rw [hb.state]; decide) (fun _ => ⟨shard, hb.get, hb.owner⟩)
    (moves_bind_attempt ?_)
  refine (moves_copyData (P := P) getMigration_self).mono fun t r h => ?_
  obtain ⟨⟨m', hm', -⟩, hsync⟩ := h
  have hid : m.migrationId = id := InMemoryEtcd.migration_id hb.migration
  rcases r with exc | a
  · refine lawful_copyFailed (?_ : _ = some m')
    rw [← hid]
    exact hm'
  · exact moves_pure (hsync a rfl)

theorem lawful_finishCommit {m : ShardMigration} {shard : Shard} (hstate : m.state = .committing)
    (hm : w.store.getMigration m.migrationId = some m) : Lawful P (finishCommit T m shard) w := by
  refine moves_bind_attempt (moves_inDisks.mono fun t r ht => ?_)
  have hget : t.store.getMigration m.migrationId = some m := by rw [ht]; exact hm
  have hdest : MigrationState.completed ∈ m.state.next := by rw [hstate]; decide
  -- the record that is stored is the one held, with the outcome of the cleanup
  have hfinish : ∀ (finalized : Bool) (error : Option String),
      Lawful P (advance { m with finalized := finalized, error := error } .completed) t := by
    intro finalized error
    refine moves_bind_ofExcept (fun a ha => ?_) fun e he => ?_
    · rw [transition_eq (m := { m with finalized := finalized, error := error }) hdest] at ha
      cases ha
      refine moves_bind_change ?_ (moves_pure (InMemoryEtcd.inStep_putMigration _ _))
      exact change_putMigration hget ⟨⟨rfl, rfl, rfl, rfl, rfl, rfl⟩, .inr ⟨hdest, rfl⟩⟩ nofun
    · rw [transition_eq (m := { m with finalized := finalized, error := error }) hdest] at he
      cases he
  rcases r with exc | ⟨⟩
  · exact hfinish _ _
  · exact hfinish _ m.error

theorem lawful_commit (id : String) (hs : w.store.InStep P) : Lawful P (mgr.commit T id) w := by
  refine lawful_begin hs fun m shard hb hm =>
    moves_bind_get (moves_bind_ofExcept (fun _ _ => ?_) fun _ _ => hs)
  refine moves_bind_advance hm (by rw [hb.state]; decide) nofun ?_
  have hid : shard.id = m.shardId := hb.shard_id
  have hset : ∀ id, ((w.store.putMigration (stepTo m .committing)).setShard
      (moveShard shard m.targetNodeId)).get id =
      if id = m.shardId then some (moveShard shard m.targetNodeId) else w.store.get id := by
    intro id
    rw [← hid]
    exact InMemoryEtcd.get_setShard
  refine moves_bind_change (.moved (stepTo m .committing) shard (moveShard shard m.targetNodeId)
    getMigration_self rfl
    hb.get rfl (fun _ => rfl) hset) (moves_bind_get ?_)
  dsimp only
  split
  · refine moves_bind_change (.same (fun _ => rfl) fun id => ?_)
      (lawful_finishCommit rfl getMigration_self)
    refine InMemoryEtcd.get_put.trans ?_
    split
    · rename_i ha
      exact (InMemoryEtcd.get_setShard.trans (if_pos ha)).symm
    · rfl
  · split
    · exact moves_throw (InMemoryEtcd.inStep_putMigration w.store (stepTo m .committing))
    · refine moves_bind_change ?_ (lawful_failThrow getMigration_self _ _)
      refine .moved (stepTo m .committing) (moveShard shard m.targetNodeId) shard
        getMigration_self rfl
        ((hset m.shardId).trans (if_pos rfl)) rfl (fun _ => rfl) fun id => ?_
      show _ = if id = m.shardId then some shard else _
      rw [← hid]
      exact InMemoryEtcd.get_setShard

theorem moves_discardCopy {m : ShardMigration} :
    MovesStore (discardCopy T m) w fun t _ => t.store = w.store := by
  refine moves_bind_get ?_
  split
  · exact moves_pure rfl
  · split
    · exact moves_bind_attempt (moves_inDisks.mono fun t r ht => moves_pure ht)
    · exact moves_pure rfl

theorem lawful_cancel (id : String) (hs : w.store.InStep P) : Lawful P (cancel T id) w := by
  refine moves_bind_require (fun _ => hs) fun m hm => ?_
  have hid : m.migrationId = id := InMemoryEtcd.migration_id hm
  show Lawful P (if _ then _ else _) w
  split
  · exact moves_throw hs
  · rename_i hc
    have hdest : MigrationState.cancelled ∈ m.state.next :=
      mem_next_of_cancelable (by simpa using hc)
    refine moves_discardCopy.bind (fun t _ ht => lawful_advance ?_ hdest (by decide))
      fun t e ht => ?_
    · rw [ht, hid]
      exact hm
    · rw [ht]
      exact hs

theorem lawful_fail (id error : String) (hs : w.store.InStep P) : Lawful P (fail id error) w := by
  refine moves_bind_require (fun _ => hs) fun m hm => ?_
  have hid : m.migrationId = id := InMemoryEtcd.migration_id hm
  show Lawful P (if _ then _ else _) w
  split
  · exact moves_throw hs
  · refine moves_bind_change ?_ (moves_pure (InMemoryEtcd.inStep_putMigration _ _))
    exact change_failed (by rw [hid]; exact hm) error

/-- A new migration is the only open one of its shard. -/
theorem lawful_createMigration {uuid4 : String} (ns shardId target : String) (hs : w.store.InStep P)
    (hf : w.store.getMigration uuid4 = none) :
    Lawful P (mgr.createMigration uuid4 ns shardId target) w := by
  refine moves_bind_get (moves_bind_ofExcept (fun m hm => ?_) fun _ _ => hs)
  obtain ⟨shard, -, -, -, htarget, hopen, rfl⟩ := newMigration_eq_ok hm
  refine moves_bind_change (.created _ hf rfl rfl htarget (fun id a ha hshard => ?_)
    (fun _ => InMemoryEtcd.getMigration_putMigration) fun _ =>
      rfl) (moves_pure (InMemoryEtcd.inStep_putMigration _ _))
  exact hopen a (Dict.mem_values.mpr ⟨id, ha⟩) hshard

/-- Every step changes the store by `Change`s only, and leaves the file in step with it. -/
theorem moves_perform (step : MigrationStep) (hs : w.store.InStep P) (hf : isFresh w.store step) :
    Lawful P (mgr.perform T step) w := by
  cases step with
  | createMigration uuid4 ns shardId target =>
    exact lawful_createMigration ns shardId target hs (Option.isNone_iff_eq_none.mp hf)
  | prepare id => exact lawful_prepare id hs
  | startCopy id => exact lawful_startCopy id hs
  | verify id => exact lawful_verify id hs
  | commit id => exact lawful_commit id hs
  | cancel id => exact lawful_cancel id hs
  | fail id error => exact lawful_fail id error hs

end ShardMigrationManager

end Vsector.Sharding
