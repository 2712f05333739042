import Vsector.Impl.Sharding.Migration
import Vsector.Proof.Sharding.Etcd

/-!
# What a migration step does

The rules of `Framework/Proc` for the steps of `ShardMigrationManager`
(`sat_begin`, `sat_advance`, …), and what every step keeps, whatever the
transfer does (`sat_perform_keeps`): each migration stays a migration of the
same shard between the same nodes, and a shard whose record changes has a
higher version.
-/

namespace Vsector.Sharding

open Framework Cluster

namespace ShardMigrationManager

open Proc

variable {δ α : Type} {mgr : ShardMigrationManager} {T : Transfer δ} {w : World δ}
  {C : World δ → Prop}

/-- The world with a migration stored and persisted. -/
abbrev putMigration (w : World δ) (m : ShardMigration) : World δ :=
  { w with store := w.store.putMigration m }

/-- A migration after `_fail`. -/
def failed (m : ShardMigration) (error : String) : ShardMigration :=
  { (match m.transition .failed with
    | .ok m => m
    | .error _ => m) with error := some error }

/-- A migration that has moved on. -/
def stepTo (m : ShardMigration) (dest : MigrationState) : ShardMigration :=
  { m with state := dest, version := m.version + 1 }

theorem transition_eq {m : ShardMigration} {dest : MigrationState} (h : dest ∈ m.state.next) :
    m.transition dest = .ok (stepTo m dest) := if_pos h

/-! ## Rules -/

theorem sat_inStore {f : InMemoryEtcd → InMemoryEtcd} {Q : World δ → Except Exc Unit → Prop} :
    Sat (inStore f) w C Q ↔ C { w with store := f w.store } ∧
      Q { w with store := f w.store } (.ok ()) := sat_change

theorem sat_inDisks {p : Proc δ Exc α} {Q : World δ → Except Exc α → Prop} :
    Sat (inDisks p) w C Q ↔ Sat p w.disks (fun d => C { w with disks := d }) fun d r =>
      Q { w with disks := d } r :=
  sat_within

theorem sat_require {id : String} {Q : World δ → Except Exc ShardMigration → Prop} :
    Sat (require id) w C Q ↔
      match w.store.getMigration id with
      | none => Q w (.error (.migrationNotFound id))
      | some m => Q w (.ok m) := by
  unfold Sat require
  cases w.store.getMigration id with
  | none => exact ⟨fun h => h.2, fun h => ⟨fun _ ht => absurd ht List.not_mem_nil, h⟩⟩
  | some m => exact ⟨fun h => h.2, fun h => ⟨fun _ ht => absurd ht List.not_mem_nil, h⟩⟩

theorem sat_failMigration {m : ShardMigration} {error : String}
    {Q : World δ → Except Exc ShardMigration → Prop} :
    Sat (failMigration m error) w C Q ↔
      C (putMigration w (failed m error)) ∧
      Q (putMigration w (failed m error)) (.ok (failed m error)) := by
  unfold failMigration
  simp only [sat_bind, sat_inStore, then_ok, sat_pure]
  exact .rfl

theorem sat_advance {m : ShardMigration} {dest : MigrationState} (h : dest ∈ m.state.next)
    {Q : World δ → Except Exc ShardMigration → Prop} :
    Sat (advance m dest) w C Q ↔
      C (putMigration w (stepTo m dest)) ∧
      Q (putMigration w (stepTo m dest)) (.ok (stepTo m dest)) := by
  unfold advance
  simp only [sat_bind, sat_ofExcept, transition_eq h, then_ok, sat_inStore, sat_pure]

theorem checkSource_eq_ok {m : ShardMigration} {o : Option Shard} {shard : Shard}
    (h : checkSource m o = .ok shard) :
    o = some shard ∧ shard.state.isMigratable = true ∧ shard.nodeId = m.sourceNodeId ∧
    shard.version = m.sourceVersion := by
  unfold checkSource at h
  split at h
  · cases h
  · split at h
    · cases h
    · rename_i hs
      split at h
      · cases h
      · rename_i hn
        split at h
        · cases h
        · rename_i hv
          cases h
          exact ⟨rfl, by simpa using hs, not_not.mp hn, not_not.mp hv⟩

/-- The migration and the shard that a step goes on with. -/
structure Begun (w : World δ) (id : String) (expected : MigrationState) (m : ShardMigration)
    (shard : Shard) : Prop where
  migration : w.store.getMigration id = some m
  state : m.state = expected
  get : w.store.get m.shardId = some shard
  migratable : shard.state.isMigratable = true
  owner : shard.nodeId = m.sourceNodeId
  version : shard.version = m.sourceVersion

theorem Begun.shard_id {id : String} {expected : MigrationState} {m : ShardMigration}
    {shard : Shard} (h : Begun w id expected m shard) : shard.id = m.shardId :=
  InMemoryEtcd.shard_id h.get

/-- A step begins with the migration and its shard, or it raises: at once, or after it has failed
the migration. -/
theorem sat_begin {id : String} {expected : MigrationState}
    {Q : World δ → Except Exc (ShardMigration × Shard) → Prop} (herr : ∀ e, Q w (.error e))
    (hstale : ∀ m error e, w.store.getMigration id = some m → m.state = expected →
      C (putMigration w (failed m error)) ∧ Q (putMigration w (failed m error)) (.error e))
    (hok : ∀ m shard, Begun w id expected m shard → Q w (.ok (m, shard))) :
    Sat (begin id expected) w C Q := by
  unfold begin
  rw [sat_bind, sat_require]
  split
  · exact herr _
  · rename_i m hm
    simp only [then_ok, sat_bind, sat_ofExcept, requireState]
    split
    · rename_i hstate
      simp only [then_ok, sat_bind, assertSourceValid, sat_get]
      split
      · rename_i shard hshard
        obtain ⟨hget, hmig, hown, hver⟩ := checkSource_eq_ok hshard
        simp only [sat_pure, then_ok]
        exact hok m shard ⟨hm, hstate, hget, hmig, hown, hver⟩
      · simp only [sat_bind, sat_failMigration, then_ok, sat_throw, then_error]
        exact hstale m _ _ hm hstate
    · exact herr _

section

variable {β : Type} {Q : World δ → Except Exc β → Prop}

theorem sat_bind_begin {id : String} {expected : MigrationState}
    {f : ShardMigration × Shard → Proc (World δ) Exc β} (herr : ∀ e, Q w (.error e))
    (hstale : ∀ m error e, w.store.getMigration id = some m → m.state = expected →
      C (putMigration w (failed m error)) ∧ Q (putMigration w (failed m error)) (.error e))
    (hok : ∀ m shard, Begun w id expected m shard → Sat (f (m, shard)) w C Q) :
    Sat (begin id expected >>= f) w C Q :=
  sat_bind.mpr (sat_begin herr hstale hok)

theorem sat_bind_advance {m : ShardMigration} {dest : MigrationState}
    {f : ShardMigration → Proc (World δ) Exc β} (hdest : dest ∈ m.state.next)
    (hC : C (putMigration w (stepTo m dest)))
    (h : Sat (f (stepTo m dest)) (putMigration w (stepTo m dest)) C Q) :
    Sat (advance m dest >>= f) w C Q :=
  sat_bind.mpr ((sat_advance hdest).mpr ⟨hC, h⟩)

theorem sat_bind_failMigration {m : ShardMigration} {error : String}
    {f : ShardMigration → Proc (World δ) Exc β} (hC : C (putMigration w (failed m error)))
    (h : Sat (f (failed m error)) (putMigration w (failed m error)) C Q) :
    Sat (failMigration m error >>= f) w C Q :=
  sat_bind.mpr (sat_failMigration.mpr ⟨hC, h⟩)

theorem sat_bind_inStore {g : InMemoryEtcd → InMemoryEtcd} {f : Unit → Proc (World δ) Exc β}
    (hC : C { w with store := g w.store }) (h : Sat (f ()) { w with store := g w.store } C Q) :
    Sat (inStore g >>= f) w C Q :=
  sat_bind_change hC h

theorem sat_bind_inDisks {p : Proc δ Exc α} {f : α → Proc (World δ) Exc β}
    {R : δ → Except Exc α → Prop} (hp : Sat p w.disks (fun d => C { w with disks := d }) R)
    (hok : ∀ d a, R d (.ok a) → Sat (f a) { w with disks := d } C Q)
    (herr : ∀ d e, R d (.error e) → Q { w with disks := d } (.error e)) :
    Sat (inDisks p >>= f) w C Q := by
  refine sat_bind.mpr (sat_inDisks.mpr (hp.mono (fun _ => id) fun d r hr => ?_))
  cases r with
  | error e => exact herr d e hr
  | ok a => exact hok d a hr

/-- Whatever `p` does on the disks. -/
theorem sat_any {σ : Type} {p : Proc σ Exc α} {s : σ} {C : σ → Prop} (hC : ∀ t, C t) :
    Sat p s C fun _ _ => True :=
  ⟨fun t _ => hC t, trivial⟩

end

/-- The migration that a step has just stored. -/
theorem getMigration_self {e : InMemoryEtcd} {m : ShardMigration} :
    (e.putMigration m).getMigration m.migrationId = some m :=
  InMemoryEtcd.getMigration_putMigration.trans (if_pos rfl)

/-! ## What every step keeps -/

/-- A migration of the same shard between the same nodes. -/
structure SameMigration (m m' : ShardMigration) : Prop where
  id : m'.migrationId = m.migrationId
  ns : m'.ns = m.ns
  shard : m'.shardId = m.shardId
  source : m'.sourceNodeId = m.sourceNodeId
  target : m'.targetNodeId = m.targetNodeId
  version : m'.sourceVersion = m.sourceVersion

theorem SameMigration.refl (m : ShardMigration) : SameMigration m m :=
  ⟨rfl, rfl, rfl, rfl, rfl, rfl⟩

theorem SameMigration.trans {a b c : ShardMigration} (h : SameMigration a b)
    (h' : SameMigration b c) :
    SameMigration a c :=
  ⟨h'.id.trans h.id, h'.ns.trans h.ns, h'.shard.trans h.shard, h'.source.trans h.source,
    h'.target.trans h.target, h'.version.trans h.version⟩

theorem sameMigration_failed (m : ShardMigration) (error : String) :
    SameMigration m (failed m error) := by
  unfold failed ShardMigration.transition
  by_cases h : MigrationState.failed ∈ m.state.next
  · rw [if_pos h]
    exact ⟨rfl, rfl, rfl, rfl, rfl, rfl⟩
  · rw [if_neg h]
    exact ⟨rfl, rfl, rfl, rfl, rfl, rfl⟩

theorem sameMigration_stepTo (m : ShardMigration) (dest : MigrationState) :
    SameMigration m (stepTo m dest) :=
  ⟨rfl, rfl, rfl, rfl, rfl, rfl⟩

structure Keeps (e e' : InMemoryEtcd) : Prop where
  migrations : ∀ id m, e.getMigration id = some m → ∃ m', e'.getMigration id = some m' ∧
    SameMigration m m'
  shards : ∀ id, e'.get id = e.get id ∨ ∃ s s', e.get id = some s ∧ e'.get id = some s' ∧
    s.version < s'.version

theorem Keeps.refl (e : InMemoryEtcd) : Keeps e e :=
  ⟨fun _ m h => ⟨m, h, .refl m⟩, fun _ => .inl rfl⟩

/-- A change of one migration, and of no shard. -/
theorem keeps_migration {e e' : InMemoryEtcd} {id : String} {m m' : ShardMigration}
    (hm : e.getMigration id = some m) (hs : SameMigration m m')
    (hshards : ∀ id, e'.get id = e.get id)
    (hmigrations : ∀ id, e'.getMigration id = if id = m'.migrationId then some m'
      else e.getMigration id) :
    Keeps e e' where
  migrations a b hb := by
    rw [hmigrations]
    split
    · rename_i ha
      rw [ha, hs.id, InMemoryEtcd.migration_id hm, hm] at hb
      cases hb
      exact ⟨m', rfl, hs⟩
    · exact ⟨b, hb, .refl b⟩
  shards a := .inl (hshards a)

theorem keeps_putMigration {e : InMemoryEtcd} {id : String} {m m' : ShardMigration}
    (hm : e.getMigration id = some m) (hs : SameMigration m m') : Keeps e (e.putMigration m') :=
  keeps_migration hm hs (fun _ => rfl) fun _ => InMemoryEtcd.getMigration_putMigration

theorem Keeps.trans {a b c : InMemoryEtcd} (h : Keeps a b) (h' : Keeps b c) : Keeps a c where
  migrations id m hm := by
    obtain ⟨m₁, h₁, hs₁⟩ := h.migrations id m hm
    obtain ⟨m₂, h₂, hs₂⟩ := h'.migrations id m₁ h₁
    exact ⟨m₂, h₂, hs₁.trans hs₂⟩
  shards id := by
    obtain h₁ | ⟨s, s', hs, hs', hlt⟩ := h.shards id
    · obtain h₂ | ⟨t, t', ht, ht', hlt'⟩ := h'.shards id
      · exact .inl (h₂.trans h₁)
      · exact .inr ⟨t, t', h₁ ▸ ht, ht', hlt'⟩
    · obtain h₂ | ⟨t, t', ht, ht', hlt'⟩ := h'.shards id
      · exact .inr ⟨s, s', hs, h₂.trans hs', hlt⟩
      · rw [hs'] at ht
        cases ht
        exact .inr ⟨s, t', hs, ht', hlt.trans hlt'⟩

/-- The store once `commit` has given the shard to the target. -/
theorem keeps_move {e e' : InMemoryEtcd} {shard : Shard} (target : String)
    (h : e.get shard.id = some shard) (hmigrations : ∀ id, e'.getMigration id = e.getMigration id)
    (hshards : ∀ id, e'.get id = if id = shard.id then some (moveShard shard target)
      else e.get id) :
    Keeps e e' where
  migrations id m hm := ⟨m, (hmigrations id).trans hm, .refl m⟩
  shards id := by
    rw [hshards]
    split
    · rename_i hid
      exact .inr ⟨shard, moveShard shard target, hid ▸ h, rfl, Nat.lt_succ_self _⟩
    · exact .inl rfl

/-- The store after `commit` has given up: the shard is as it was. -/
theorem get_rollback {e : InMemoryEtcd} {shard : Shard} (h : e.get shard.id = some shard)
    (target id : String) :
    ((e.setShard (moveShard shard target)).setShard shard).get id = e.get id := by
  rw [InMemoryEtcd.get_setShard]
  split
  · rename_i hid
    rw [hid, h]
  · rename_i hid
    rw [InMemoryEtcd.get_setShard]
    exact if_neg hid

/-- A new migration has an id of its own. -/
def isFresh (e : InMemoryEtcd) : MigrationStep → Bool
  | .createMigration uuid4 _ _ _ => (e.getMigration uuid4).isNone
  | _ => true

theorem requireOwner_eq_ok {s : Shard} {owner : String} (h : s.requireOwner = .ok owner) :
    owner = s.nodeId := by
  unfold Shard.requireOwner at h
  split at h
  · cases h
  · cases h
    rfl

/-- What `create_migration` has checked of the migration it makes. -/
theorem newMigration_eq_ok {e : InMemoryEtcd} {uuid4 ns shardId target : String}
    {m : ShardMigration} (h : mgr.newMigration e uuid4 ns shardId target = .ok m) :
    ∃ shard, e.get shardId = some shard ∧ shard.ns = ns ∧ shard.state.isMigratable = true ∧
      target ≠ shard.nodeId ∧
      (∀ a ∈ e.listMigrations, a.shardId = shardId → a.state.isTerminal = true) ∧
      m =
        { migrationId := uuid4, ns := ns, shardId := shardId, sourceNodeId := shard.nodeId,
          targetNodeId := target, state := .pending, sourceVersion := shard.version,
          clusterId := mgr.clusterId, error := none, version := 1, sourceDigest := none,
          targetDigest := none, finalized := false } := by
  unfold newMigration at h
  split at h
  · cases h
  · rename_i shard hshard
    split at h
    · cases h
    · rename_i hns
      split at h
      · cases h
      · rename_i hmig
        rcases howner : shard.requireOwner with _ | owner
        · rw [howner] at h
          cases h
        · have howner' := requireOwner_eq_ok howner
          rw [howner] at h
          change (mgr.validateMember e owner .source >>= _) = _ at h
          rcases hs : mgr.validateMember e owner .source with _ | ⟨⟩
          · rw [hs] at h
            cases h
          · rw [hs] at h
            change (mgr.validateMember e target .target >>= _) = _ at h
            rcases ht : mgr.validateMember e target .target with _ | ⟨⟩
            · rw [ht] at h
              cases h
            · rw [ht] at h
              change (if target = owner then _ else _) = _ at h
              split at h
              · cases h
              · rename_i hne
                split at h
                · cases h
                · rename_i hnone
                  cases h
                  refine ⟨shard, hshard, not_not.mp hns,
                    by simpa using hmig, howner' ▸ hne, fun a ha hid => ?_, ?_⟩
                  · have hnot := List.find?_eq_none.mp hnone a ha
                    simpa [hid] using hnot
                  · rw [howner']

/-! ## Every step -/

theorem keeps_failed {e : InMemoryEtcd} {id : String} {m : ShardMigration}
    (h : e.getMigration id = some m) (error : String) : Keeps e (e.putMigration (failed m error)) :=
  keeps_putMigration h (sameMigration_failed m error)

theorem keeps_stepTo {e : InMemoryEtcd} {id : String} {m : ShardMigration}
    (h : e.getMigration id = some m) (dest : MigrationState) :
    Keeps e (e.putMigration (stepTo m dest)) :=
  keeps_putMigration h (sameMigration_stepTo m dest)

/-- What is shown of every step: `Keeps` at its end, and nothing about its points. -/
abbrev SatKeeps (p : Proc (World δ) Exc α) (w : World δ) (e : InMemoryEtcd) : Prop :=
  Sat p w (fun _ => True) fun t _ => Keeps e t.store

theorem satKeeps_begin {id : String} {expected : MigrationState}
    {f : ShardMigration × Shard → Proc (World δ) Exc α}
    (h : ∀ m shard, Begun w id expected m shard → SatKeeps (f (m, shard)) w w.store) :
    SatKeeps (begin id expected >>= f) w w.store :=
  sat_bind_begin (fun _ => .refl _) (fun _ error _ hm _ => ⟨trivial, keeps_failed hm error⟩) h

theorem satKeeps_failThrow {e : InMemoryEtcd} {id : String} {m : ShardMigration}
    (hk : Keeps e w.store) (hm : w.store.getMigration id = some m) (error : String) (exc : Exc) :
    SatKeeps (do let _ ← failMigration m error; Proc.throw exc : Proc (World δ) Exc α) w e :=
  sat_bind_failMigration trivial (sat_throw.mpr (hk.trans (keeps_failed hm error)))

theorem satKeeps_prepare (id : String) : SatKeeps (prepare id) w w.store := by
  refine satKeeps_begin fun m shard hb => ?_
  exact (sat_advance (by rw [hb.state]; decide)).mpr ⟨trivial, keeps_stepTo hb.migration _⟩

theorem satKeeps_verify (id : String) : SatKeeps (verify T id) w w.store := by
  refine satKeeps_begin fun m shard hb => ?_
  have hk := keeps_stepTo hb.migration .verifying
  refine sat_bind_advance (by rw [hb.state]; decide) trivial (sat_bind_attempt (sat_inDisks.mpr ?_))
  refine (sat_any fun _ => trivial).mono (fun _ _ => trivial) fun d r _ => ?_
  rcases r with e | actual
  · cases e
    case migrationVerification => exact satKeeps_failThrow hk getMigration_self _ _
    all_goals exact sat_throw.mpr hk
  · refine sat_bind_inStore trivial (sat_pure.mpr (hk.trans ?_))
    exact keeps_putMigration getMigration_self ⟨rfl, rfl, rfl, rfl, rfl, rfl⟩

/-- What the copy leaves: the migration, with its digests perhaps. -/
structure Copied (e : InMemoryEtcd) (m : ShardMigration) (e' : InMemoryEtcd) : Prop where
  keeps : Keeps e e'
  found : ∃ m', e'.getMigration m.migrationId = some m' ∧ SameMigration m m'

theorem sat_copyData {e : InMemoryEtcd} {m : ShardMigration} {shard : Shard} (hk : Keeps e w.store)
    (hm : w.store.getMigration m.migrationId = some m) :
    Sat (copyData T m shard) w (fun _ => True) fun t _ => Copied e m t.store := by
  have hstart : Copied e m w.store := ⟨hk, m, hm, .refl m⟩
  refine sat_bind_inDisks (sat_any fun _ => trivial) (fun d data _ => ?_) fun _ _ _ => hstart
  refine sat_bind_inDisks (sat_any fun _ => trivial) (fun d u _ => ?_) fun _ _ _ => hstart
  let m₁ := { m with sourceDigest := some data.digest }
  have hget : ∀ id, (w.store.setMigration m₁).getMigration id = if id = m.migrationId then
      some m₁ else
      w.store.getMigration id := fun id => InMemoryEtcd.getMigration_setMigration
  have hs₁ : SameMigration m m₁ := ⟨rfl, rfl, rfl, rfl, rfl, rfl⟩
  have hk₁ : Keeps e (w.store.setMigration m₁) :=
    hk.trans (keeps_migration hm hs₁ (fun _ => rfl) hget)
  have hm₁ : (w.store.setMigration m₁).getMigration m.migrationId = some m₁ :=
    (hget m.migrationId).trans (if_pos rfl)
  refine sat_bind_inStore trivial (sat_bind_inDisks (sat_any fun _ => trivial)
    (fun d target _ => ?_) fun _ _ _ => ?_)
  · refine sat_bind_inStore trivial
      (sat_pure.mpr ⟨hk₁.trans ?_, _, getMigration_self, ⟨rfl, rfl, rfl, rfl, rfl, rfl⟩⟩)
    exact keeps_putMigration hm₁ ⟨rfl, rfl, rfl, rfl, rfl, rfl⟩
  · exact ⟨hk₁, m₁, hm₁, ⟨rfl, rfl, rfl, rfl, rfl, rfl⟩⟩

theorem satKeeps_copyFailed {e : InMemoryEtcd} {id : String} {m : ShardMigration} {exc : Exc}
    (hid : m.migrationId = id) (hc : Copied e m w.store) : SatKeeps (copyFailed id m exc) w e := by
  obtain ⟨m', hm', hs⟩ := hc.found
  have hget : (w.store.getMigration id).getD m = m' := by
    rw [← hid, hm']
    rfl
  refine sat_bind_get ?_
  rw [hget]
  cases exc
  all_goals exact satKeeps_failThrow hc.keeps hm' _ _

theorem satKeeps_startCopy (id : String) : SatKeeps (startCopy T id) w w.store := by
  refine satKeeps_begin fun m shard hb => ?_
  have hk := keeps_stepTo hb.migration .copying
  refine sat_bind_advance (by rw [hb.state]; decide) trivial (sat_bind_attempt ?_)
  refine (sat_copyData hk getMigration_self).mono (fun _ h => h) fun t r hc => ?_
  have hid : m.migrationId = id := InMemoryEtcd.migration_id hb.migration
  rcases r with exc | m'
  · exact satKeeps_copyFailed hid hc
  · exact sat_pure.mpr hc.keeps

theorem satKeeps_finishCommit {e : InMemoryEtcd} {m : ShardMigration} {shard : Shard}
    (hk : Keeps e w.store) (hstate : m.state = .committing)
    (hm : w.store.getMigration m.migrationId = some m) :
    SatKeeps (finishCommit T m shard) w e := by
  refine sat_bind_attempt
    (sat_inDisks.mpr ((sat_any fun _ => trivial).mono (fun _ _ => trivial) fun d r _ => ?_))
  rcases r with exc | ⟨⟩
  all_goals
    refine (sat_advance (by dsimp only; rw [hstate]; decide)).mpr ⟨trivial, hk.trans ?_⟩
    exact keeps_putMigration hm ⟨rfl, rfl, rfl, rfl, rfl, rfl⟩

theorem satKeeps_commit (id : String) : SatKeeps (mgr.commit T id) w w.store := by
  refine satKeeps_begin fun m shard hb => ?_
  refine sat_bind_get (sat_bind_ofExcept (fun _ _ => ?_) fun _ _ => .refl _)
  have hk := keeps_stepTo hb.migration .committing
  have hshard : (w.store.putMigration (stepTo m .committing)).get shard.id = some shard := by
    rw [hb.shard_id]
    exact hb.get
  have hset : ∀ id, ((w.store.putMigration (stepTo m .committing)).setShard
      (moveShard shard m.targetNodeId)).get id =
      if id = shard.id then some (moveShard shard m.targetNodeId) else w.store.get id :=
    fun _ => InMemoryEtcd.get_setShard
  refine sat_bind_advance (by rw [hb.state]; decide) trivial
    (sat_bind_inStore trivial (sat_bind_get ?_))
  dsimp only
  split
  · refine sat_bind_inStore trivial (satKeeps_finishCommit ?_ rfl getMigration_self)
    refine hk.trans (keeps_move m.targetNodeId hshard (fun _ => rfl) fun a => ?_)
    refine InMemoryEtcd.get_put.trans ?_
    by_cases ha : a = shard.id
    · rw [if_pos ha]
      exact if_pos ha
    · rw [if_neg ha]
      exact (if_neg ha).trans ((hset a).trans (if_neg ha))
  · split
    · exact sat_throw.mpr (hk.trans (keeps_move m.targetNodeId hshard (fun _ => rfl) hset))
    · refine sat_bind_inStore trivial (satKeeps_failThrow (hk.trans ?_) getMigration_self _ _)
      exact ⟨fun _ m hm => ⟨m, hm, .refl m⟩, fun _ => .inl (get_rollback hshard _ _)⟩

theorem mem_next_of_cancelable {st : MigrationState} (h : st.isCancelable = true) :
    .cancelled ∈ st.next := by
  cases st <;> first | exact absurd h Bool.false_ne_true | decide

/-- The cleanup of a cancelled migration changes the disks only. -/
theorem sat_discardCopy {m : ShardMigration} {Q : World δ → Except Exc Unit → Prop}
    (h : ∀ d, Q { w with disks := d } (.ok ())) : Sat (discardCopy T m) w (fun _ => True) Q := by
  refine sat_bind_get ?_
  split
  · exact sat_pure.mpr (h w.disks)
  · split
    · refine sat_bind_attempt
        (sat_inDisks.mpr ((sat_any fun _ => trivial).mono (fun _ _ => trivial) fun d _ _ => ?_))
      exact sat_pure.mpr (h d)
    · exact sat_pure.mpr (h w.disks)

theorem satKeeps_cancel (id : String) : SatKeeps (cancel T id) w w.store := by
  refine sat_bind.mpr (sat_require.mpr ?_)
  split
  · exact .refl _
  · rename_i m hm
    show SatKeeps (if _ then _ else _) w w.store
    split
    · exact sat_throw.mpr (.refl _)
    · rename_i hc
      have hdest : MigrationState.cancelled ∈ m.state.next :=
        mem_next_of_cancelable (by simpa using hc)
      refine Sat.bind (sat_discardCopy (Q := fun t _ => t.store = w.store) (fun _ => rfl)) ?_ ?_
      · intro t _ ht
        refine (sat_advance hdest).mpr ⟨trivial, ?_⟩
        show Keeps w.store (t.store.putMigration _)
        rw [ht]
        exact keeps_stepTo hm _
      · intro t e ht
        rw [ht]
        exact .refl _

theorem satKeeps_fail (id error : String) : SatKeeps (fail id error) w w.store := by
  refine sat_bind.mpr (sat_require.mpr ?_)
  split
  · exact .refl _
  · rename_i m hm
    show SatKeeps (if _ then _ else _) w w.store
    split
    · exact sat_throw.mpr (.refl _)
    · exact sat_failMigration.mpr ⟨trivial, keeps_failed hm error⟩

theorem satKeeps_createMigration {uuid4 : String} (ns shardId target : String)
    (hf : w.store.getMigration uuid4 = none) :
    SatKeeps (mgr.createMigration uuid4 ns shardId target) w w.store := by
  refine sat_bind_get (sat_bind_ofExcept (fun m hm => ?_) fun _ _ => .refl _)
  obtain ⟨shard, -, -, -, -, -, rfl⟩ := newMigration_eq_ok hm
  refine sat_bind_inStore trivial (sat_pure.mpr ⟨fun id a ha => ?_, fun _ => .inl rfl⟩)
  refine ⟨a, InMemoryEtcd.getMigration_putMigration.trans (if_neg ?_ |>.trans ha), .refl a⟩
  rintro rfl
  rw [hf] at ha
  cases ha

variable (mgr T) in
/-- Every step keeps every migration, and raises the version of a shard it changes. -/
theorem sat_perform_keeps (step : MigrationStep) (hf : isFresh w.store step) :
    SatKeeps (mgr.perform T step) w w.store := by
  cases step with
  | createMigration uuid4 ns shardId target =>
    exact satKeeps_createMigration ns shardId target (Option.isNone_iff_eq_none.mp hf)
  | prepare id => exact satKeeps_prepare id
  | startCopy id => exact satKeeps_startCopy id
  | verify id => exact satKeeps_verify id
  | commit id => exact satKeeps_commit id
  | cancel id => exact satKeeps_cancel id
  | fail id error => exact satKeeps_fail id error

end ShardMigrationManager

end Vsector.Sharding
