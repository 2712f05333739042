import Vsector.Proof.Sharding.Disks

/-!
# What a call changes

Of the shards and their directories, `create_migration`, `prepare`, `verify`
and `fail` change nothing; `start_copy` and `cancel` change the target's
directories, and `commit` gives the shard to the target and removes the
source's. Each holds at every point of the call.
-/

namespace Vsector.Sharding

open Framework Models

namespace ShardMigrationManager

variable {X : Externals} {mgr : ShardMigrationManager} {env : Nat → Storage.FlushEnv} {id : String}
  {w : World Disks}
variable {P : World Disks → Prop}

/-- `P` holds wherever only the migrations have changed. -/
abbrev OfShards (P : World Disks → Prop) (w : World Disks) : Prop :=
  ∀ e : InMemoryEtcd, (∀ a, e.get a = w.store.get a) → P { w with store := e }

theorem OfShards.self (h : OfShards P w) : P w := h w.store fun _ => rfl

theorem OfShards.put (h : OfShards P w) (m : ShardMigration) : P (putMigration w m) :=
  h _ fun _ => rfl

theorem ofShards_begin {α : Type} {expected : MigrationState}
    {f : ShardMigration × Shard → Proc (World Disks) Exc α} (h : OfShards P w)
    (hok : ∀ m shard, Begun w id expected m shard → Proc.Sat (f (m, shard)) w P fun t _ => P t) :
    Proc.Sat (begin id expected >>= f) w P fun t _ => P t :=
  sat_bind_begin (fun _ => h.self) (fun _ _ _ _ _ => ⟨h.put _, h.put _⟩) hok

theorem prepare_nothing (h : OfShards P w) : Proc.Sat (prepare id) w P fun t _ => P t :=
  ofShards_begin h fun _ _ hb => (sat_advance (by rw [hb.state]; decide)).mpr ⟨h.put _, h.put _⟩

theorem verify_nothing (h : OfShards P w) :
    Proc.Sat (verify (shardTransferProvider X env) id) w P fun t _ => P t := by
  refine ofShards_begin h fun m shard hb => ?_
  have hput : ∀ m', P (putMigration (putMigration w (stepTo m .verifying)) m') :=
    fun _ => h _ fun _ => rfl
  refine sat_bind_advance (by rw [hb.state]; decide) (h.put _)
    (Proc.sat_bind_attempt (sat_verifyTarget fun r => ?_))
  rcases r with e | actual
  · cases e
    case migrationVerification =>
      exact sat_bind_failMigration (hput _) (Proc.sat_throw.mpr (hput _))
    all_goals exact Proc.sat_throw.mpr (h.put _)
  · exact sat_bind_inStore (hput _) (Proc.sat_pure.mpr (hput _))

theorem fail_nothing (h : OfShards P w) (error : String) :
    Proc.Sat (fail id error) w P fun t _ => P t := by
  refine Proc.sat_bind.mpr (sat_require.mpr ?_)
  split
  · exact h.self
  · show Proc.Sat (if _ then _ else _) w P fun t _ => P t
    split
    · exact Proc.sat_throw.mpr h.self
    · exact sat_failMigration.mpr ⟨h.put _, h.put _⟩

theorem createMigration_nothing (h : OfShards P w) (uuid4 ns shardId target : String) :
    Proc.Sat (mgr.createMigration uuid4 ns shardId target) w P fun t _ => P t :=
  Proc.sat_bind_get (Proc.sat_bind_ofExcept
    (fun _ _ => sat_bind_inStore (h.put _) (Proc.sat_pure.mpr (h.put _)))
    fun _ _ => h.self)

/-- The shard of the migration is the target's, and at most the source's directories have
changed. -/
structure MovedTo (w t : World Disks) (m : ShardMigration) (shard : Shard) : Prop where
  shards : ∀ a, t.store.get a = if a = m.shardId then some (moveShard shard m.targetNodeId)
    else w.store.get a
  disks : OnlyAt m.sourceNodeId m.shardId w.disks t.disks

theorem MovedTo.put {t : World Disks} {m : ShardMigration} {shard : Shard} (h : MovedTo w t m shard)
    {e : InMemoryEtcd} (he : ∀ a, e.get a = t.store.get a) :
    MovedTo w { t with store := e } m shard :=
  ⟨fun a => (he a).trans (h.shards a), h.disks⟩

theorem finishCommit_moves {m m' : ShardMigration} {shard moved : Shard} {t : World Disks}
    (h : MovedTo w t m shard) (hsame : SameMigration m m') (hstate : m'.state = .committing)
    (hid : moved.id = m.shardId) :
    Proc.Sat (finishCommit (shardTransferProvider X env) m' moved) t (MovedTo w · m shard)
      fun u _ => MovedTo w u m shard := by
  have hdest : MigrationState.completed ∈ m'.state.next := by
    rw [hstate]
    decide
  have hwrites : WritesAt ((shardTransferProvider X env).finalizeSource m'.sourceNodeId moved)
      m.sourceNodeId m.shardId
      w.disks t.disks := by
    rw [hsame.source]
    exact writesAt_removeTrees hid h.disks
  refine Proc.sat_bind_attempt
    (sat_inDisks.mpr (hwrites.mono (fun d hd => ⟨h.shards, hd⟩) fun d r hd => ?_))
  have hput : ∀ m', MovedTo w (putMigration { t with disks := d } m') m shard :=
    fun _ => ⟨h.shards, hd⟩
  rcases r with e | ⟨⟩
  · exact (sat_advance (m := { m' with error := _, finalized := false }) hdest).mpr ⟨hput _, hput _⟩
  · exact (sat_advance (m := { m' with finalized := true }) hdest).mpr ⟨hput _, hput _⟩

theorem commit_moves (h : OfShards P w)
    (hmoved : ∀ m shard, Begun w id .verifying m shard → ∀ t, MovedTo w t m shard → P t) :
    Proc.Sat (mgr.commit (shardTransferProvider X env) id) w P fun t _ => P t := by
  refine ofShards_begin h fun m shard hb => ?_
  refine Proc.sat_bind_get (Proc.sat_bind_ofExcept (fun _ _ => ?_) fun _ _ => h.self)
  have hid : shard.id = m.shardId := hb.shard_id
  have hP := hmoved m shard hb
  let e := (w.store.putMigration (stepTo m .committing)).setShard (moveShard shard m.targetNodeId)
  have hset : MovedTo w { w with store := e } m shard := by
    refine ⟨fun a => ?_, .refl _⟩
    rw [← hid]
    exact InMemoryEtcd.get_setShard
  refine sat_bind_advance (by rw [hb.state]; decide) (h.put _)
    (sat_bind_inStore (hP _ hset) (Proc.sat_bind_get ?_))
  dsimp only
  split
  · have hput : MovedTo w { w with store := e.put (moveShard shard m.targetNodeId) } m shard := by
      refine hset.put fun a => InMemoryEtcd.get_put.trans ?_
      split
      · rename_i ha
        exact (InMemoryEtcd.get_setShard.trans (if_pos ha)).symm
      · rfl
    have hmid : (moveShard shard m.targetNodeId).id = m.shardId := hid
    refine sat_bind_inStore (hP _ hput) ?_
    exact (finishCommit_moves hput (sameMigration_stepTo m .committing) rfl hmid).mono hP
      fun t _ => hP t
  · split
    · exact Proc.sat_throw.mpr (hP _ hset)
    · have hshard : (w.store.putMigration (stepTo m .committing)).get shard.id = some shard := by
        rw [hid]
        exact hb.get
      have hback : ∀ a, (e.setShard shard).get a = w.store.get a :=
        get_rollback hshard m.targetNodeId
      have hfailed : ∀ m', P (putMigration { w with store := e.setShard shard } m') :=
        fun _ => h _ hback
      exact sat_bind_inStore (h _ hback)
        (sat_bind_failMigration (hfailed _) (Proc.sat_throw.mpr (hfailed _)))

end ShardMigrationManager

end Vsector.Sharding
