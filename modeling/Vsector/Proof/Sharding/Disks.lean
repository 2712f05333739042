import Vsector.Impl.Sharding.Transfer
import Vsector.Proof.Sharding.MigrationSteps

/-!
# What the provider writes

Each call of the provider changes the directories of one shard on one node,
at every point it may be cut off at (`OnlyAt`, `WritesAt`).
-/

namespace Vsector.Sharding

open Framework Models

/-- The directories are the same but for one shard on one node. -/
def OnlyAt (node shardId : String) (d d' : Disks) : Prop :=
  ∀ n s, ¬ (n = node ∧ s = shardId) → d' n s = d n s

section

variable {X : Externals} {node shardId : String} {d₀ d : Disks}

theorem OnlyAt.refl (d : Disks) : OnlyAt node shardId d d := fun _ _ _ => rfl

theorem OnlyAt.set (h : OnlyAt node shardId d₀ d) (root : Ingest.Root) :
    OnlyAt node shardId d₀ (d.set node shardId root) :=
  fun n s hns => (if_neg hns).trans (h n s hns)

/-- `p` changes one shard on one node only. -/
abbrev WritesAt {α : Type} (p : Proc Disks Exc α) (node shardId : String) (d₀ d : Disks) : Prop :=
  Proc.Sat p d (OnlyAt node shardId d₀) fun t _ => OnlyAt node shardId d₀ t

theorem writesAt_writeRoot (c : ImportState) (h : OnlyAt node shardId d₀ d) :
    WritesAt (writeRoot node shardId c) node shardId d₀ d := by
  refine ⟨fun t ht => ?_, h.set _⟩
  obtain ⟨root, -, rfl⟩ := List.mem_map.mp ht
  exact h.set root

theorem writesAt_closeWith (c : ImportState) (e : Exc) (h : OnlyAt node shardId d₀ d) :
    WritesAt (closeWith node shardId c e) node shardId d₀ d :=
  (writesAt_writeRoot _ h).bind (fun _ _ ht => Proc.sat_throw.mpr ht) fun _ _ ht => ht

theorem writesAt_writePart (env : Storage.FlushEnv) (c : ImportState)
    (h : OnlyAt node shardId d₀ d) :
    WritesAt (writePart X env node shardId c) node shardId d₀ d := by
  refine ⟨fun t ht => ?_, h⟩
  obtain ⟨root, -, rfl⟩ := List.mem_map.mp ht
  exact h.set root

theorem writesAt_recordPart (env : Storage.FlushEnv) (c : ImportState) (rd : Json)
    (h : OnlyAt node shardId d₀ d) :
    WritesAt (recordPart X env node shardId c rd) node shardId d₀ d := by
  unfold recordPart
  split
  · exact Proc.sat_pure.mpr h
  · dsimp only
    split
    · exact writesAt_writePart env _ h
    · exact Proc.sat_pure.mpr h

theorem writesAt_finishImport (env : Storage.FlushEnv) (deleted : List String) (c : ImportState)
    (h : OnlyAt node shardId d₀ d) :
    WritesAt (finishImport X env node shardId deleted c) node shardId d₀ d := by
  refine (writesAt_writeRoot _ h).bind (fun t _ ht => ?_) fun _ _ ht => ht
  refine (writesAt_writePart env _ ht).bind (fun t _ ht => ?_) fun _ _ ht => ht
  split
  · exact (writesAt_writeRoot _ ht).bind (fun _ _ ht => writesAt_closeWith _ _ ht) fun _ _ ht => ht
  · exact (writesAt_writeRoot _ ht).bind (fun _ _ ht => writesAt_writeRoot _ ht) fun _ _ ht => ht

theorem writesAt_importRecords (env : Nat → Storage.FlushEnv) (deleted : List String)
    (rds : List Json) (c : ImportState) (h : OnlyAt node shardId d₀ d) :
    WritesAt (importRecords X env node shardId deleted rds c) node shardId d₀ d := by
  induction rds generalizing c d with
  | nil => exact writesAt_finishImport (env 0) deleted c h
  | cons rd rds ih =>
    unfold importRecords
    refine (writesAt_recordPart _ c rd h).bind (fun t _ ht => ?_) fun _ _ ht => ht
    split
    · exact (writesAt_writeRoot _ ht).bind (fun _ _ ht => writesAt_closeWith _ _ ht)
        fun _ _ ht => ht
    · exact (writesAt_writeRoot _ ht).bind (fun _ _ ht => ih _ ht) fun _ _ ht => ht

theorem writesAt_removeTrees {shard : Shard} (hid : shard.id = shardId)
    (h : OnlyAt node shardId d₀ d) :
    WritesAt (ShardTransferProvider.removeTrees node shard) node shardId d₀ d := by
  subst hid
  exact Proc.sat_bind_change (h.set _) (Proc.sat_change.mpr ⟨(h.set _).set _, (h.set _).set _⟩)

theorem writesAt_importShard (env : Nat → Storage.FlushEnv) {shard : Shard} (data : ShardExport)
    (hid : shard.id = shardId) (h : OnlyAt node shardId d₀ d) :
    WritesAt (ShardTransferProvider.importShard X env node shard data) node shardId d₀ d := by
  refine (writesAt_removeTrees hid h).bind (fun _ _ ht => ?_) fun _ _ ht => ht
  rw [hid]
  exact writesAt_importRecords env _ _ _ ht

/-- Reading a directory changes nothing. -/
theorem writesAt_exportShard (source : String) (shard : Shard) (h : OnlyAt node shardId d₀ d) :
    WritesAt (ShardTransferProvider.exportShard X source shard) node shardId d₀ d := by
  refine Proc.sat_bind_get ?_
  split
  · exact Proc.sat_throw.mpr h
  · exact Proc.sat_pure.mpr h

theorem sat_verifyShard {C : Disks → Prop} {Q : Disks → Except Exc String → Prop} {target : String}
    {shard : Shard} {expected : Option String} (h : ∀ r, Q d r) :
    Proc.Sat (ShardTransferProvider.verifyShard X target shard expected) d C Q := by
  refine Proc.sat_bind_get ?_
  split
  · exact Proc.sat_throw.mpr (h _)
  · split
    · exact Proc.sat_pure.mpr (h _)
    · split
      · exact Proc.sat_throw.mpr (h _)
      · exact Proc.sat_pure.mpr (h _)

theorem writesAt_verifyShard (target : String) (shard : Shard) (expected : Option String)
    (h : OnlyAt node shardId d₀ d) :
    WritesAt (ShardTransferProvider.verifyShard X target shard expected) node shardId d₀ d :=
      sat_verifyShard fun _ => h

namespace ShardMigrationManager

variable {env : Nat → Storage.FlushEnv} {w t : World Disks}

theorem sat_verifyTarget {C : World Disks → Prop} {Q : World Disks → Except Exc String → Prop}
    {target : String} {shard : Shard} {expected : Option String} (h : ∀ r, Q w r) :
    Proc.Sat (inDisks (ShardTransferProvider.verifyShard X target shard expected)) w C Q :=
  sat_inDisks.mpr (sat_verifyShard h)

/-- The shards are the same, and the directories but for one shard on one node. -/
structure Beside (node shardId : String) (w t : World Disks) : Prop where
  shards : ∀ a, t.store.get a = w.store.get a
  disks : OnlyAt node shardId w.disks t.disks

abbrev SatBeside {α : Type} (node shardId : String) (w : World Disks) (p : Proc (World Disks) Exc α)
    (t : World Disks) : Prop :=
  Proc.Sat p t (Beside node shardId w) fun u _ => Beside node shardId w u

theorem Beside.put (h : Beside node shardId w t) {e : InMemoryEtcd}
    (he : ∀ a, e.get a = t.store.get a) :
    Beside node shardId w { t with store := e } := ⟨fun a => (he a).trans (h.shards a), h.disks⟩

theorem beside_bind_inDisks {α β : Type} {p : Proc Disks Exc α} {f : α → Proc (World Disks) Exc β}
    (h : Beside node shardId w t) (hp : WritesAt p node shardId w.disks t.disks)
    (hf : ∀ d a, Beside node shardId w { t with disks := d } → SatBeside node shardId w (f a)
      { t with disks := d }) :
    SatBeside node shardId w (inDisks p >>= f) t :=
  sat_bind_inDisks (hp.mono (fun _ hd => ⟨h.shards, hd⟩) fun _ _ hd => hd)
    (fun d a hd => hf d a ⟨h.shards, hd⟩)
    fun _ _ hd => ⟨h.shards, hd⟩

theorem beside_copyData {m : ShardMigration} {shard : Shard} (hid : shard.id = m.shardId)
    (h : Beside m.targetNodeId m.shardId w t) :
    SatBeside m.targetNodeId m.shardId w (copyData (shardTransferProvider X env) m shard) t := by
  refine beside_bind_inDisks h (writesAt_exportShard _ _ h.disks) fun d data h => ?_
  refine beside_bind_inDisks h (writesAt_importShard env data hid h.disks) fun d _ h => ?_
  have hset := h.put (e := t.store.setMigration { m with sourceDigest := some data.digest })
    fun _ => rfl
  refine sat_bind_inStore hset (beside_bind_inDisks hset (writesAt_verifyShard _ _ _ h.disks)
    fun d _ h => ?_)
  exact sat_bind_inStore (h.put fun _ => rfl) (Proc.sat_pure.mpr (h.put fun _ => rfl))

section

variable {id : String} {P : World Disks → Prop}

/-- What `start_copy` does, once it has begun with `m`: it changes the disks at its target. -/
theorem startCopy_beside (hstore : ∀ e, (∀ a, e.get a = w.store.get a) → P { w with store := e })
    (htarget : ∀ m shard, Begun w id .preparing m shard →
      ∀ t, Beside m.targetNodeId m.shardId w t → P t) :
    Proc.Sat (startCopy (shardTransferProvider X env) id) w P fun t _ => P t := by
  have hput : ∀ m, P (putMigration w m) := fun _ => hstore _ fun _ => rfl
  refine sat_bind_begin (fun _ => hstore _ fun _ => rfl) (fun _ _ _ _ _ => ⟨hput _, hput _⟩)
    fun m shard hb => ?_
  have hP := htarget m shard hb
  refine sat_bind_advance (by rw [hb.state]; decide) (hput _) (Proc.sat_bind_attempt ?_)
  have hcopying : Beside m.targetNodeId m.shardId w (putMigration w (stepTo m .copying)) :=
    ⟨fun _ => rfl, .refl _⟩
  refine (beside_copyData (m := stepTo m .copying) hb.shard_id hcopying).mono (fun _ ht => hP _ ht)
    fun t r ht => ?_
  rcases r with exc | a
  · have hfailed : ∀ m', P (putMigration t m') := fun _ => hP _ ⟨ht.shards, ht.disks⟩
    refine Proc.sat_bind_get ?_
    cases exc
    all_goals exact sat_bind_failMigration (hfailed _) (Proc.sat_throw.mpr (hfailed _))
  · exact Proc.sat_pure.mpr (hP _ ht)

/-- What `cancel` does: it changes the disks at the target of a copy that is under way. -/
theorem cancel_beside (hstore : ∀ e, (∀ a, e.get a = w.store.get a) → P { w with store := e })
    (htarget : ∀ m, w.store.getMigration id = some m → m.state = .copying ∨ m.state = .verifying →
      ∀ t, Beside m.targetNodeId m.shardId w t → P t) :
    Proc.Sat (cancel (shardTransferProvider X env) id) w P fun t _ => P t := by
  have hself : P w := hstore w.store fun _ => rfl
  refine Proc.sat_bind.mpr (sat_require.mpr ?_)
  split
  · exact hself
  · rename_i m hm
    show Proc.Sat (if _ then _ else _) w P fun t _ => P t
    split
    · exact Proc.sat_throw.mpr hself
    · rename_i hc
      have hdest : MigrationState.cancelled ∈ m.state.next :=
        mem_next_of_cancelable (by simpa using hc)
      have hput : P (putMigration w (stepTo m .cancelled)) := hstore _ fun _ => rfl
      refine Proc.Sat.bind (Q := fun t _ => P t ∧ P (putMigration t (stepTo m .cancelled))) ?_
        (fun t _ ht => (sat_advance hdest).mpr ⟨ht.2, ht.2⟩) fun _ _ ht => ht.1
      refine Proc.sat_bind_get ?_
      split
      · exact Proc.sat_pure.mpr ⟨hself, hput⟩
      · rename_i shard hshard
        split
        · rename_i hstate
          have hP := htarget m hm hstate
          refine Proc.sat_bind_attempt (sat_inDisks.mpr ?_)
          refine (writesAt_removeTrees (InMemoryEtcd.shard_id hshard) (.refl _)).mono
            (fun d hd => hP _ ⟨fun _ => rfl, hd⟩)
            fun d r hd => Proc.sat_pure.mpr ⟨hP _ ⟨fun _ => rfl, hd⟩, hP _ ⟨fun _ => rfl, hd⟩⟩
        · exact Proc.sat_pure.mpr ⟨hself, hput⟩

end

end ShardMigrationManager

end

end Vsector.Sharding
