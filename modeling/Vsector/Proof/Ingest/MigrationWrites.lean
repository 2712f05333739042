import Vsector.Proof.Ingest.ReadBack
import Vsector.Proof.Sharding.DeleteGate
import Vsector.Proof.Sharding.MigrationCrash
import Vsector.Proof.Sharding.OneMigration

/-!
# Writes beside a migration

The owner of a shard goes on taking writes while the shard is migrated, and
nothing of a migration changes with them (`movingStep`). As long as every
write that is taken while the copy is compared or waits for its commit leaves
the shard's log with the last operations it had, the target recovers the last
operation on every id once the migration is `COMPLETED` (`nothing_lost`). Any
other write of that time is left behind with the source's directories
(`late_write_lost`).
-/

namespace Vsector.Ingest

open Framework Models Storage Sharding Index ShardMigrationManager

variable {X : Externals} {ι : Type}

/-! ## What a recovery finds -/

/-- A recovery over the directories finds what the last operations leave, whatever the order of a
record's metadata. -/
def HoldsLast (X : Externals) (root : Root) (last : String → Option Op) : Prop :=
  ∃ log store result, recoverRoot X root = .ok (log, store, result) ∧
    (∀ r, r ∈ result.records.map VectorRecord.sorted ↔
      ∃ r', last (idOf r') = some (.upsert r') ∧ r'.sorted = r) ∧
    ∀ id, id ∈ result.deletedIds ↔ isDelete (last id) = true

section

variable {settings : Namespace} {ctx ctx' : ShardContext ι} {last : String → Option Op}
  {d d' : Disks} {m : ShardMigration}

/-- What a recovery over the directories of a context finds. -/
theorem Stored.found (h : Stored X settings ctx last) : ∃ log store result,
    recoverRoot X ctx.root = .ok (log, store, result) ∧ (∀ r, r ∈ result.records ↔
      last (idOf r) = some (.upsert r)) ∧
      ∀ id, id ∈ result.deletedIds ↔ isDelete (last id) = true := by
  obtain ⟨log, store, result, hrec, -, hfind, hn, hdeleted⟩ := h.logged.recover 10000
  have hdurable : ctx.root.wal = ctx.wal.durable := by
    simp only [ShardContext.root, Log.flush, show ctx.wal.buffer = [] from h.logged.buffer,
      List.append_nil]
  refine ⟨log, store, result, ?_, mem_recovered hn hfind, hdeleted⟩
  rw [recoverRoot, hdurable]
  exact hrec

theorem Stored.holdsLast (h : Stored X settings ctx last) : HoldsLast X ctx.root last := by
  obtain ⟨log, store, result, hrec, hrecords, hdeleted⟩ := h.found
  refine ⟨log, store, result, hrec, fun r => ?_, hdeleted⟩
  rw [List.mem_map]
  exact exists_congr fun r' => and_congr_left fun _ => hrecords r'

theorem Stored.finiteSource (h : Stored X settings ctx last)
    (hroot : d m.sourceNodeId m.shardId = ctx.root) :
    FiniteSource X d m := by
  obtain ⟨log, store, result, hrec, hrecords, -⟩ := h.found
  intro found hfound r hr
  rw [hroot, hrec] at hfound
  cases hfound
  exact h.logged.finite _ r ((hrecords r).mp hr)

/-- The copy is still the source's after a write that leaves the last operations as they are. -/
theorem Stored.sameRoots (h : Stored X settings ctx last) (h' : Stored X settings ctx' last)
    (hsame : SameRoots X d m) (hroot : d m.sourceNodeId m.shardId = ctx.root)
    (hroot' : d' m.sourceNodeId m.shardId = ctx'.root)
    (htarget : d' m.targetNodeId m.shardId = d m.targetNodeId m.shardId) : SameRoots X d' m := by
  obtain ⟨log, store, result, log₁, store₁, result₁, hs, ht, hperm, hdel⟩ := hsame
  obtain ⟨_, _, _, hrec, hrecords, hdeleted⟩ := h.found
  obtain ⟨log', store', result', hrec', hrecords', hdeleted'⟩ := h'.found
  rw [hroot, hrec] at hs
  cases hs
  obtain ⟨_, hfinds⟩ := ShardTransferProvider.finds_of_recoverRoot hrec
  obtain ⟨_, hfinds'⟩ := ShardTransferProvider.finds_of_recoverRoot hrec'
  have hrecordsPerm : result.records.Perm result'.records :=
    (List.perm_ext_iff_of_nodup hfinds.nodup.of_map hfinds'.nodup.of_map).mpr fun r =>
      (hrecords r).trans (hrecords' r).symm
  have hidsPerm : result'.deletedIds.Perm result.deletedIds :=
    (List.perm_ext_iff_of_nodup hfinds'.distinct hfinds.distinct).mpr fun id =>
      (hdeleted' id).trans (hdeleted id).symm
  have hids : result'.deletedIds = result.deletedIds :=
    hidsPerm.eq_of_pairwise' hfinds'.sorted hfinds.sorted
  refine ⟨log', store', result', log₁, store₁, result₁, ?_, ?_, hperm.trans (hrecordsPerm.map _),
    hdel.trans hids.symm⟩
  · rw [hroot']
    exact hrec'
  · rw [htarget]
    exact ht

/-- What the source restores, its copy does. -/
theorem HoldsLast.copied (h : HoldsLast X (d m.sourceNodeId m.shardId) last)
    (hsame : SameRoots X d m) :
    HoldsLast X (d m.targetNodeId m.shardId) last := by
  obtain ⟨log, store, result, hrec, hrecords, hdeleted⟩ := h
  obtain ⟨_, _, _, log', store', result', hs, ht, hperm, hdel⟩ := hsame
  rw [hrec] at hs
  cases hs
  have hsorted : (result'.records.map VectorRecord.sorted).Perm
      (result.records.map VectorRecord.sorted) := by
    have htwice : (result.records.map VectorRecord.sorted).map VectorRecord.sorted =
        result.records.map VectorRecord.sorted := by
      rw [List.map_map]
      exact List.map_congr_left fun r _ => VectorRecord.sorted_sorted r
    rw [← htwice]
    exact hperm.map _
  refine ⟨log', store', result', ht, fun r => (hsorted.mem_iff).trans (hrecords r), fun id => ?_⟩
  rw [hdel]
  exact hdeleted id

end

/-! ## Writes that change nothing -/

variable (X) in
/-- The log has the operation as the last on its id already. -/
def Restates (ctx : ShardContext ι) (op : ShardOp) : Prop :=
  ∀ o ∈ op.op?, lastOp X ctx.wal.durable o.id = some o

theorem Restates.lastOn_eq {ctx : ShardContext ι} {writes : List ShardOp} {op : ShardOp}
    (h : Restates X ctx op) (hlog : ∀ a, lastOp X ctx.wal.durable a = lastOn writes a) :
    lastOn (writes ++ [op]) = lastOn writes := by
  rcases hop : op.op? with _ | o
  · exact lastOn_append_none hop
  · rw [lastOn_append_some hop]
    funext a
    split
    · rename_i ha
      rw [← hlog, ← ha]
      exact (h o hop).symm
    · rfl

/-! ## The owner and the migration -/

/-- A shard's context on its owner, and the store and the directories that migrations work on. -/
structure Moving (ι : Type) where
  world : World Disks
  ctx : ShardContext ι

/-- What happens to the shard: an operation of its owner, with what a split meets, or a call of a
migration manager. -/
inductive MovingOp where
  | serve (op : ShardOp) (split : SplitEnv)
  | call (mgr : ShardMigrationManager) (env : Nat → FlushEnv) (step : MigrationStep)

/-- What the router asks of a shard before the node writes to it. -/
def takesWrites (e : InMemoryEtcd) (node shardId : String) : Option Shard :=
  (e.get shardId).filter fun shard => shard.state = .active ∧
    (ShardRouter.checkOwner shard.ns shard (some node)).isOk

/-- The store after an operation: an upsert sets the count of the shard, and may split it. -/
def countAndSplit (e : InMemoryEtcd) (shard : Shard) (count : Nat) (split : SplitEnv) :
    ShardOp → Option InMemoryEtcd
  | .upsert .. =>
    let shard := { shard with vectorCount := count }
    match (⟨e.setShard shard, none⟩ : ShardRouter).maybeSplit shard split with
    | (r, .ok ()) => some r.etcd
    | (_, .error _) => none
  | _ => some e

/-- The store's migrations are as they were, and so is the owner of the shard, if it still has
one. -/
theorem countAndSplit_eq_some {e e' : InMemoryEtcd} {shard : Shard} {count : Nat} {split : SplitEnv}
    {op : ShardOp} (hget : e.get shard.id = some shard)
    (h : countAndSplit e shard count split op = some e') :
    (∀ a, e'.getMigration a = e.getMigration a) ∧ (e.Synced → e'.Synced) ∧
      ∀ s, e'.get shard.id = some s → s.nodeId = shard.nodeId := by
  have hself : ∀ s, e.get shard.id = some s → s.nodeId = shard.nodeId := fun s hs => by
    cases hget.symm.trans hs
    rfl
  cases op with
  | upsert record env =>
    simp only [countAndSplit, ShardRouter.maybeSplit] at h
    by_cases hsplit : ¬ Shard.shouldSplit { shard with vectorCount := count } = true
    · simp only [if_pos hsplit] at h
      cases h
      refine ⟨fun _ => rfl, fun hs => hs, fun s hs => ?_⟩
      rw [InMemoryEtcd.get_setShard] at hs
      cases (if_pos rfl).symm.trans hs
      rfl
    · simp only [if_neg hsplit] at h
      rcases hfault : split.fault with _ | ⟨k, exc⟩
      · rw [hfault] at h
        cases h
        refine ⟨fun _ => rfl, fun _ d hd => ?_, fun s hs => ?_⟩
        · obtain ⟨d', -, rfl⟩ := Option.map_eq_some_iff.mp hd
          rfl
        · -- the parent is deleted last
          cases (Dict.get?_pop_self _ _).symm.trans hs
      · rw [hfault] at h
        cases h
  | delete id =>
    cases h
    exact ⟨fun _ => rfl, fun hs => hs, hself⟩
  | flush env =>
    cases h
    exact ⟨fun _ => rfl, fun hs => hs, hself⟩
  | restart =>
    cases h
    exact ⟨fun _ => rfl, fun hs => hs, hself⟩

theorem takesWrites_eq_some {e : InMemoryEtcd} {node shardId : String} {shard : Shard}
    (h : takesWrites e node shardId = some shard) :
    e.get shardId = some shard ∧ shard.nodeId = node := by
  obtain ⟨hget, htakes⟩ := Option.filter_eq_some_iff.mp h
  refine ⟨hget, ?_⟩
  simp only [decide_eq_true_eq] at htakes
  obtain ⟨-, howner⟩ := htakes
  unfold ShardRouter.checkOwner at howner
  rcases ho : shard.requireOwner with exc | owner
  · rw [ho] at howner
    cases howner
  · rw [ho] at howner
    have hnode := requireOwner_eq_ok ho
    subst hnode
    by_contra hne
    change (if shard.nodeId ≠ node then Except.error _ else Except.ok ()).isOk = true at howner
    rw [if_pos hne] at howner
    cases howner

section

variable {r : ShardRouter} {ns node recordId : String} {shard : Shard}

theorem takesWrites_of_checkOwner (hs : shard ∈ r.etcd.listByNamespace ns)
    (hactive : shard.state = .active)
    (howner : ShardRouter.checkOwner ns shard (some node) = .ok ()) :
    takesWrites r.etcd node shard.id = some shard := by
  obtain ⟨hget, rfl⟩ := InMemoryEtcd.mem_listByNamespace.mp hs
  refine Option.filter_eq_some_iff.mpr ⟨hget, decide_eq_true ⟨hactive, ?_⟩⟩
  rw [howner]
  rfl

/-- The shard that an upsert is routed to takes it. -/
theorem takesWrites_of_routeWrite (h : r.routeWrite X ns recordId (some node) = .ok shard) :
    takesWrites r.etcd node shard.id = some shard := by
  obtain ⟨-, hactive, -, howner⟩ := ShardRouter.routeWrite_ok_iff.mp h
  exact takesWrites_of_checkOwner (ShardRouter.routeWrite_mem h) hactive howner

/-- The shards that a delete goes to take it. -/
theorem takesWrites_of_writable {shards : List Shard} (h : r.writable ns (some node) = .ok shards)
    (hs : shard ∈ shards) :
    takesWrites r.etcd node shard.id = some shard := by
  rw [ShardRouter.writable_eq h] at hs
  obtain ⟨hactive, howner⟩ := ShardRouter.active_of_writable h hs
  exact takesWrites_of_checkOwner hs hactive howner

end

/-- The operations of the owner. -/
def served (ops : List MovingOp) : List ShardOp :=
  ops.filterMap fun
    | .serve op _ => some op
    | .call .. => none

/-! ## The invariant -/

variable (X) in
/-- The shard is with its first owner, whose directories have what it has written, until its
migration is completed; then it is with the target, which restores the same. -/
structure Carried (settings : Namespace) (node shardId id : String) (ops : List MovingOp)
    (s : Moving ι) : Prop where
  sound : Sound X s.world
  digested : Digested s.world.store
  stored : Stored X settings s.ctx (lastOn (served ops))
  ours : ∀ a m, s.world.store.getMigration a = some m → a = id ∧ m.shardId = shardId ∧
    m.sourceNodeId = node
  owner : Uncompleted s.world.store id → ∀ shard, s.world.store.get shardId = some shard →
    shard.nodeId = node
  root : Uncompleted s.world.store id → s.world.disks node shardId = s.ctx.root
  moved : ∀ m, s.world.store.getMigration id = some m → m.state = .completed →
    (∀ shard, s.world.store.get shardId = some shard → shard.nodeId = m.targetNodeId) ∧
      HoldsLast X (s.world.disks m.targetNodeId shardId) (lastOn (served ops))

section

variable {settings : Namespace} {node shardId id : String} {ops : List MovingOp} {s : Moving ι}
  {mgr : ShardMigrationManager} {env : Nat → FlushEnv} {step : MigrationStep}

/-- The migrations after a call are still those of the shard. -/
theorem Carried.ours_call (h : Carried X settings node shardId id ops s)
    (hopen : Uncompleted s.world.store id) (hstep : leadsOn id shardId step = true)
    (hf : isFresh s.world.store step = true) {a : String} {m : ShardMigration}
    (hm : (mgr.perform (shardTransferProvider X env) step s.world).final.store.getMigration
      a = some m) :
    a = id ∧ m.shardId = shardId ∧ m.sourceNodeId = node := by
  have htouch : Touches s.world.store id _
      (mgr.perform (shardTransferProvider X env) step s.world).final.store :=
    (touches_perform hopen hstep hf).2
  obtain rfl : a = id := by
    by_contra ha
    rw [htouch.others a ha] at hm
    exact ha (h.ours a m hm).1
  refine ⟨rfl, ?_⟩
  rcases hold : s.world.store.getMigration a with _ | m₀
  · -- there is none yet, so the call creates it from the owner of the shard
    have hnone : ∀ m₁, s.world.store.getMigration a = some m₁ → m₁.state.isTerminal = true :=
      fun m₁ hm₁ => by
      rw [hold] at hm₁
      cases hm₁
    obtain hsame | ⟨-, ns, target, rfl⟩ :=
      perform_ended (T := shardTransferProvider X env) mgr hstep hf hnone
    · rw [hsame, hold] at hm
      cases hm
    · obtain ⟨hshard, shard, hget, hnode⟩ := create_source hold m hm
      exact ⟨hshard, hnode ▸ h.owner hopen shard hget⟩
  · have hkeeps : Keeps s.world.store
        (mgr.perform (shardTransferProvider X env) step s.world).final.store :=
      (sat_perform_keeps mgr (shardTransferProvider X env) step hf).2
    obtain ⟨m', hm', hsame⟩ := hkeeps.migrations a m₀ hold
    cases hm.symm.trans hm'
    obtain ⟨-, hshard, hsource⟩ := h.ours a m₀ hold
    exact ⟨hsame.shard.trans hshard, hsame.source.trans hsource⟩

/-- The condition of a call that the copies are kept under. -/
theorem Carried.stepOk (h : Carried X settings node shardId id ops s)
    (hopen : Uncompleted s.world.store id) (step : MigrationStep) : StepOk X s.world step := by
  cases step with
  | verify a => exact fun m hm => h.digested a m hm
  | startCopy a =>
    intro m hm
    obtain ⟨rfl, rfl, rfl⟩ := h.ours a m hm
    exact h.stored.finiteSource (h.root hopen)
  | createMigration uuid4 ns s target => trivial
  | prepare a => trivial
  | commit a => trivial
  | cancel a => trivial
  | fail a error => trivial

/-- A call that does not commit the migration leaves the shard and its directories to the owner. -/
theorem Carried.stays (h : Carried X settings node shardId id ops s)
    (hopen : Uncompleted s.world.store id) (hstep : leadsOn id shardId step = true)
    (hno : ¬ (step = .commit id ∧
      (mgr.perform (shardTransferProvider X env) step s.world).result.isOk = true)) :
    let w := (mgr.perform (shardTransferProvider X env) step s.world).final
    (∀ shard, w.store.get shardId = some shard → shard.nodeId = node) ∧
    w.disks node shardId = s.ctx.root := by
  intro w
  have hmoves : MovesCopies X s.world step w := (moves_copies h.sound step).2
  have hshard : w.store.get shardId = s.world.store.get shardId := by
    by_contra hne
    obtain ⟨m, shard, ⟨a, rfl, -⟩, -⟩ := hmoves.shards shardId hne
    obtain rfl : a = id := by simpa [leadsOn] using hstep
    obtain ⟨e, hresult, hsame⟩ | ⟨m', shard', hresult, -⟩ :=
      commit_all_or_nothing mgr (shardTransferProvider X env) s.world a
    · exact hne (hsame shardId)
    · exact hno ⟨rfl, by rw [show (mgr.perform (shardTransferProvider X env) (.commit a)
        s.world).result = _ from hresult]; rfl⟩
  have howner : ∀ shard, w.store.get shardId = some shard → shard.nodeId = node := fun shard hs =>
    h.owner hopen shard (hshard ▸ hs)
  refine ⟨howner, ?_⟩
  by_contra hne
  have hdisks : w.disks node shardId ≠ s.world.disks node shardId :=
    fun he => hne (he.trans (h.root hopen))
  obtain ⟨m, -, ⟨⟨a, -, hm, -⟩, rfl, hmoved⟩ | ⟨rfl, hne, a, hm, -⟩⟩ :=
    hmoves.disks node shardId hdisks
  · obtain ⟨shard, hs, hnode⟩ := Option.map_eq_some_iff.mp hmoved
    exact h.sound.backed.target a m hm (hnode.symm.trans (howner shard hs))
  · exact hne (h.ours a m hm).2.2.symm

/-- A `commit` that returns gives the shard to a node that restores what its owner has written. -/
theorem Carried.commits (h : Carried X settings node shardId id ops s)
    (hopen : Uncompleted s.world.store id)
    (hok : (mgr.commit (shardTransferProvider X env) id s.world).result.isOk = true) :
    let w := (mgr.commit (shardTransferProvider X env) id s.world).final
    ∃ m, w.store.getMigration id = some m ∧ m.state = .completed ∧
      (∀ shard, w.store.get shardId = some shard → shard.nodeId = m.targetNodeId) ∧
        HoldsLast X (w.disks m.targetNodeId shardId) (lastOn (served ops)) := by
  intro w
  obtain ⟨e, hresult, -⟩ | ⟨m, shard, -, hc⟩ :=
    commit_all_or_nothing mgr (shardTransferProvider X env) s.world id
  · rw [hresult] at hok
    cases hok
  · have hmoves : MovesCopies X s.world (.commit id) w := (moves_copies h.sound (.commit id)).2
    obtain ⟨m₀, hm₀, hsame⟩ := hc.migration
    obtain ⟨-, hshard, hsource⟩ := h.ours id m₀ hm₀
    rw [← hshard, ← hsame.shard]
    refine ⟨m, hc.stored, hc.completed, fun s' hs' => ?_, ?_⟩
    · cases hs'.symm.trans hc.after
      rfl
    · -- the shard has changed, so the copy was whole
      have hchanged : w.store.get m.shardId ≠ s.world.store.get m.shardId := by
        rw [hc.before]
        intro he
        have hversion := congrArg Shard.version (Option.some.inj (hc.after.symm.trans he))
        exact Nat.succ_ne_self _ hversion
      obtain ⟨m₁, -, ⟨a, ha, hm₁, -, hroots⟩, -⟩ := hmoves.shards _ hchanged
      cases ha
      cases hm₀.symm.trans hm₁
      have hne : m₀.targetNodeId ≠ m₀.sourceNodeId := h.sound.backed.target id m₀ hm₀
      have htarget : w.disks m₀.targetNodeId m₀.shardId =
          s.world.disks m₀.targetNodeId m₀.shardId := by
        by_contra hd
        obtain ⟨m₂, -, ⟨⟨a, ha, hm₂, -⟩, hn, -⟩ | ⟨-, -, a, -, hs⟩⟩ := hmoves.disks _ _ hd
        · cases ha
          cases hm₀.symm.trans hm₂
          exact hne hn
        · obtain hs | hs := hs
          · cases hs
          · cases hs
      have hheld : HoldsLast X (s.world.disks m₀.sourceNodeId m₀.shardId)
          (lastOn (served ops)) := by
        rw [hsource, hshard, h.root hopen]
        exact h.stored.holdsLast
      rw [hsame.target, hsame.shard, htarget]
      exact hheld.copied hroots

end

/-! ## Runs -/

variable [BaseIndex ι]

section

variable (ctx : ShardContext ι)

/-- A request flushes the log once, after its records; a flush between two of them changes nothing
that it leaves. -/
theorem flushWal_applyUpsert (rec : VectorRecord) (payload : Text) (env : FlushEnv)
    (fault : Option (IndexFault ι)) :
    (ctx.flushWal.applyUpsert X rec payload env fault).map ShardContext.flushWal id =
      (ctx.applyUpsert X rec payload env fault).map ShardContext.flushWal id := by
  have hlog : ((ctx.wal.flush).append payload).flush = (ctx.wal.append payload).flush := by
    simp [Log.append, Log.flush]
  unfold ShardContext.applyUpsert ShardContext.indexRecord
  rcases hput : ctx.segments.put X rec env with ⟨segments, e | ⟨⟩⟩
  · simp [ShardContext.flushWal, hput, hlog]
  · rcases fault with _ | f
    · rcases hadd : BaseIndex.add ctx.index rec.id.text rec.vector rec.metadata with e | index
      · simp [ShardContext.flushWal, hput, hadd, hlog]
      · simp [ShardContext.flushWal, hput, hadd, hlog]
    · simp [ShardContext.flushWal, hput, hlog]

theorem flushWal_applyDelete (id : String) :
    (ctx.flushWal.applyDelete X id).map ShardContext.flushWal (fun r => r) =
      (ctx.applyDelete X id).map ShardContext.flushWal (fun r => r) := by
  unfold ShardContext.applyDelete
  rcases hget : ctx.segments.get X id with e | rec
  · simp [ShardContext.flushWal, hget, Log.flush]
  · simp [ShardContext.flushWal, hget, Log.append, Log.flush]

end

variable (X) in
/-- One operation on the shard `shardId` of `node`: one that its owner takes, with its log flushed,
or a call that leads the migration `id` of the shard on, whether or not it raises. -/
def movingStep (node shardId id : String) (s : Moving ι) : MovingOp → Option (Moving ι)
  | .serve op split =>
    match takesWrites s.world.store node shardId, shardStep X s.ctx op with
    | some shard, some ctx =>
      (countAndSplit s.world.store shard ctx.shard.vectorCount split op).map fun store =>
        ⟨⟨store, s.world.disks.set node shardId ctx.root⟩, ctx⟩
    | _, _ => none
  | .call mgr env step =>
    if leadsOn id shardId step ∧ isFresh s.world.store step then
      some { s with world := (mgr.perform (shardTransferProvider X env) step s.world).final }
    else none

variable (X) in
/-- Once the migration is completed, its target and the log of the source restore the last
operation on every id. -/
def NothingLost (node shardId id : String) (s₀ : Moving ι) (ops : List MovingOp) : Prop :=
  ∀ s m, run (movingStep X node shardId id) s₀ ops = some s →
    s.world.store.getMigration id = some m →
    m.state = .completed →
      HoldsLast X s.ctx.root (lastOn (served ops)) ∧
      HoldsLast X (s.world.disks m.targetNodeId shardId) (lastOn (served ops))

/-- The shard was copied, and its migration has not ended. -/
def UnderCopy (e : InMemoryEtcd) (id : String) : Prop :=
  ∃ m, e.getMigration id = some m ∧ (m.state = .copying ∨ m.state = .verifying)

variable (X) in
/-- The condition on an operation: a record is accepted and finite, and during the copy nothing new
is written. -/
def MovingOk (settings : Namespace) (id : String) (s : Moving ι) : MovingOp → Prop
  | .serve op _ =>
    AcceptedOp X settings s.ctx op ∧ (UnderCopy s.world.store id → Restates X s.ctx op)
  | .call .. => True

section

variable {settings : Namespace} {node shardId id : String} {ops : List MovingOp} {s t : Moving ι}
  {mgr : ShardMigrationManager} {env : Nat → FlushEnv} {step : MigrationStep}

/-- An operation that the owner takes, before the migration is completed. -/
theorem Carried.serve [LawfulIndex ι] (hX : X.Lawful) (h : Carried X settings node shardId id ops s)
    {op : ShardOp} {split : SplitEnv} (hok : MovingOk X settings id s (.serve op split))
    (hs : movingStep X node shardId id s (.serve op split) = some t) :
    Carried X settings node shardId id (ops ++ [.serve op split]) t := by
  have hserved : served (ops ++ [.serve op split]) = served ops ++ [op] := List.filterMap_append
  simp only [movingStep] at hs
  split at hs
  · rename_i shard ctx htakes hctx
    obtain ⟨store, hstore, rfl⟩ := Option.map_eq_some_iff.mp hs
    obtain ⟨hget, hnode⟩ := takesWrites_eq_some htakes
    have hid : shard.id = shardId := InMemoryEtcd.shard_id hget
    obtain ⟨hmigrations, hsynced, howner⟩ := countAndSplit_eq_some (hid.symm ▸ hget) hstore
    have hopen : Uncompleted s.world.store id := by
      intro m hm hc
      have htarget := (h.moved m hm hc).1 shard hget
      refine h.sound.backed.target id m hm ?_
      rw [← htarget, hnode, (h.ours id m hm).2.2]
    have hstored := stored_step hX h.stored hok.1 hctx
    constructor
    case sound =>
      refine ⟨⟨fun a b m m' hm hm' => ?_, fun a m hm => ?_, fun a m hm => ?_, fun a m hm hc =>
        ?_⟩, hsynced h.sound.synced⟩
      · rw [hmigrations] at hm hm'
        exact h.sound.backed.oneOpen a b m m' hm hm'
      · rw [hmigrations] at hm
        exact h.sound.backed.target a m hm
      · rw [hmigrations] at hm
        exact h.sound.backed.digest a m hm
      · rw [hmigrations] at hm
        obtain ⟨rfl, rfl, rfl⟩ := h.ours a m hm
        have hcopy : UnderCopy s.world.store a := by
          refine ⟨m, hm, ?_⟩
          obtain hv | ⟨hc, -⟩ := hc
          · exact .inr hv
          · exact .inl hc
        have hlast := (hok.2 hcopy).lastOn_eq h.stored.logged.log
        rw [hlast] at hstored
        have hne := h.sound.backed.target a m hm
        exact h.stored.sameRoots hstored (h.sound.backed.copied a m hm hc) (h.root hopen)
          (if_pos ⟨rfl, rfl⟩)
          (if_neg fun hn => hne hn.1)
    case digested =>
      intro a m hm
      rw [hmigrations] at hm
      exact h.digested a m hm
    case stored => rwa [hserved]
    case ours =>
      intro a m hm
      rw [hmigrations] at hm
      exact h.ours a m hm
    case owner =>
      intro _ s' hs'
      rw [← hid] at hs'
      rw [howner s' hs', hnode]
    case root => exact fun _ => if_pos ⟨rfl, rfl⟩
    case moved =>
      intro m hm hc
      rw [hmigrations] at hm
      exact absurd hc (hopen m hm)
  · cases hs

/-- A call that leads the migration on. -/
theorem Carried.call (hX : X.Lawful) (hB : X.ByName) (h : Carried X settings node shardId id ops s)
    (hs : movingStep X node shardId id s (.call mgr env step) = some t) :
    Carried X settings node shardId id (ops ++ [.call mgr env step]) t := by
  have hserved : served (ops ++ [.call mgr env step]) = served ops := by
    rw [served, List.filterMap_append]
    exact List.append_nil _
  rw [movingStep] at hs
  split at hs
  · rename_i hcall
    obtain ⟨hstep, hf⟩ := hcall
    cases hs
    by_cases hended : ∃ m, s.world.store.getMigration id = some m ∧ m.state.isTerminal = true
    · obtain ⟨m, hm, ht⟩ := hended
      have hfinal : (mgr.perform (shardTransferProvider X env) step s.world).final = s.world := by
        have hterminal : ∀ m', s.world.store.getMigration id = some m' →
            m'.state.isTerminal = true := fun m' hm' => by
          cases hm.symm.trans hm'
          exact ht
        obtain hsame | ⟨hnone, -⟩ :=
          perform_ended (T := shardTransferProvider X env) mgr hstep hf hterminal
        · exact hsame
        · rw [hnone] at hm
          cases hm
      rw [hfinal]
      exact ⟨h.sound, h.digested,
        by rw [hserved]; exact h.stored, h.ours, h.owner, h.root, by rw [hserved]; exact h.moved⟩
    · have hopen : Uncompleted s.world.store id := fun m hm hc => hended ⟨m, hm, by rw [hc]; rfl⟩
      let w := (mgr.perform (shardTransferProvider X env) step s.world).final
      have hsound : Sound X w := (keeps_perform hX hB h.sound step hf (h.stepOk hopen step)).2
      have hours : ∀ a m, w.store.getMigration a = some m → a = id ∧ m.shardId = shardId ∧
          m.sourceNodeId = node :=
        fun a m hm => h.ours_call hopen hstep hf hm
      by_cases hdone : step = .commit id ∧
        (mgr.perform (shardTransferProvider X env) step s.world).result.isOk = true
      · obtain ⟨rfl, hok⟩ := hdone
        obtain ⟨m, hm, hc, hmoved⟩ := h.commits hopen hok
        have hclosed : ¬ Uncompleted
            (mgr.commit (shardTransferProvider X env) id s.world).final.store id :=
          fun hu => hu m hm hc
        refine ⟨hsound, digested_perform h.digested _, by rw [hserved]; exact h.stored, hours,
          fun hu => absurd hu hclosed, fun hu => absurd hu hclosed, fun m' hm' _ => ?_⟩
        cases hm.symm.trans hm'
        rw [hserved]
        exact hmoved
      · obtain ⟨howner, hroot⟩ := h.stays hopen hstep hdone
        have hnone : Uncompleted w.store id := (touches_perform hopen hstep hf).2.own hdone
        exact ⟨hsound, digested_perform h.digested _,
          by rw [hserved]; exact h.stored, hours, fun _ => howner,
          fun _ => hroot, fun m hm hc => absurd hc (hnone m hm)⟩
  · cases hs

/-- A shard that is new on its node, before any migration. -/
structure NewShard (node shardId : String) (file : EtcdData) (disks : Disks) : Prop where
  migrations : file.migrations = ∅
  owner : ∀ shard, file.shards.get? shardId = some shard → shard.nodeId = node
  root : disks node shardId = ∅

/-- The context of a new shard, beside the store and the directories of all nodes. -/
def Moving.new (file : EtcdData) (disks : Disks) (shard : Shard) (settings : Namespace)
    (threshold : Nat) : Moving ι :=
  ⟨⟨.init (some file), disks⟩, .fresh shard settings threshold⟩

theorem carried_new {file : EtcdData} {disks : Disks} (hnew : NewShard node shardId file disks)
    (shard : Shard) (threshold : Nat) :
    Carried X settings node shardId id []
      (.new file disks shard settings threshold : Moving ι) := by
  have hnone : ∀ a, (InMemoryEtcd.init (some file)).getMigration a = none := by
    intro a
    show file.migrations.get? a = none
    rw [hnew.migrations]
    rfl
  have hno : ∀ {p : Prop} {a m}, (InMemoryEtcd.init (some file)).getMigration a = some m →
      p := fun hm => by
    rw [hnone] at hm
    cases hm
  exact ⟨⟨⟨fun _ _ _ _ hm => hno hm, fun _ _ hm => hno hm, fun _ _ hm =>
    hno hm, fun _ _ hm => hno hm⟩,
    fun d hd => by cases hd; rfl⟩, fun _ _ hm => hno hm, stored_fresh shard settings threshold,
      fun _ _ hm => hno hm,
    fun _ => hnew.owner, fun _ => hnew.root, fun _ hm => hno hm⟩

theorem carried_step [LawfulIndex ι] (hX : X.Lawful) (hB : X.ByName) {op : MovingOp}
    (h : Carried X settings node shardId id ops s) (hok : MovingOk X settings id s op)
    (hs : movingStep X node shardId id s op = some t) :
    Carried X settings node shardId id (ops ++ [op]) t := by
  cases op with
  | serve op split => exact h.serve hX hok hs
  | call mgr env step => exact h.call hX hB hs

/-- In every run of a new shard's owner beside a migration of the shard, in which the records that
are written are finite and nothing new is written between the copy and the commit: once the
migration is completed, its target restores the last operation on every id that the owner has
taken. -/
theorem nothing_lost [LawfulIndex ι] (hX : X.Lawful) (hB : X.ByName) {file : EtcdData}
    {disks : Disks} (hnew : NewShard node shardId file disks) (shard : Shard) (threshold : Nat)
    (hok : Along (movingStep X node shardId id) (MovingOk X settings id)
      (.new file disks shard settings threshold : Moving ι) ops) :
    NothingLost X node shardId id (.new file disks shard settings threshold : Moving ι) ops := by
  intro s m hrun hm hc
  have hcarried : Carried X settings node shardId id ops s :=
    invariant_history (I := fun ops s => Carried X settings node shardId id ops s)
      (fun _ _ _ _ h hc hs => carried_step hX hB h hc hs)
        (carried_new hnew shard threshold) hok hrun
  exact ⟨hcarried.stored.holdsLast, (hcarried.moved m hm hc).2⟩

end

section

private def movedDocs : Namespace := ⟨"docs", 1, .cosine, .flat, 1⟩

private def movedShard : Shard := ⟨"s", "docs", "n0", .active, 0, 50000000, [], 1⟩

private def movedFile : EtcdData :=
  { (∅ : EtcdData).setShard movedShard with
    nodes := (Dict.set ∅ "n0" ⟨"n0", "c", .active, 1⟩).set "n1" ⟨"n1", "c", .active, 1⟩ }

/-- A new shard on the first of two nodes. -/
private def onFirst : Moving FlatIndex := .new movedFile (fun _ _ => ∅) movedShard movedDocs 100000

private theorem onFirst_new : NewShard "n0" "s" movedFile fun _ _ => ∅ := by
  refine ⟨rfl, fun shard hs => ?_, rfl⟩
  cases hs
  rfl

private def written (op : ShardOp) : MovingOp := .serve op ⟨"a", "b", none⟩

private def led (step : MigrationStep) : MovingOp := .call ⟨⟨"c"⟩, "c"⟩ (fun n => ⟨n, 1, none⟩) step

private def copied : List MovingOp :=
  [.createMigration "m" "docs" "s" "n1", .prepare "m", .startCopy "m"].map led

private def movedRecord : VectorRecord := { unitRecord zeroId [] with sourceSystem := "unknown" }

private def deletedFirst : List MovingOp :=
  written (.delete "gone") :: copied ++ [.verify "m", .commit "m"].map led

private def writtenLate : List MovingOp :=
  copied ++ written (.upsert movedRecord ⟨1, 1, none⟩) :: [.verify "m", .commit "m"].map led

private abbrev stepOnFirst : Moving FlatIndex → MovingOp → Option (Moving FlatIndex) :=
  movingStep named "n0" "s" "m"

private theorem accepted_moved : Accepted named movedDocs movedRecord :=
  ⟨"docs", [("id", .str zeroId.text), ("vector", .arr [.int 1])],
    "2026-01-01T00:00:00Z", zeroId, rfl⟩

private def afterRun (ops : List MovingOp) (h : (run stepOnFirst onFirst ops).isSome) :
    Moving FlatIndex :=
  (run stepOnFirst onFirst ops).get h

/-- The state and the target of the migration. -/
private def outcome (s : Moving FlatIndex) : Option (MigrationState × String) :=
  (s.world.store.getMigration "m").map fun m => (m.state, m.targetNodeId)

/-- A deletion before the copy. -/
theorem nothing_lost_deleted_first :
    (∃ s, run stepOnFirst onFirst deletedFirst = some s ∧ outcome s = some (.completed, "n1")) ∧
      NothingLost named "n0" "s" "m" onFirst deletedFirst := by
  refine ⟨⟨afterRun deletedFirst (by decide +kernel), (Option.some_get _).symm,
    by decide +kernel⟩, ?_⟩
  have hok : Along stepOnFirst (MovingOk named movedDocs "m") onFirst deletedFirst :=
    ⟨⟨trivial, fun ⟨_, hm, _⟩ => by cases hm⟩,
      fun _ _ => ⟨trivial, fun _ _ => ⟨trivial, fun _ _ => ⟨trivial, fun _ _ =>
      ⟨trivial, fun _ _ => ⟨trivial, fun _ _ => trivial⟩⟩⟩⟩⟩⟩
  exact nothing_lost named_lawful named_byName onFirst_new movedShard 100000 hok

/-- A record that is accepted once the shard is copied is not on the node that the shard is given
to. -/
theorem late_write_lost : Accepted named movedDocs movedRecord ∧ movedRecord.Finite ∧
    ¬ NothingLost named "n0" "s" "m" onFirst writtenLate := by
  refine ⟨accepted_moved, by decide, fun h => ?_⟩
  let s := afterRun writtenLate (by decide +kernel)
  have hrun : run stepOnFirst onFirst writtenLate = some s := (Option.some_get _).symm
  have houtcome : outcome s = some (.completed, "n1") := by decide +kernel
  obtain ⟨m, hm, hm'⟩ := Option.map_eq_some_iff.mp houtcome
  obtain ⟨hstate, htarget⟩ := Prod.mk.inj hm'
  obtain ⟨-, log, store, result, hrec, hrecords, -⟩ := h s m hrun hm hstate
  have hfound : (recoverRoot named (s.world.disks "n1" "s")).toOption.map
      (fun found => found.2.2.records.length) = some 0 := by
    decide +kernel
  rw [htarget] at hrec
  rw [hrec] at hfound
  have hnone : result.records = [] := List.length_eq_zero_iff.mp (Option.some.inj hfound)
  have hlast : lastOn (served writtenLate) (idOf movedRecord) = some (.upsert movedRecord) := by
    have happend := @lastOn_append_some [] (.upsert movedRecord ⟨1, 1, none⟩) _ rfl
    exact (congrFun happend (idOf movedRecord)).trans (if_pos rfl)
  have hmem := (hrecords movedRecord.sorted).mpr ⟨movedRecord, hlast, rfl⟩
  rw [hnone] at hmem
  cases hmem

end

end Vsector.Ingest
