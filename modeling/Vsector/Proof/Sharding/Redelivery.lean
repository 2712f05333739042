import Vsector.Impl.Index.Hnsw
import Vsector.Impl.Index.IvfPq
import Vsector.Impl.Index.Scann
import Vsector.Proof.Ingest.Spellings
import Vsector.Proof.Sharding.Replication
import Vsector.Proof.Storage.Filling

/-!
# Redelivery to a replica

An upsert that is delivered again is dropped, since the record is found with
its version and checksum, in the memtable or in the table that was just
written (`Applied`). A delete is never dropped, but all it does twice is to
be logged: a recovery reads one entry more, and is otherwise the same
(`redelivery_idempotent`). Where the memtable could not be written, the
record is lost with it, and the upsert is applied the second time
(`redelivery_shows`).
-/

namespace Vsector.Index

/-! ## Engines -/

/-- An id that is deleted from an index can be deleted again, which changes nothing. -/
class ForgetsOnce (ι : Type) [BaseIndex ι] : Prop where
  delete_delete : ∀ (i : ι) id, BaseIndex.delete (BaseIndex.delete i id) id = BaseIndex.delete i id

theorem FlatIndex.delete_delete (i : FlatIndex) (id : String) :
    (i.delete id).delete id = i.delete id := by
  simp only [delete, List.filter_filter, Bool.and_self]

instance : ForgetsOnce FlatIndex := ⟨FlatIndex.delete_delete⟩

theorem ScaNNIndex.delete_delete (i : ScaNNIndex) (id : String) :
    (i.delete id).delete id = i.delete id := by
  simp only [delete, FlatIndex.delete_delete]

theorem HNSWIndex.delete_delete {ν δ : Type} [One δ] [Sub δ] [Neg δ] (H : Hnswlib ν δ)
    (i : HNSWIndex ν) (id : String) :
    (i.delete H [id]).delete H [id] = i.delete H [id] := by
  simp only [delete, List.foldl_cons, List.foldl_nil]
  rcases hlabel : i.idToLabel.get? id with _ | label
  · have hnone : i.deleteId H id = i := by rw [deleteId, hlabel]
    rw [hnone, hnone]
  · rw [deleteId, show (i.deleteId H id).idToLabel.get? id =
      none by simp only [deleteId, hlabel, Framework.Dict.get?_pop_self]]

theorem IVFPQIndex.delete_delete {ν : Type} (i : IVFPQIndex ν) (id : String) :
    (i.delete [id]).delete [id] = i.delete [id] := by
  by_cases hids : i.ids ≠ []
  · have hone : i.delete [id] = i.deleteId id := if_pos hids
    rcases hidx : i.idToIdx.get? id with _ | idx
    · have hnone : i.deleteId id = i := by rw [deleteId, hidx]
      rw [hone, hnone, hone, hnone]
    · have hids' : (i.deleteId id).ids = i.ids := by simp only [deleteId, hidx]
      rw [hone, delete, if_pos (hids'.symm ▸ hids), List.foldl_cons, List.foldl_nil, deleteId,
        show (i.deleteId id).idToIdx.get? id = none by
          simp only [deleteId, hidx, Framework.Dict.get?_pop_self]]
  · simp only [delete, if_neg hids, FlatIndex.deleteIds, List.filter_filter, Bool.and_self]

end Vsector.Index

namespace Vsector.Models

/-- A written record that is read back at all has kept its id, version and checksum: only floats
are written otherwise than they are. -/
def Externals.KeepsStamps (X : Externals) : Prop :=
  ∀ r r', X.modelValidateJson (X.modelDumpJson r) = some r' →
    r'.id = r.id ∧ r'.version = r.version ∧ r'.checksum = r.checksum

theorem fieldwise_keepsStamps : fieldwise.KeepsStamps := by
  intro r r' h
  simp only [fieldwise, dumpRecord, readRecord] at h
  split at h
  · split at h
    · cases h
      exact ⟨rfl, rfl, rfl⟩
    · cases h
  · cases h

end Vsector.Models

namespace Vsector.Storage

open Framework Models Ingest

variable {X : Externals} {s s' : SegmentStore} {r : VectorRecord} {env : FlushEnv}

/-- Whether a record found counts as the one that is delivered again: the checksum and the version
are the same. -/
def sameStamp (r : VectorRecord) (found : Option VectorRecord) : Bool :=
  found.any fun c => c.checksum = r.checksum ∧ c.version = r.version

theorem forall₂_of_mapM {α β : Type} {f : α → Option β} {as : List α} {bs : List β}
    (h : as.mapM f = some bs) :
    List.Forall₂ (fun a b => f a = some b) as bs := by
  induction as generalizing bs with
  | nil =>
    cases h
    exact .nil
  | cons a as ih =>
    rw [List.mapM_cons] at h
    obtain ⟨b, hb, h⟩ := Option.bind_eq_some_iff.mp h
    obtain ⟨rest, hrest, h⟩ := Option.bind_eq_some_iff.mp h
    cases h
    exact .cons hb (ih hrest)

/-- What is found of an id in a table that was written, by the stamps, is the record written under
it. -/
theorem sameStamp_find (hX : X.KeepsStamps) {rs records : List VectorRecord} (hr : r ∈ rs)
    (hn : (rs.map idOf).Nodup)
    (h : (dumpLines X rs).mapM (fun line => line.bind X.modelValidateJson) = some records) :
    sameStamp r (Layers.find idOf records (idOf r)) = true := by
  have hread : List.Forall₂ (fun r c => X.modelValidateJson (X.modelDumpJson r) = some c)
      rs records :=
    List.forall₂_map_left_iff.mp (forall₂_of_mapM h)
  clear h
  induction hread with
  | nil => exact absurd hr List.not_mem_nil
  | @cons r₀ c₀ rs cs h₀ _ ih =>
    obtain ⟨hid, hversion, hchecksum⟩ := hX r₀ c₀ h₀
    have hid : idOf c₀ = idOf r₀ := congrArg UUID.text hid
    rw [List.map_cons, List.nodup_cons] at hn
    by_cases heq : idOf r₀ = idOf r
    · -- The first line of the id is that of the record itself.
      have hr₀ : r = r₀ := by
        rcases List.mem_cons.mp hr with h | h
        · exact h
        · exact absurd (heq ▸ List.mem_map_of_mem h) hn.1
      subst hr₀
      have hfind : Layers.find idOf (c₀ :: cs) (idOf r) = some c₀ :=
        List.find?_cons_of_pos (decide_eq_true hid)
      rw [hfind]
      simp only [sameStamp, Option.any_some, hversion, hchecksum, and_self, decide_true]
    · have hmem : r ∈ rs := (List.mem_cons.mp hr).resolve_left fun h => heq (congrArg idOf h.symm)
      have hfind : Layers.find idOf (c₀ :: cs) (idOf r) = Layers.find idOf cs (idOf r) :=
        List.find?_cons_of_neg (by simpa [hid] using heq)
      rw [hfind]
      exact ih hmem hn.2

/-- What is found of a record that was put has its checksum and version. -/
theorem sameStamp_get (hX : X.KeepsStamps) (hk : MemTableKeyed s.memtable)
    (hp : s.put X r env = (s', .ok ())) {found : Option VectorRecord}
    (hg : s'.get X (idOf r) = .ok found) : sameStamp r found = true := by
  have hself : (s.memtable.put r).data.get? (idOf r) = some r := Dict.get?_set_self _ _ _
  obtain ⟨-, rfl⟩ | ⟨-, t, hflush⟩ := put_cases hp
  · rw [SegmentStore.get, MemTable.get, hself] at hg
    cases hg
    simp only [sameStamp, Option.any_some, and_self, decide_true]
  · obtain ⟨hcount, -⟩ | ⟨-, rfl⟩ := flush_cases hflush
    · have hempty : (s.memtable.put r).data = ∅ := data_of_count hcount
      rw [hempty] at hself
      cases hself
    · let lines := dumpLines X (s.memtable.put r).data.values
      have hfile : (s.hot.set (sstName env.ts env.pid) lines).get? (sstName env.ts env.pid) =
          some lines := Dict.get?_set_self _ _ _
      rw [SegmentStore.get, MemTable.get, Dict.get?_empty, List.reverse_append,
        List.reverse_singleton, List.singleton_append,
        SegmentStore.getTables, SegmentStore.scan, SegmentStore.file] at hg
      dsimp only at hg
      rw [hfile] at hg
      rcases hscan : lines.mapM (fun line => line.bind X.modelValidateJson) with _ | records
      · simp only [hscan] at hg
        cases hg
      · have hfind := sameStamp_find hX (Dict.mem_values.mpr ⟨_, hself⟩)
          (Layers.nodup_values (hk.put r)) hscan
        simp only [hscan] at hg
        split at hg
        · rename_i c hc
          cases hg
          rwa [show Layers.find idOf records (idOf r) = some c from hc] at hfind
        · rename_i hc
          rw [show Layers.find idOf records (idOf r) = none from hc] at hfind
          cases hfind

/-- The result of a recovery that has read `n` entries of the log more. -/
def RecoveryResult.readMore (n : Nat) (r : RecoveryResult) : RecoveryResult :=
  { r with walEntriesRead := r.walEntriesRead + n }

theorem entry_delete_twice (st : Replay) (id : String) :
    (st.entry X (deletePayload id)).entry X (deletePayload id) = st.entry X (deletePayload id) := by
  by_cases hid : id = ""
  · subst hid
    simp only [Replay.entry, parse_delete_empty]
  · simp only [Replay.entry, parse_delete hid, Replay.apply, Dict.pop_pop, PySet.add_add]

/-- A recovery over a log whose last entry is there twice, where replaying it twice is no more than
replaying it once. -/
theorem recover_again {payload : Text}
    (hp : ∀ st : Replay, (st.entry X payload).entry X payload = st.entry X payload)
    (entries : List Text) (s : SegmentStore) :
    (recover X (.init (entries ++ [payload] ++ [payload])) s).map Prod.snd =
      ((recover X (.init (entries ++ [payload])) s).map Prod.snd).map
        (Prod.map id (RecoveryResult.readMore 1)) := by
  unfold recover
  rcases s.durableRecordsById X with e | d
  · rfl
  · simp only [Log.readAll, Log.init, Log.flush, List.append_nil, List.foldl_append,
      List.foldl_cons, List.foldl_nil, hp, List.length_append]
    rfl

end Vsector.Storage

namespace Vsector.Sharding

open Framework Models Storage Index Ingest ShardContext

variable {ι : Type} [BaseIndex ι] {X : Externals} {ctx ctx' : ShardContext ι} {payload : Text}
  {env env' : FlushEnv}

/-! ## Upserts -/

/-- Where the record of an upsert is looked up, it is found with its checksum and version. -/
def Applied (X : Externals) (ctx : ShardContext ι) (payload : Text) : Prop :=
  ∀ rec, decodeUpsert X payload = .ok rec → ∀ found, ctx.segments.get X rec.id.text = .ok found →
    sameStamp rec found = true

theorem upsert_of_applied (h : Applied X ctx payload) :
    (applyReplicatedUpsert X ctx payload env).1 = ctx := by
  unfold applyReplicatedUpsert
  rcases hd : decodeUpsert X payload with e | rec
  · rfl
  · dsimp only
    rcases hg : ctx.segments.get X rec.id.text with e | found
    · rfl
    · exact congrArg Prod.fst (if_pos (h rec hd found hg))

/-- The segments an upsert leaves, whatever the index makes of it. -/
theorem applyUpsert_segments (payload : Text) {rec : VectorRecord} {s' : SegmentStore}
    (hp : ctx.segments.put X rec env = (s', .ok ())) :
    (ctx.applyUpsert X rec payload env none).1.segments = s' := by
  simp only [applyUpsert, hp]
  unfold indexRecord
  rcases BaseIndex.add ctx.index rec.id.text rec.vector rec.metadata with e | index <;> rfl

/-- A memtable flush that an upsert causes meets no write error. -/
def Writes (X : Externals) (ctx : ShardContext ι) (payload : Text) (env : FlushEnv) : Prop :=
  ∀ rec, decodeUpsert X payload = .ok rec → (ctx.segments.memtable.put rec).shouldFlush →
    env.fault = none

/-- An upsert that meets no write error has been applied, whether or not it raises. -/
theorem applied_upsert (hX : X.KeepsStamps) (hk : MemTableKeyed ctx.segments.memtable)
    (hf : Writes X ctx payload env) :
    Applied X (applyReplicatedUpsert X ctx payload env).1 payload := by
  intro rec hd found hg
  simp only [applyReplicatedUpsert, hd] at hg
  rcases hget : ctx.segments.get X rec.id.text with e | before
  · simp only [hget] at hg
    cases hg
  · by_cases hbefore : sameStamp rec before
    · have hsame : (before.any fun c =>
          decide (c.checksum = rec.checksum ∧ c.version = rec.version)) = true := hbefore
      simp only [hget, hsame, if_true] at hg
      cases hg
      exact hbefore
    · have hnew : (before.any fun c =>
          decide (c.checksum = rec.checksum ∧ c.version = rec.version)) = false :=
        Bool.eq_false_iff.mpr hbefore
      obtain ⟨s', hput⟩ := put_ok_of_fault (X := X) ctx.segments rec (hf rec hd)
      have hsegments := applyUpsert_segments (some (X.modelDumpJson rec)) hput
      simp only [hget, hnew, Bool.false_eq_true, if_false] at hg
      rcases happly : ctx.applyUpsert X rec (some (X.modelDumpJson rec)) env
        none with ⟨ctx₁, e | ⟨⟩⟩
      all_goals
        rw [happly] at hsegments hg
        have hg' : s'.get X (idOf rec) = .ok found := hsegments ▸ hg
        exact sameStamp_get hX hk hput hg'

/-- An upsert that is delivered again does nothing at all. -/
theorem upsert_again (hX : X.KeepsStamps) (hk : MemTableKeyed ctx.segments.memtable)
    (hf : Writes X ctx payload env) :
    (applyReplicatedUpsert X (applyReplicatedUpsert X ctx payload env).1 payload env').1 =
      (applyReplicatedUpsert X ctx payload env).1 :=
  upsert_of_applied (applied_upsert hX hk hf)

/-! ## Deletes -/

/-- What a recovery over the directories of a context returns: the store it prepares, and its
result. -/
def recovered (X : Externals) (ctx : ShardContext ι) : Except Exc (SegmentStore × RecoveryResult) :=
  (recover X (.init ctx.root.wal)
    (.init ctx.segments.memtable.flushThreshold ctx.root.hot ctx.root.cold)).map Prod.snd

/-- `b` is as good as `a`: the same is visible, deleted and indexed, and a recovery finds the same,
though it may have read `n` entries of the log more. -/
structure SameReplica (X : Externals) (n : Nat) (a b : ShardContext ι) : Prop where
  visible : ∀ id, b.visible X id = a.visible X id
  tombstones : b.tombstones = a.tombstones
  index : b.index = a.index
  recovery : recovered X b = (recovered X a).map (Prod.map id (RecoveryResult.readMore n))

omit [BaseIndex ι] in
theorem SameReplica.refl (ctx : ShardContext ι) : SameReplica X 0 ctx ctx := by
  refine ⟨fun _ => rfl, rfl, rfl, ?_⟩
  rcases recovered X ctx with e | r <;> rfl

/-- A delete that is delivered again is logged again, and does nothing else. -/
theorem delete_again [ForgetsOnce ι] (ctx : ShardContext ι) (payload : Text) :
    SameReplica X (if (decodeDelete X payload).isOk then 1 else 0)
      (applyReplicatedDelete X ctx payload).1
      (applyReplicatedDelete X (applyReplicatedDelete X ctx payload).1 payload).1 := by
  rcases hd : decodeDelete X payload with e | id
  · have hsame : ∀ ctx : ShardContext ι, (applyReplicatedDelete X ctx payload).1 = ctx :=
      fun ctx => by
      simp only [applyReplicatedDelete, hd]
    rw [hsame, hsame]
    exact .refl ctx
  · have hpop : ∀ m : MemTable, (m.delete id).delete id = m.delete id := fun m =>
      congrArg (MemTable.mk m.flushThreshold) (Dict.pop_pop m.data id)
    simp only [applyReplicatedDelete, hd]
    refine ⟨fun a => ?_, PySet.add_add _ _, ForgetsOnce.delete_delete _ _, ?_⟩
    · simp only [ShardContext.visible, flushWal, hpop, PySet.add_add]
      rfl
    · simp only [recovered, flushWal, root, hpop, Log.append, Log.flush, List.append_nil,
        List.nil_append]
      rw [← List.append_assoc]
      exact recover_again (fun st => entry_delete_twice st id) _ _

/-! ## Reachable contexts -/

/-- The contexts a replica may have: it is opened over any directories, and then written to,
flushed and tiered. -/
inductive ReplicaReached (X : Externals) : ShardContext ι → Prop
  | opened {shard : Shard} {ns : Namespace} {threshold : Nat} {root : Root} {ctx : ShardContext ι}
      (h : ShardContext.init X shard ns threshold root = .ok ctx) : ReplicaReached X ctx
  | upsert {ctx : ShardContext ι} (h : ReplicaReached X ctx) (payload : Text) (env : FlushEnv) :
      ReplicaReached X (applyReplicatedUpsert X ctx payload env).1
  | delete {ctx : ShardContext ι} (h : ReplicaReached X ctx) (payload : Text) :
      ReplicaReached X (applyReplicatedDelete X ctx payload).1
  | flushWal {ctx : ShardContext ι} (h : ReplicaReached X ctx) : ReplicaReached X ctx.flushWal
  | flush {ctx : ShardContext ι} (h : ReplicaReached X ctx) (env : FlushEnv) :
      ReplicaReached X (ctx.flushMemtable X env).1
  | tierToCold {ctx : ShardContext ι} (h : ReplicaReached X ctx) (i : Nat) :
      ReplicaReached X { ctx with segments := ctx.segments.tierToCold i }

theorem keyed_upsert (h : MemTableKeyed ctx.segments.memtable) (payload : Text) (env : FlushEnv) :
    MemTableKeyed (applyReplicatedUpsert X ctx payload env).1.segments.memtable := by
  unfold applyReplicatedUpsert
  split
  · exact h
  · rename_i rec _
    split
    · exact h
    · split
      · exact h
      · have happly := keyed_applyUpsert (X := X) h rec (some (X.modelDumpJson rec)) env none
        split
        all_goals
          rename_i hu
          rw [hu] at happly
          exact happly

theorem tierToCold_memtable (s : SegmentStore) (i : Nat) :
    (s.tierToCold i).memtable = s.memtable := by
  unfold SegmentStore.tierToCold
  split
  · split <;> rfl
  · rfl

/-- The memtable of a replica keeps its records under their own ids. -/
theorem ReplicaReached.keyed (h : ReplicaReached X ctx) : MemTableKeyed ctx.segments.memtable := by
  induction h with
  | opened hinit =>
    unfold ShardContext.init at hinit
    split at hinit
    · cases hinit
    · rename_i wal segments recovery hrec
      have hkeyed : MemTableKeyed segments.memtable := recover_keyed hrec (memTableKeyed_empty _)
      have hsegments := congrArg Prod.fst (content_indexRecords hinit)
      exact (congrArg (fun s => MemTableKeyed s.memtable) hsegments).mpr hkeyed
  | upsert _ payload env ih => exact keyed_upsert ih payload env
  | delete _ payload ih =>
    unfold applyReplicatedDelete
    split
    · exact ih
    · exact ih.delete _
  | flushWal _ ih => exact ih
  | flush _ env ih =>
    rw [flushMemtable, flush_memtable]
    exact memTableKeyed_empty _
  | tierToCold _ i ih =>
    rw [tierToCold_memtable]
    exact ih

/-- Whatever a replica has been through, an upsert or a delete that is delivered twice leaves what
it leaves when it is delivered once, but for the delete's second entry in the log. -/
theorem redelivery_idempotent [ForgetsOnce ι] (hX : X.KeepsStamps) (ctx : ShardContext ι)
    (h : ReplicaReached X ctx) :
    (∀ payload env env', Writes X ctx payload env →
      SameReplica X 0 (applyReplicatedUpsert X ctx payload env).1
      (applyReplicatedUpsert X (applyReplicatedUpsert X ctx payload env).1 payload env').1) ∧
    ∀ payload, SameReplica X (if (decodeDelete X payload).isOk then 1 else 0)
      (applyReplicatedDelete X ctx payload).1
      (applyReplicatedDelete X (applyReplicatedDelete X ctx payload).1 payload).1 := by
  refine ⟨fun payload env env' hf => ?_, delete_again ctx⟩
  rw [upsert_again hX h.keyed hf]
  exact .refl _

section

/-- A new replica whose memtable holds no record: each is flushed at once. -/
private def emptyReplica : ShardContext FlatIndex :=
  .fresh ⟨"shard-0#replica-node-2", "docs", "node-2", .active, 0, 50000000000, [],
    1⟩ ⟨"docs", 1, .cosine, .flat, 1⟩ 1

private def unitUpsert : Text := some (fieldwise.modelDumpJson (unitRecord zeroId []))

private theorem reached_emptyReplica : ReplicaReached fieldwise emptyReplica :=
  .opened (init_empty _ _ _)

/-- The second time, the record is found in the table that the first wrote. -/
theorem redelivery_idempotent_unit :
    SameReplica fieldwise 0 (applyReplicatedUpsert fieldwise emptyReplica unitUpsert ⟨1, 1, none⟩).1
      (applyReplicatedUpsert fieldwise
        (applyReplicatedUpsert fieldwise emptyReplica unitUpsert ⟨1, 1, none⟩).1
        unitUpsert ⟨2, 1, none⟩).1 :=
  (redelivery_idempotent fieldwise_keepsStamps emptyReplica reached_emptyReplica).1 unitUpsert
    ⟨1, 1, none⟩ ⟨2, 1, none⟩
    fun _ _ _ => rfl

/-- A recovery reads the entry of a redelivered delete twice; and where the table could not be
written, an upsert is shown only once it is delivered again. -/
theorem redelivery_shows : ReplicaReached fieldwise emptyReplica ∧
    ¬ SameReplica fieldwise 0 (applyReplicatedDelete fieldwise emptyReplica
      (deletePayload zeroId.text)).1
      (applyReplicatedDelete fieldwise
        (applyReplicatedDelete fieldwise emptyReplica (deletePayload zeroId.text)).1
        (deletePayload zeroId.text)).1 ∧
    ¬ SameReplica fieldwise 0 (applyReplicatedUpsert fieldwise emptyReplica unitUpsert
      ⟨1, 1, some .opening⟩).1
      (applyReplicatedUpsert fieldwise
        (applyReplicatedUpsert fieldwise emptyReplica unitUpsert ⟨1, 1, some .opening⟩).1
        unitUpsert ⟨2, 1, none⟩).1 := by
  refine ⟨reached_emptyReplica, fun h => ?_, fun h => ?_⟩
  · have hread := congrArg (fun r => r.toOption.map fun r => r.2.walEntriesRead) h.recovery
    exact absurd hread (by decide +kernel)
  · have hshown := congrArg (fun r => r.toOption.map Option.isSome) (h.visible zeroId.text)
    exact absurd hshown (by decide +kernel)

end

end Vsector.Sharding
