import Vsector.Proof.Models.SortKeys
import Vsector.Proof.Sharding.Disks
import Vsector.Proof.Storage.Filling

/-!
# Export and import

An import writes the records of an export to SSTables and log, and the
tombstones after them (`Imported`, `sat_importRecords`). So a recovery over
the target finds what the one over the source did, whatever the target held
before, and the SSTables alone hold all of it as long as no flush replaces
the file of another (`export_import`).
-/

namespace Vsector.Sharding

open Framework Models Storage Ingest

variable {X : Externals}

/-! ## The document of an export -/

theorem mapM_asStr (ids : List String) : (ids.map Json.str).mapM asStr = some ids := by
  induction ids with
  | nil => rfl
  | cons id ids ih =>
    rw [List.map_cons, List.mapM_cons, ih]
    rfl

/-- The records of an export come back with their fields sorted. -/
theorem ShardExport.deserialize_serialize (e : ShardExport) :
    deserialize e.serialize = some { e with records := e.records.map Json.sortKeys } := by
  have hnames : ["namespace", "shard_id", "records", "deleted_ids", "digest"].Nodup := by decide
  have hget : ∀ k, e.serialize.get? k = (e.toDict.get? k).map Json.sortKeys :=
    Json.get?_sortKeys hnames
  have hids : (Json.arr (e.deletedIds.map .str)).sortKeys = .arr (e.deletedIds.map .str) := by
    rw [Json.sortKeys, sortItems_strs]
  have hns : e.serialize.get? "namespace" = some (.str e.ns) := hget _
  have hshard : e.serialize.get? "shard_id" = some (.str e.shardId) := hget _
  have hrecords : e.serialize.get? "records" = some (.arr (e.records.map Json.sortKeys)) := by
    rw [← Json.sortItems_eq]
    exact hget _
  have hdeleted : e.serialize.get? "deleted_ids" = some (.arr (e.deletedIds.map .str)) := by
    rw [← hids]
    exact hget _
  have hdigest : e.serialize.get? "digest" = some (.str e.digest) := hget _
  rw [deserialize, fromDict, hns, hshard, hrecords, hdeleted, hdigest]
  simp only [Option.getD_some, mapM_asStr, Option.map_some]

/-! ## Entries -/

/-- Documents of records, which are validated as the record but for the order of its metadata. -/
structure Documents (X : Externals) where
  doc : VectorRecord → Json
  stored : VectorRecord → VectorRecord
  validate : ∀ r, r.Finite → X.modelValidate (doc r) = some (stored r)
  sortKeys : ∀ r, (doc r).sortKeys = (X.modelDump r).sortKeys
  sorted : ∀ r, (stored r).sorted = r.sorted
  finite : ∀ r, r.Finite → (stored r).Finite

/-- The documents of an export. -/
def Documents.dumped (hX : X.Lawful) : Documents X :=
  ⟨X.modelDump, id, hX.validate_modelDump, fun _ => rfl, fun _ => rfl, fun _ h => h⟩

/-- The documents of an export that was sent. -/
def Documents.sent (hB : X.ByName) : Documents X :=
  ⟨fun r => (X.modelDump r).sortKeys, VectorRecord.sorted, hB.validate,
    fun _ => Json.sortKeys_sortKeys _,
    VectorRecord.sorted_sorted, fun _ => VectorRecord.Finite.sorted⟩

theorem Documents.idOf_stored (D : Documents X) (r : VectorRecord) :
    idOf (D.stored r) = idOf r := by
  show idOf (D.stored r).sorted = idOf r.sorted
  rw [D.sorted]

theorem Documents.map_idOf (D : Documents X) (records : List VectorRecord) :
    (records.map D.stored).map idOf = records.map idOf := by
  rw [List.map_map]
  exact List.map_congr_left fun r _ => D.idOf_stored r

theorem Documents.dump_stored (D : Documents X) (hB : X.ByName) (r : VectorRecord) :
    (X.modelDump (D.stored r)).sortKeys = (X.modelDump r).sortKeys := by
  rw [← hB.dump (D.stored r), D.sorted, hB.dump]

/-- The entry of a record in the log. -/
def upsertEntry (X : Externals) (r : VectorRecord) : Text :=
  some (.obj [("__op", .str "upsert"), ("record", (X.modelDump r).sortKeys)])

theorem Documents.upsertPayload_eq (D : Documents X) (r : VectorRecord) :
    upsertPayload (D.doc r) = upsertEntry X r := by
  have hsorted : [("__op", Json.str "upsert"), ("record", (X.modelDump r).sortKeys)].Pairwise
      fun a b => a.1 ≤ b.1 := by
    refine List.pairwise_pair.mpr ?_
    show "__op" ≤ "record"
    decide
  show some (Json.obj (List.insertionSort _ [("__op", Json.str "upsert"),
    ("record", (D.doc r).sortKeys)])) = _
  rw [D.sortKeys, List.Pairwise.insertionSort_eq hsorted, upsertEntry]

theorem parse_upsertEntry (hB : X.ByName) {r : VectorRecord} (h : r.Finite) :
    parsePayload X (upsertEntry X r) = some (.upsert r.sorted) := by
  have hobj : (X.modelDump r).sortKeys.isObj = true := by
    rw [Json.isObj_sortKeys, hB.isObj]
  have hentry : ∀ fields, (Json.obj fields).isObj = true := fun _ => rfl
  simp [parsePayload, upsertEntry, hentry, Json.get?, Json.isStr, List.lookup,
    hobj, hB.validate r h]

/-! ## What an import writes -/

/-- The times of the flushes of an import of `rds` from `c` on. -/
def flushTimes (X : Externals) (env : Nat → FlushEnv) : List Json → ImportState → List Nat
  | [], c => if c.seg.memtable.count = 0 then [] else [(env 0).ts]
  | rd :: rds, c =>
    match X.modelValidate rd with
    | none => []
    | some rec =>
      let rest := flushTimes X env rds (importRecord X (env (rds.length + 1)) c rd).1
      if (c.seg.memtable.put rec).shouldFlush then (env (rds.length + 1)).ts :: rest else rest

/-- None of the files has one of the times. -/
def Unused (s : SegmentStore) (times : List Nat) : Prop :=
  ∀ t ∈ times, ∀ pid, s.hot.get? (sstName t pid) = none

theorem Unused.flush {s s' : SegmentStore} {env : FlushEnv} {times : List Nat} {t : Option SSTable}
    (h : Unused s (env.ts :: times)) (hn : (env.ts :: times).Nodup)
    (hf : s.flush X env = (s', .ok t)) : Unused s' times := by
  obtain ⟨-, rfl⟩ | ⟨-, rfl⟩ := flush_cases hf
  · exact fun ts hts => h ts (List.mem_cons_of_mem _ hts)
  · intro ts hts pid
    have hne : sstName ts pid ≠ sstName env.ts env.pid :=
      fun he => (List.nodup_cons.mp hn).1 (ts_of_sstName he ▸ hts)
    exact (Dict.get?_set_ne _ _ hne).trans (h ts (List.mem_cons_of_mem _ hts) pid)

theorem foldl_append (log : Log Text) (payloads : List Text) :
    payloads.foldl Log.append log = { log with buffer := log.buffer ++ payloads } := by
  induction payloads generalizing log with
  | nil => rw [List.foldl_nil, List.append_nil]
  | cons payload payloads ih =>
    rw [List.foldl_cons, ih, Log.append, List.append_assoc]
    rfl

/-- What an import of `todo` leaves, where it begins at `c`, which holds `done`. -/
structure Imported (D : Documents X) (env : Nat → FlushEnv) (deleted : List String)
    (todo done : List VectorRecord) (c : ImportState) (root : Root) (seg : SegmentStore) :
    Prop where
  root : root = ⟨c.wal.buffer ++ todo.map (upsertEntry X) ++ deleted.map deletePayload,
    seg.hot, seg.cold⟩
  memtable : seg.memtable.data = ∅
  filling : Filling X (done ++ todo.map D.stored) seg
  kept : Kept X done c.seg → Unused c.seg (flushTimes X env (todo.map D.doc) c) →
    (flushTimes X env (todo.map D.doc) c).Nodup → ((done ++ todo.map D.stored).map idOf).Nodup →
    Kept X (done ++ todo.map D.stored) seg

/-- Where an import ends: it does not raise if nothing goes wrong with the files. -/
structure ImportEnds (D : Documents X) (env : Nat → FlushEnv) (target shardId : String)
    (deleted : List String) (todo done : List VectorRecord) (c : ImportState) (d d' : Disks)
    (result : Except Exc Unit) : Prop where
  total : (∀ i, (env i).fault = none) → result = .ok ()
  imported : result = .ok () → ∃ root seg, d' = d.set target shardId root ∧
    Imported D env deleted todo done c root seg

theorem Disks.set_set (d : Disks) (node shardId : String) (root root' : Root) :
    (d.set node shardId root).set node shardId root' = d.set node shardId root' := by
  funext n s
  simp only [Disks.set]
  split <;> rfl

section

variable {D : Documents X} {env : Nat → FlushEnv} {target shardId : String} {deleted : List String}
  {c : ImportState} {d : Disks}

theorem sat_writeRoot {Q : Disks → Except Exc Unit → Prop}
    (h : Q (d.set target shardId ⟨c.wal.durable, c.seg.hot, c.seg.cold⟩) (.ok ())) :
    Proc.Sat (writeRoot target shardId c) d (fun _ => True) Q := Proc.sat_final h

theorem sat_writePart {e : FlushEnv} {Q : Disks → Except Exc Unit → Prop} (h : Q d (.ok ())) :
    Proc.Sat (writePart X e target shardId c) d (fun _ => True) Q := Proc.sat_final h

theorem sat_recordPart {e : FlushEnv} {rd : Json} {Q : Disks → Except Exc Unit → Prop}
    (h : Q d (.ok ())) :
    Proc.Sat (recordPart X e target shardId c rd) d (fun _ => True) Q := by
  unfold recordPart
  split
  · exact Proc.sat_pure.mpr h
  · dsimp only
    split
    · exact sat_writePart h
    · exact Proc.sat_pure.mpr h

theorem sat_closeWith {e : Exc} {Q : Disks → Except Exc Unit → Prop} (h : ∀ d', Q d' (.error e)) :
    Proc.Sat (closeWith target shardId c e) d (fun _ => True) Q :=
  (sat_writeRoot (Q := fun _ r => r = .ok ()) rfl).bind (fun t _ _ => Proc.sat_throw.mpr (h t))
    fun _ _ hr => by cases hr

theorem sat_finishImport {done : List VectorRecord} (hi : Filling X done c.seg)
    (hw : c.wal.durable = []) :
    Proc.Sat (finishImport X (env 0) target shardId deleted c) d (fun _ => True)
      (ImportEnds D env target shardId deleted [] done c d) := by
  unfold finishImport
  refine (sat_writeRoot (Q := fun t r => t = d.set target shardId ⟨[], c.seg.hot, c.seg.cold⟩ ∧
    r = .ok ()) ?_).bind
    (fun t _ ht => ?_) fun _ _ hr => by cases hr.2
  · rw [foldl_append, hw]
    exact ⟨rfl, rfl⟩
  · obtain ⟨rfl, -⟩ := ht
    refine (sat_writePart (Q := fun t r => t = d.set target shardId ⟨[], c.seg.hot, c.seg.cold⟩ ∧
      r = .ok ()) ⟨rfl, rfl⟩).bind (fun t _ ht => ?_) fun _ _ hr => by cases hr.2
    obtain ⟨rfl, -⟩ := ht
    rw [foldl_append, hw]
    rcases hf : c.seg.flush X (env 0) with ⟨seg, e | t⟩
    · refine (sat_writeRoot (Q := fun _ r => r = .ok ()) rfl).bind (fun t _ _ => ?_)
        fun _ _ hr => by cases hr
      refine sat_closeWith fun _ => ⟨fun hfault => ?_, fun hr => by cases hr⟩
      obtain ⟨seg', t, hf'⟩ := flush_ok_of_fault (X := X) (s := c.seg) (hfault 0)
      rw [hf'] at hf
      cases hf
    · obtain ⟨hi', hm⟩ := hi.flush hf
      refine (sat_writeRoot (Q := fun t r => t = d.set target shardId ⟨[], seg.hot, seg.cold⟩ ∧
        r = .ok ()) ?_).bind (fun t _ ht => ?_) fun _ _ hr => by cases hr.2
      · rw [Disks.set_set]
        exact ⟨rfl, rfl⟩
      obtain ⟨rfl, -⟩ := ht
      refine sat_writeRoot ⟨fun _ => rfl, fun _ => ⟨_, seg, Disks.set_set .., ⟨?_, hm, ?_, ?_⟩⟩⟩
      · simp only [Log.flush, List.nil_append, List.map_nil, List.append_nil]
      · rw [List.map_nil, List.append_nil]
        exact hi'
      · intro hk hu _ _
        rw [List.map_nil, List.append_nil]
        refine hk.flush hi hf fun hc => ?_
        have htimes : flushTimes X env [] c = [(env 0).ts] := by rw [flushTimes, if_neg hc]
        exact hu _ (by rw [List.map_nil, htimes]; exact List.mem_singleton_self _) _

/-- One record more: what holds of the import from the next record on holds of all of it. -/
theorem Imported.cons {r : VectorRecord} {todo done : List VectorRecord} {seg seg' : SegmentStore}
    {root : Root} (hval : X.modelValidate (D.doc r) = some (D.stored r))
    (hp : c.seg.put X (D.stored r) (env (todo.length + 1)) = (seg', .ok ()))
    (hi : Filling X done c.seg)
    (h : Imported D env deleted todo
      (done ++ [D.stored r]) ⟨seg', c.wal.append (upsertEntry X r)⟩ root seg) :
    Imported D env deleted (r :: todo) done c root seg := by
  have hrecords : done ++ (r :: todo).map D.stored = done ++ [D.stored r] ++ todo.map D.stored := by
    rw [List.map_cons, List.append_assoc]
    rfl
  refine ⟨?_, h.memtable, by rw [hrecords]; exact h.filling, fun hk hu ht hn => ?_⟩
  · rw [h.root, Log.append, List.map_cons, List.append_assoc c.wal.buffer]
    rfl
  · rw [hrecords] at hn ⊢
    have hrecord : importRecord X (env (todo.length + 1)) c (D.doc r) =
        (⟨seg', c.wal.append (upsertEntry X r)⟩, .ok ()) := by
      simp only [importRecord, hval, hp, D.upsertPayload_eq]
    have htimes : flushTimes X env ((r :: todo).map D.doc) c =
        let rest := flushTimes X env (todo.map D.doc) ⟨seg', c.wal.append (upsertEntry X r)⟩
        if (c.seg.memtable.put (D.stored r)).shouldFlush then (env (todo.length + 1)).ts :: rest
          else rest := by
      rw [List.map_cons, flushTimes, hval, List.length_map, hrecord]
    have hid : idOf (D.stored r) ∉ done.map idOf := by
      rw [List.map_append, List.map_append, List.append_assoc] at hn
      exact fun hmem => List.disjoint_of_nodup_append hn hmem
        (List.mem_append_left _ (List.mem_singleton_self _))
    rw [htimes] at hu ht
    obtain ⟨hfull, rfl⟩ | ⟨hfull, t, hf⟩ := put_cases hp
    · simp only [hfull, Bool.false_eq_true, if_false] at hu ht
      exact h.kept (hk.memtable_put hid) hu ht hn
    · simp only [hfull, if_true] at hu ht
      have hput : Kept X (done ++ [D.stored r]) seg' :=
        (hk.memtable_put hid).flush (hi.memtable_put (D.stored r)) hf fun _ =>
          hu _ List.mem_cons_self _
      refine h.kept hput ?_ (List.nodup_cons.mp ht).2 hn
      exact Unused.flush (s := { c.seg with memtable := c.seg.memtable.put (D.stored r) }) hu ht hf

theorem sat_importRecords {todo done : List VectorRecord} (hfin : ∀ r ∈ todo, r.Finite)
    (hi : Filling X done c.seg) (hw : c.wal.durable = []) :
    Proc.Sat (importRecords X env target shardId deleted (todo.map D.doc) c) d (fun _ => True)
      (ImportEnds D env target shardId deleted todo done c d) := by
  induction todo generalizing done c d with
  | nil => exact sat_finishImport hi hw
  | cons r todo ih =>
    obtain ⟨hr, hfin⟩ := List.forall_mem_cons.mp hfin
    have hval := D.validate r hr
    rw [List.map_cons, importRecords, List.length_map]
    refine (sat_recordPart (Q := fun t r => d = t ∧ r = .ok ()) ⟨rfl, rfl⟩).bind (fun t _ ht => ?_)
      fun _ _ hr => by cases hr.2
    obtain ⟨rfl, -⟩ := ht
    rw [importRecord, hval, D.upsertPayload_eq]
    rcases hp : c.seg.put X (D.stored r) (env (todo.length + 1)) with ⟨seg, e | ⟨⟩⟩
    · simp only [hp]
      refine (sat_writeRoot (Q := fun _ r => r = .ok ()) rfl).bind (fun t _ _ => ?_) fun _ _ hr =>
        by cases hr
      refine sat_closeWith fun _ => ⟨fun hfault => ?_, fun hr => by cases hr⟩
      obtain ⟨seg', hp'⟩ := put_ok_of_fault (X := X) c.seg (D.stored r) fun _ =>
        hfault (todo.length + 1)
      rw [hp'] at hp
      cases hp
    · simp only [hp]
      refine (sat_writeRoot (Q := fun t r =>
        t = d.set target shardId ⟨c.wal.durable, seg.hot, seg.cold⟩ ∧ r = .ok ())
        ⟨rfl, rfl⟩).bind (fun t _ ht => ?_) fun _ _ hr => by cases hr.2
      obtain ⟨rfl, -⟩ := ht
      have hnext := ih (c := ⟨seg, c.wal.append (upsertEntry X r)⟩)
        (d := d.set target shardId ⟨c.wal.durable, seg.hot, seg.cold⟩)
        hfin (hi.put hp) hw
      refine hnext.mono (fun _ _ => trivial) fun d' result h => ⟨h.total, fun hok => ?_⟩
      obtain ⟨root, seg', hd, himp⟩ := h.imported hok
      rw [Disks.set_set] at hd
      exact ⟨root, seg', hd, himp.cons hval hp hi⟩

end

/-! ## What the log of an import says -/

section

variable {records : List VectorRecord} {deleted : List String}

theorem find_map_delete (ids : List String) (id : String) :
    Layers.find Op.id (ids.map Op.delete) id = if id ∈ ids then some (.delete id) else none := by
  induction ids with
  | nil => rfl
  | cons a ids ih =>
    rw [List.map_cons, Layers.find, List.find?_cons]
    by_cases ha : a = id
    · subst ha
      rw [if_pos List.mem_cons_self, Op.id, decide_eq_true rfl]
    · rw [Op.id, decide_eq_false ha]
      simp only [List.mem_cons, Ne.symm ha, false_or]
      exact ih

/-- The tombstones come last, and nothing else is about their ids twice. -/
theorem lastOp_imported (hB : X.ByName) (hfin : ∀ r ∈ records, r.Finite)
    (hn : (records.map idOf).Nodup)
    (hdel : ∀ id ∈ deleted, id ≠ "") (hdn : deleted.Nodup) (id : String) :
    lastOp X (records.map (upsertEntry X) ++ deleted.map deletePayload) id =
      if id ∈ deleted then some (.delete id)
        else (Layers.find idOf (records.map VectorRecord.sorted) id).map Op.upsert := by
  have hupserts : (records.map (upsertEntry X)).filterMap (parsePayload X) =
      (records.map VectorRecord.sorted).map Op.upsert := by
    rw [List.filterMap_map, List.map_map, List.filterMap_eq_map_iff_forall_eq_some.mpr]
    exact fun r hr => parse_upsertEntry hB (hfin r hr)
  have hdeletes : (deleted.map deletePayload).filterMap (parsePayload X) =
      deleted.map Op.delete := by
    rw [List.filterMap_map, List.filterMap_eq_map_iff_forall_eq_some.mpr]
    exact fun a ha => parse_delete (hdel a ha)
  have hdn : ((deleted.map Op.delete).map Op.id).Nodup := by
    rw [List.map_map]
    exact (List.map_id deleted).symm ▸ hdn
  have hrn : (((records.map VectorRecord.sorted).map Op.upsert).map Op.id).Nodup := by
    rw [List.map_map, List.map_map]
    exact hn
  rw [lastOp, List.filterMap_append, hupserts, hdeletes, Layers.last_append,
    Layers.last_eq_find hdn, Layers.last_eq_find hrn, find_map_delete]
  split
  · rfl
  · rw [Option.none_or, Layers.find, List.find?_map]
    rfl

/-- What a recovery over the directory finds, and the SSTables' records. -/
structure Recovers (X : Externals) (records : List VectorRecord) (deleted : List String)
    (root : Root) (result : RecoveryResult) (durable : Dict String VectorRecord) : Prop where
  recovered : ∃ log store, recoverRoot X root = .ok (log, store, result)
  durable : (SegmentStore.init 10000 root.hot root.cold).durableRecordsById X = .ok durable
  records : result.records.Perm (records.map VectorRecord.sorted)
  deleted : result.deletedIds = deleted

/-- A recovery over an import finds the records and the tombstones of it. -/
theorem Imported.recovers {D : Documents X} {env : Nat → FlushEnv} {root : Root}
    {seg : SegmentStore} (hX : X.Lawful)
    (hB : X.ByName) (h : Imported D env deleted records [] ⟨.init 10000 ∅ ∅, .init []⟩ root seg)
    (hfin : ∀ r ∈ records, r.Finite) (hn : (records.map idOf).Nodup)
    (hdis : ∀ r ∈ records, idOf r ∉ deleted)
    (hdel : ∀ id ∈ deleted, id ≠ "") (hsorted : deleted.Pairwise (· ≤ ·)) (hdn : deleted.Nodup) :
    ∃ result durable, Recovers X records deleted root result durable ∧
      (Kept X (records.map D.stored) seg → durable.values.Perm (records.map D.stored)) := by
  have hfin' : ∀ r ∈ records.map D.stored, r.Finite := by
    intro r hr
    obtain ⟨r, hmem, rfl⟩ := List.mem_map.mp hr
    exact D.finite r (hfin r hmem)
  have hn' : ((records.map D.stored).map idOf).Nodup := (D.map_idOf records).symm ▸ hn
  have hns : ((records.map VectorRecord.sorted).map idOf).Nodup := by
    rw [List.map_map]
    exact hn
  obtain ⟨d, hd, hsub, hall⟩ := h.filling.init hX hfin' hn' h.memtable 10000
  obtain ⟨result, hr, hfinds⟩ :=
    recover_finds hd (records.map (upsertEntry X) ++ deleted.map deletePayload)
  obtain ⟨⟨log, store, result'⟩, hrec, rfl⟩ :
      ∃ recovered, recover X (.init (records.map (upsertEntry X) ++
      deleted.map deletePayload)) (.init 10000 seg.hot seg.cold) = .ok recovered ∧
        recovered.2.2 = result := by
    rcases hrec : recover X (.init (records.map (upsertEntry X) ++ deleted.map deletePayload))
      (.init 10000 seg.hot seg.cold) with e | recovered
    · rw [hrec] at hr
      cases hr
    · rw [hrec] at hr
      cases hr
      exact ⟨recovered, rfl, rfl⟩
  refine ⟨result', d, ⟨?_, by rw [h.root]; exact hd, ?_, ?_⟩, fun hk => ?_⟩
  · rw [h.root]
    exact ⟨log, store, hrec⟩
  · refine (Layers.perm_iff_find hfinds.nodup hns).mpr fun id => ?_
    rw [hfinds.records, lastOp_imported hB hfin hn hdel hdn]
    split
    · rename_i hid
      refine (Layers.find_eq_none.mpr fun r hr he => ?_).symm
      obtain ⟨r, hmem, rfl⟩ := List.mem_map.mp hr
      exact hdis r hmem (he ▸ hid)
    · cases hf : Layers.find idOf (records.map VectorRecord.sorted) id with
      | some r => rfl
      | none =>
        show d.get? id = none
        refine Option.eq_none_iff_forall_ne_some.mpr fun r hid => ?_
        obtain ⟨r', hmem, rfl⟩ := List.mem_map.mp (Layers.mem_of_find (hsub id r hid))
        have hkey : idOf r' = id :=
          (D.idOf_stored r').symm.trans (Layers.key_of_find (hsub id _ hid))
        exact Layers.find_eq_none.mp hf r'.sorted (List.mem_map_of_mem hmem) hkey
  · refine ((List.perm_ext_iff_of_nodup hfinds.distinct hdn).mpr fun id => ?_).eq_of_pairwise'
      hfinds.sorted hsorted
    rw [hfinds.deleted, lastOp_imported hB hfin hn hdel hdn]
    split
    · rename_i hid
      exact iff_of_true rfl hid
    · rename_i hid
      refine iff_of_false (fun hdelete => ?_) hid
      cases hf : Layers.find idOf (records.map VectorRecord.sorted) id with
      | some r =>
        rw [hf] at hdelete
        cases hdelete
      | none =>
        rw [hf] at hdelete
        cases hdelete
  · have hkey := keyed_durable hd
    refine (Layers.perm_iff_find (Layers.nodup_values hkey) hn').mpr fun id => ?_
    rw [Layers.find_values hkey, hall hk]
    rfl

/-! ## Digests -/

/-- Records in the order of their ids. -/
def byId (records : List VectorRecord) : List VectorRecord :=
  records.insertionSort fun a b => a.id.text ≤ b.id.text

section

variable {f : VectorRecord → VectorRecord} {records' : List VectorRecord}

theorem byId_perm (hid : ∀ r, idOf (f r) = idOf r) (hn : (records.map idOf).Nodup)
    (h : records'.Perm (records.map f)) :
    byId records' = (byId records).map f := by
  have hperm : (byId records').Perm ((byId records).map f) :=
    (List.perm_insertionSort _ _).trans (h.trans ((List.perm_insertionSort _ records).symm.map _))
  have hn' : ((records.map f).map idOf).Nodup := by
    rw [List.map_map]
    exact (List.map_congr_left fun r _ => hid r).symm ▸ hn
  have hsorted : ((byId records).map f).Pairwise fun a b => a.id.text ≤ b.id.text := by
    refine List.pairwise_map.mpr ((List.pairwise_insertionSort _ records).imp fun hab => ?_)
    rw [show (f _).id.text = _ from hid _, show (f _).id.text = _ from hid _]
    exact hab
  refine hperm.eq_of_pairwise (fun a b ha hb hab hba => ?_)
    (List.pairwise_insertionSort _ _) hsorted
  have ha' := h.mem_iff.mp ((List.mem_insertionSort _).mp ha)
  have hb' := h.mem_iff.mp ((List.mem_insertionSort _).mp (hperm.mem_iff.mpr hb))
  exact List.inj_on_of_nodup_map hn' ha' hb' (le_antisymm hab hba)

/-- The digest is of the records as a set, with their fields sorted. -/
theorem computeDigest_perm (hid : ∀ r, idOf (f r) = idOf r)
    (hdump : ∀ r, (X.modelDump (f r)).sortKeys = (X.modelDump r).sortKeys)
    (hn : (records.map idOf).Nodup) (h : records'.Perm (records.map f)) :
    computeDigest X records' deleted = computeDigest X records deleted := by
  have hitems : Json.sortItems ((byId records').map X.modelDump) =
      Json.sortItems ((byId records).map X.modelDump) := by
    rw [byId_perm hid hn h, Json.sortItems_eq, Json.sortItems_eq, List.map_map,
      List.map_map, List.map_map]
    exact List.map_congr_left fun r _ => hdump r
  have hdoc : (digestDocument X records' deleted).sortKeys =
      (digestDocument X records deleted).sortKeys := by
    have hdocument : ∀ rs, digestDocument X rs deleted =
        .obj [("records", .arr ((byId rs).map X.modelDump)),
        ("deleted", .arr ((deleted.insertionSort (· ≤ ·)).map .str))] := fun _ => rfl
    rw [hdocument, hdocument]
    simp only [Json.sortKeys, Json.sortFields, hitems]
  rw [computeDigest, computeDigest, Json.dumps, Json.dumps, hdoc]

end

theorem Recovers.digests {root : Root} {result : RecoveryResult}
    {durable : Dict String VectorRecord} (h : Recovers X records deleted root result durable) :
    ShardTransferProvider.digests X root =
      .ok (computeDigest X result.records result.deletedIds,
        computeDigest X durable.values result.deletedIds) := by
  obtain ⟨log, store, hrec⟩ := h.recovered
  have hd := h.durable
  have hstore : store.durableRecordsById X = .ok durable := by
    rw [recoverRoot, recover, hd] at hrec
    cases hrec
    exact hd
  simp only [ShardTransferProvider.digests, hrec, hstore]

end

/-! ## Export and import -/

section

variable {env : Nat → FlushEnv} {source target : String} {shard : Shard} {d : Disks}
  {log : Log Text} {store : SegmentStore} {result : RecoveryResult}

namespace ShardTransferProvider

/-- What is exported of a directory. -/
def exportOf (X : Externals) (shard : Shard) (result : RecoveryResult) : ShardExport where
  ns := shard.ns
  shardId := shard.id
  records := result.records.map X.modelDump
  deletedIds := result.deletedIds.insertionSort (· ≤ ·)
  digest := computeDigest X result.records result.deletedIds

theorem exportShard_eq (h : recoverRoot X (d source shard.id) = .ok (log, store, result)) :
    exportShard X source shard d = ⟨[], d, .ok (exportOf X shard result)⟩ := by
  simp only [exportShard, Bind.bind, Proc.bind, Proc.get, h]
  rfl

/-- The records of an export in the order they are imported. -/
def uploads (X : Externals) (e : ShardExport) : List Json :=
  e.records.insertionSort fun a b => recordKey X a ≤ recordKey X b

/-- The times of the SSTable flushes of an import. -/
def importTimes (X : Externals) (env : Nat → FlushEnv) (e : ShardExport) : List Nat :=
  flushTimes X env (uploads X e) ⟨.init 10000 ∅ ∅, .init []⟩

theorem uploads_eq {D : Documents X} (e : ShardExport) {records : List VectorRecord}
    (he : e.records = records.map D.doc) :
    ∃ todo : List VectorRecord, todo.Perm records ∧ uploads X e = todo.map D.doc := by
  refine ⟨records.insertionSort fun a b => recordKey X (D.doc a) ≤ recordKey X (D.doc b),
    List.perm_insertionSort _ _, ?_⟩
  rw [uploads, he]
  exact (List.map_insertionSort _ _ D.doc records fun _ _ _ _ => Iff.rfl).symm

theorem sat_importShard {D : Documents X} (env : Nat → FlushEnv) (target : String) (shard : Shard)
    (e : ShardExport) {todo : List VectorRecord} (he : uploads X e = todo.map D.doc)
    (hfin : ∀ r ∈ todo, r.Finite) :
    Proc.Sat (importShard X env target shard e) d (fun _ => True) fun d' r =>
      ((∀ i, (env i).fault = none) → r = .ok ()) ∧ (r = .ok () → ∃ seg,
        Imported D env (e.deletedIds.insertionSort (· ≤ ·)) todo [] ⟨.init 10000 ∅ ∅, .init []⟩
          (d' target shard.id) seg) := by
  have himport : importShard X env target shard e = (removeTrees target shard >>= fun _ =>
      importRecords X env target shard.id
      (e.deletedIds.insertionSort (· ≤ ·)) (uploads X e) ⟨.init 10000 ∅ ∅, .init []⟩) := rfl
  have hempty : Filling X [] (SegmentStore.init 10000 ∅ ∅) :=
    ⟨fun _ _ h => (by cases h), fun _ _ h => (by cases h), rfl⟩
  rw [himport, he]
  refine (show Proc.Sat (removeTrees target shard) d (fun _ => True) fun _ r => r = .ok () from
    Proc.sat_final rfl).bind (fun d' _ _ => ?_) fun _ _ hr => by cases hr
  refine (sat_importRecords (c := ⟨.init 10000 ∅ ∅, .init []⟩) hfin hempty rfl).mono
    (fun _ _ => trivial) fun d'' r h => ?_
  refine ⟨h.total, fun hok => ?_⟩
  obtain ⟨root, seg, rfl, himp⟩ := h.imported hok
  refine ⟨seg, ?_⟩
  rw [show (d'.set target shard.id root) target shard.id = root from if_pos ⟨rfl, rfl⟩]
  exact himp

/-- The SSTables alone have what was imported where no flush had the time of another. -/
theorem kept_of_importTimes {D : Documents X} {e : ShardExport} {todo : List VectorRecord}
    (he : uploads X e = todo.map D.doc) {deleted : List String} {root : Root} {seg : SegmentStore}
    (hn : (todo.map idOf).Nodup)
    (h : Imported D env deleted todo [] ⟨.init 10000 ∅ ∅, .init []⟩ root seg)
    (ht : (importTimes X env e).Nodup) : Kept X (todo.map D.stored) seg := by
  rw [importTimes, he] at ht
  refine h.kept (fun _ hr => by cases hr) (fun _ _ _ => rfl) ht ?_
  rw [List.nil_append, D.map_idOf]
  exact hn

/-- An import of what a recovery has found is found by a recovery over the target. -/
theorem sat_import (hX : X.Lawful) (hB : X.ByName) (D : Documents X) (env : Nat → FlushEnv)
    (target : String) (shard : Shard) {ds : Dict String VectorRecord} {entries : List Text}
    (hfinds : Finds X ds entries result) (hfin : ∀ r ∈ result.records, r.Finite) {e : ShardExport}
    (he : e.records = result.records.map D.doc) (hdel : e.deletedIds = result.deletedIds) :
    Proc.Sat (importShard X env target shard e) d (fun _ => True) fun d' r =>
      ((∀ i, (env i).fault = none) → r = .ok ()) ∧
      (r = .ok () → ∃ found durable, Recovers X result.records result.deletedIds
        (d' target shard.id) found durable ∧
        ((importTimes X env e).Nodup → durable.values.Perm (result.records.map D.stored))) := by
  obtain ⟨todo, hperm, htodo⟩ := uploads_eq e he
  have hfin' : ∀ r ∈ todo, r.Finite := fun r hr => hfin r (hperm.mem_iff.mp hr)
  have hn : (todo.map idOf).Nodup := (hperm.map idOf).nodup_iff.mpr hfinds.nodup
  have hdis : ∀ r ∈ todo, idOf r ∉ result.deletedIds :=
    fun r hr => hfinds.not_deleted (hperm.mem_iff.mp hr)
  have hdeleted : e.deletedIds.insertionSort (· ≤ ·) = result.deletedIds := by
    rw [hdel]
    exact List.Pairwise.insertionSort_eq hfinds.sorted
  refine (sat_importShard env target shard e htodo hfin').mono (fun _ _ => trivial) fun d' r h =>
    ⟨h.1, fun hok => ?_⟩
  obtain ⟨seg, himp⟩ := h.2 hok
  rw [hdeleted] at himp
  obtain ⟨found, durable, hrec, hdurable⟩ :=
    himp.recovers hX hB hfin' hn hdis hfinds.deleted_ne hfinds.sorted hfinds.distinct
  refine ⟨found, durable, ⟨hrec.recovered, hrec.durable, hrec.records.trans (hperm.map _),
    hrec.deleted⟩, fun ht => ?_⟩
  exact (hdurable (kept_of_importTimes htodo hn himp ht)).trans (hperm.map _)

theorem verifyShard_eq {root : Root} {records : List VectorRecord} {deleted : List String}
    {durable : Dict String VectorRecord} (hB : X.ByName) (D : Documents X)
    (hn : (records.map idOf).Nodup) (hroot : d target shard.id = root)
    (h : Recovers X records deleted root result durable)
    (hd : durable.values.Perm (records.map D.stored)) :
    verifyShard X target shard (some (computeDigest X records deleted)) d =
      ⟨[], d, .ok (computeDigest X records deleted)⟩ := by
  have hdigests := h.digests
  rw [h.deleted, computeDigest_perm (f := VectorRecord.sorted) (fun _ => rfl) hB.dump hn h.records,
    computeDigest_perm D.idOf_stored (D.dump_stored hB) hn hd] at hdigests
  simp only [verifyShard, Bind.bind, Proc.bind, Proc.get, hroot, hdigests, ne_eq, not_true_eq_false,
    or_self, if_false]
  rfl

theorem finds_of_recoverRoot {root : Root} (h : recoverRoot X root = .ok (log, store, result)) :
    ∃ ds, Finds X ds root.wal result := by
  rcases hds : (SegmentStore.init 10000 root.hot root.cold).durableRecordsById X with exc | ds
  · rw [recoverRoot, recover, hds] at h
    cases h
  · obtain ⟨result', hr, hfinds⟩ := recover_finds hds root.wal
    rw [recoverRoot] at h
    rw [h] at hr
    cases hr
    exact ⟨ds, hfinds⟩

/-- Export and import preserve a shard, whatever the log and the SSTables of the source and the
directory of the target: the export is read back, the import does not raise if nothing goes wrong
with the files, it leaves the source as it was, recovery over the target finds the records and the
tombstones of the source, and the export's digest is verified where no flush of the import had the
time of another. -/
theorem export_import (hX : X.Lawful) (hB : X.ByName) (env : Nat → FlushEnv)
    {source target : String} (hne : source ≠ target) (shard : Shard) (d : Disks) {log : Log Text}
    {store : SegmentStore} {result : RecoveryResult}
    (hs : recoverRoot X (d source shard.id) = .ok (log, store, result))
    (hfin : ∀ r ∈ result.records, r.Finite) :
    ∃ e received, exportShard X source shard d = ⟨[], d, .ok e⟩ ∧
      ShardExport.deserialize e.serialize = some received ∧
      let imported := importShard X env target shard received d
      imported.final source shard.id = d source shard.id ∧
      ((∀ i, (env i).fault = none) → imported.result = .ok ()) ∧
      (imported.result = .ok () →
        (∃ log' store' result', recoverRoot X (imported.final target shard.id) =
          .ok (log', store', result') ∧
          result'.records.Perm (result.records.map VectorRecord.sorted) ∧
          result'.deletedIds = result.deletedIds) ∧
        ((importTimes X env received).Nodup →
          verifyShard X target shard (some e.digest) imported.final =
            ⟨[], imported.final, .ok e.digest⟩)) := by
  obtain ⟨ds, hfinds⟩ := finds_of_recoverRoot hs
  let received : ShardExport :=
    { exportOf X shard result with records := (exportOf X shard result).records.map Json.sortKeys }
  have hrecords : received.records = result.records.map (Documents.sent hB).doc := List.map_map
  have hdeleted : received.deletedIds = result.deletedIds :=
    List.Pairwise.insertionSort_eq hfinds.sorted
  have himport :=
    (sat_import (d := d) hX hB (.sent hB) env target shard hfinds hfin hrecords hdeleted).2
  refine ⟨exportOf X shard result, received, exportShard_eq hs, ShardExport.deserialize_serialize _,
    ?_, himport.1, fun hok => ?_⟩
  · exact (writesAt_importShard env received rfl (OnlyAt.refl d)).2 _ _ fun h => hne h.1
  · obtain ⟨found, durable, hrec, hdurable⟩ := himport.2 hok
    obtain ⟨log', store', hfound⟩ := hrec.recovered
    refine ⟨⟨log', store', found, hfound, hrec.records, hrec.deleted⟩, fun ht => ?_⟩
    exact verifyShard_eq hB (.sent hB) hfinds.nodup rfl hrec (hdurable ht)

/-- A record on the source, whose metadata is not in the order of the names. -/
private def onSource : VectorRecord := unitRecord zeroId [("b", .int 1), ("a", .null)]

/-- A record and a tombstone in the log of the source, and something else in that of every other
node. -/
private def toCopy : Disks := fun node _ =>
  if node = "n0" then ⟨[some (named.modelDumpJson onSource), deletePayload "gone"], ∅, ∅⟩
    else ⟨[deletePayload "old"], ∅, ∅⟩

private theorem toCopy_recovers : ∃ log store, recoverRoot named (toCopy "n0" "s") =
    .ok (log, store, ⟨[onSource], ["gone"], 1, 2⟩) := by
  have hdurable : (SegmentStore.init 10000 (∅ : Dict String (List Text)) ∅).durableRecordsById
      named = .ok ∅ := rfl
  have hreplay : [some (named.modelDumpJson onSource), deletePayload "gone"].foldl
      (Replay.entry named) ⟨∅, ∅⟩ =
      ⟨((∅ : Dict String VectorRecord).set zeroId.text onSource).pop "gone",
        PySet.add (PySet.discard ∅ zeroId.text) "gone"⟩ := by
    simp only [List.foldl_cons, List.foldl_nil, Replay.entry,
      parse_dump named_lawful (by decide : onSource.Finite), parse_delete (by decide : "gone" ≠ "")]
    rfl
  have hroot : toCopy "n0" "s" = ⟨[some (named.modelDumpJson onSource), deletePayload "gone"],
      ∅, ∅⟩ := if_pos rfl
  rw [hroot, recoverRoot, recover, hdurable]
  simp only [Log.readAll, Log.flush, Log.init, List.append_nil, hreplay]
  exact ⟨_, _, rfl⟩

theorem export_import_toN1 :
    ∃ e received, exportShard named "n0" ⟨"s", "ns", "n0", .active, 0, 10, [], 1⟩ toCopy =
    ⟨[], toCopy, .ok e⟩ ∧ ShardExport.deserialize e.serialize = some received ∧
      let imported := importShard named (fun _ => ⟨1, 1, none⟩) "n1"
        ⟨"s", "ns", "n0", .active, 0, 10, [], 1⟩ received toCopy
      imported.final "n0" "s" = toCopy "n0" "s" ∧
      ((∀ i, ((fun _ => ⟨1, 1, none⟩ : Nat → FlushEnv) i).fault = none) →
        imported.result = .ok ()) ∧
      (imported.result = .ok () →
        (∃ log' store' result', recoverRoot named (imported.final "n1" "s") =
          .ok (log', store', result') ∧
          result'.records.Perm ([onSource].map VectorRecord.sorted) ∧
          result'.deletedIds = ["gone"]) ∧
        ((importTimes named (fun _ => ⟨1, 1, none⟩) received).Nodup →
          verifyShard named "n1" ⟨"s", "ns", "n0", .active, 0, 10, [], 1⟩ (some e.digest)
            imported.final =
            ⟨[], imported.final, .ok e.digest⟩)) := by
  obtain ⟨log, store, hs⟩ := toCopy_recovers
  refine export_import named_lawful named_byName _ (by decide : "n0" ≠ "n1") _ toCopy hs
    fun r hr => ?_
  rw [List.mem_singleton.mp hr]
  decide

end ShardTransferProvider

end

end Vsector.Sharding
