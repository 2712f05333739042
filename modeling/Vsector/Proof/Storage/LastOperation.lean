import Vsector.Framework.Run
import Vsector.Proof.Models.Documents
import Vsector.Proof.Storage.Recovery

/-!
# The last operation wins

A log and a segment store that are written together, flushed at any time and
under any name, and recovered any number of times: the log has every
operation, and the SSTables only have records of ids the log has (`Logged`,
`logged_step`). So recovery finds for every id what the last operation on it
says, whatever was flushed (`recovers_last_operation`), as long as every
record is one of finite floats. A float that is not finite is written as
`null`, and the entry of its record is skipped (`nan_record_not_recovered`).
-/

namespace Vsector.Storage

open Framework Models

variable {X : Externals}

/-! ## Runs -/

/-- The log and the segment store of a shard. -/
structure Store where
  wal : Log Text
  segments : SegmentStore

/-- What happens to a shard's storage: acknowledged operations, memtable flushes, and crashes or
restarts. -/
inductive StoreOp where
  | upsert (record : VectorRecord) (env : FlushEnv)
  | delete (id : String)
  | flush (env : FlushEnv)
  | reopen (memtableThreshold : Nat)

/-- `recover` over what the directories hold. -/
def Store.recover (X : Externals) (s : Store) (memtableThreshold : Nat) :
    Except Exc (Log Text × SegmentStore × RecoveryResult) :=
  Storage.recover X (.init s.wal.durable) (.init memtableThreshold s.segments.hot s.segments.cold)

/-- The storage after an operation, its log flushed; `none` where the operation raises. -/
def storeStep (X : Externals) (s : Store) : StoreOp → Option Store
  | .upsert record env =>
    match s.segments.put X record env with
    | (segments, .ok ()) => some ⟨(s.wal.append (some (X.modelDumpJson record))).flush, segments⟩
    | (_, .error _) => none
  | .delete id =>
    match s.segments.get X id with
    | .ok rec =>
      let segments :=
        if rec.isSome then { s.segments with memtable := s.segments.memtable.delete id }
          else s.segments
      some ⟨(s.wal.append (deletePayload id)).flush, segments⟩
    | .error _ => none
  | .flush env =>
    match s.segments.flush X env with
    | (segments, .ok _) => some { s with segments := segments }
    | (_, .error _) => none
  | .reopen memtableThreshold =>
    match s.recover X memtableThreshold with
    | .ok (wal, segments, _) => some ⟨wal, segments⟩
    | .error _ => none

/-- What an operation does to an id. -/
def StoreOp.op? : StoreOp → Option Op
  | .upsert record _ => some (.upsert record)
  | .delete id => some (.delete id)
  | .flush _ => none
  | .reopen _ => none

/-- The last of the operations on an id. -/
def lastOperation (ops : List StoreOp) (id : String) : Option Op :=
  Layers.last Op.id (ops.filterMap StoreOp.op?) id

/-- The condition on an operation: records have finite floats, and what is deleted has an id. -/
def StoreOk (_ : Store) : StoreOp → Prop
  | .upsert record _ => record.Finite
  | .delete id => id ≠ ""
  | .flush _ => True
  | .reopen _ => True

instance (s : Store) (op : StoreOp) : Decidable (StoreOk s op) := by
  cases op <;> rw [StoreOk] <;> infer_instance

/-! ## The invariant -/

/-- A file of finite records of ids with an operation. -/
def FileOf (X : Externals) (last : String → Option Op) (lines : List Text) : Prop :=
  ∃ records, (lines.mapM fun line => line.bind X.modelValidateJson) = some records ∧
    (records.map idOf).Nodup ∧
    ∀ r ∈ records, r.Finite ∧ (last (idOf r)).isSome

/-- The log has the last operation of every id; the SSTables and the memtable have finite records
of such ids. -/
structure Logged (X : Externals) (s : Store) (last : String → Option Op) : Prop where
  log : ∀ id, lastOp X s.wal.durable id = last id
  buffer : s.wal.buffer = []
  finite : ∀ id r, last id = some (.upsert r) → r.Finite
  hot : ∀ name lines, s.segments.hot.get? name = some lines → FileOf X last lines
  cold : s.segments.cold = ∅
  files : ∀ t ∈ s.segments.sstables, (s.segments.file t).isSome
  memtable : ∀ id r, s.segments.memtable.data.get? id = some r →
    idOf r = id ∧ r.Finite ∧ (last id).isSome

variable {s s' : Store} {last : String → Option Op}

theorem Logged.scan (h : Logged X s last) {t : SSTable} (ht : t ∈ s.segments.sstables) :
    ∃ records, s.segments.scan X t = .ok records ∧ (records.map idOf).Nodup ∧
      ∀ r ∈ records, r.Finite ∧ (last (idOf r)).isSome := by
  obtain ⟨lines, hl⟩ := Option.isSome_iff_exists.mp (h.files t ht)
  have hfile : FileOf X last lines := by
    simp only [SegmentStore.file] at hl
    cases htier : t.tier with
    | hot => rw [htier] at hl; exact h.hot _ _ hl
    | cold => rw [htier, h.cold] at hl; cases hl
  obtain ⟨records, hm, hn, hr⟩ := hfile
  exact ⟨records, by simp only [SegmentStore.scan, hl, hm], hn, hr⟩

/-- The tables can be read, and have records of ids with an operation only. -/
theorem Logged.reads (h : Logged X s last) : ∃ tables, Reads X s.segments tables ∧
    ∀ records ∈ tables, ∀ r ∈ records, r.Finite ∧ (last (idOf r)).isSome := by
  have hts : ∀ ts : List SSTable, (∀ t ∈ ts, t ∈ s.segments.sstables) → ∃ tables,
      List.Forall₂ (fun t records => s.segments.scan X t = .ok records) ts tables ∧
      ∀ records ∈ tables, (records.map idOf).Nodup ∧ ∀ r ∈ records, r.Finite ∧
        (last (idOf r)).isSome := by
    intro ts
    induction ts with
    | nil => exact fun _ => ⟨[], .nil, fun _ h => absurd h List.not_mem_nil⟩
    | cons t ts ih =>
      intro hmem
      obtain ⟨records, hs, hr⟩ := h.scan (hmem t List.mem_cons_self)
      obtain ⟨tables, hf, ht⟩ := ih fun t' ht' => hmem t' (List.mem_cons_of_mem _ ht')
      refine ⟨records :: tables, .cons hs hf, fun rs hrs => ?_⟩
      rcases List.mem_cons.mp hrs with rfl | hrs
      · exact hr
      · exact ht rs hrs
  obtain ⟨tables, hf, ht⟩ := hts s.segments.sstables.reverse fun t ht => List.mem_reverse.mp ht
  exact ⟨tables, ⟨hf, fun rs hrs => (ht rs hrs).1, h.files, fun id r hr => (h.memtable id r hr).1⟩,
    fun rs hrs => (ht rs hrs).2⟩

/-- One more operation, whose entry is added to the log. -/
theorem FileOf.mono {last' : String → Option Op} {lines : List Text} (h : FileOf X last lines)
    (hl : ∀ id, (last id).isSome → (last' id).isSome) : FileOf X last' lines := by
  obtain ⟨records, hm, hn, hr⟩ := h
  exact ⟨records, hm, hn, fun r hrm => ⟨(hr r hrm).1, hl _ (hr r hrm).2⟩⟩

theorem fileOf_dump (hX : X.Lawful) {records : List VectorRecord} (hn : (records.map idOf).Nodup)
    (hr : ∀ r ∈ records, r.Finite ∧ (last (idOf r)).isSome) :
    FileOf X last (records.map fun r => some (X.modelDumpJson r)) :=
  ⟨records, mapM_dump hX fun r h => (hr r h).1, hn, hr⟩

/-- A memtable flush, under any name. -/
theorem Logged.flush (hX : X.Lawful) (h : Logged X s last) {env : FlushEnv}
    {segments : SegmentStore} {t : Option SSTable}
    (hf : s.segments.flush X env = (segments, .ok t)) :
    Logged X { s with segments := segments } last := by
  rw [SegmentStore.flush] at hf
  split at hf
  · cases hf; exact h
  · cases hfault : env.fault with
    | some fault => rw [hfault] at hf; cases hf
    | none =>
      rw [hfault] at hf
      cases hf
      have hfile : FileOf X last (s.segments.memtable.data.values.map fun r =>
          some (X.modelDumpJson r)) := by
        refine fileOf_dump hX (Layers.nodup_values fun id r hr => (h.memtable id r hr).1)
          fun r hr => ?_
        obtain ⟨id, hid⟩ := Dict.mem_values.mp hr
        obtain ⟨rfl, hfin, hs⟩ := h.memtable id r hid
        exact ⟨hfin, hs⟩
      refine ⟨h.log, h.buffer, h.finite, fun name lines hl => ?_, h.cold, fun t ht =>
        ?_, fun id r hr => by cases hr⟩
      · simp only [Dict.get?_set] at hl
        split at hl
        · cases hl; exact hfile
        · exact h.hot name lines hl
      · rcases List.mem_append.mp ht with ht | ht
        · have hold := h.files t ht
          simp only [SegmentStore.file] at hold ⊢
          cases htier : t.tier with
          | hot =>
            simp only [htier] at hold ⊢
            rw [Dict.get?_set]
            split
            · rfl
            · exact hold
          | cold => simpa only [htier] using hold
        · rw [List.mem_singleton.mp ht]
          simp only [SegmentStore.file, Dict.get?_set_self, Option.isSome_some]

/-- A record in the memtable, and its entry in the log. -/
theorem Logged.put (hX : X.Lawful) (h : Logged X s last) {r : VectorRecord} (hr : r.Finite)
    {env : FlushEnv} {segments : SegmentStore} (hp : s.segments.put X r env = (segments, .ok ())) :
    Logged X ⟨(s.wal.append (some (X.modelDumpJson r))).flush, segments⟩
      fun id => if idOf r = id then some (.upsert r) else last id := by
  have hmono : ∀ id, (last id).isSome →
      (if idOf r = id then some (Op.upsert r) else last id).isSome := by
    intro id hid
    split
    · rfl
    · exact hid
  have hmid : Logged X
      ⟨(s.wal.append (some (X.modelDumpJson r))).flush,
        { s.segments with memtable := s.segments.memtable.put r }⟩
      fun id => if idOf r = id then some (.upsert r) else last id := by
    refine ⟨fun id => ?_, rfl, fun id r' hr' => ?_, fun name lines hl =>
      (h.hot name lines hl).mono hmono, h.cold, h.files, fun id r' hr' => ?_⟩
    · simp only [Log.append, Log.flush, h.buffer, List.nil_append]
      rw [lastOp_append, parse_dump hX hr, h.log]
      rfl
    · split at hr'
      · cases hr'; exact hr
      · exact h.finite id r' hr'
    · simp only [MemTable.put, Dict.get?_set] at hr'
      split at hr'
      · rename_i hid
        cases hr'
        exact ⟨hid.symm, hr, by rw [if_pos hid.symm]; rfl⟩
      · obtain ⟨hid, hfin, hs⟩ := h.memtable id r' hr'
        exact ⟨hid, hfin, hmono id hs⟩
  simp only [SegmentStore.put] at hp
  split at hp
  · cases hf : SegmentStore.flush X { s.segments with
      memtable := s.segments.memtable.put r } env with
    | mk segments' result =>
      cases result with
      | error e => rw [hf] at hp; cases hp
      | ok t =>
        rw [hf] at hp
        cases hp
        exact hmid.flush hX hf
  · cases hp; exact hmid

/-- A deletion, and its entry in the log. -/
theorem Logged.delete (h : Logged X s last) {id : String} (hid : id ≠ "") {segments : SegmentStore}
    (hs : segments = s.segments ∨
      segments = { s.segments with memtable := s.segments.memtable.delete id }) :
    Logged X ⟨(s.wal.append (deletePayload id)).flush, segments⟩
      fun a => if id = a then some (.delete id) else last a := by
  have hmono : ∀ a, (last a).isSome → (if id = a then some (Op.delete id) else last a).isSome := by
    intro a ha
    split
    · rfl
    · exact ha
  have hfiles : segments.hot = s.segments.hot ∧ segments.cold = s.segments.cold ∧
      segments.sstables = s.segments.sstables := by
    rcases hs with rfl | rfl <;> exact ⟨rfl, rfl, rfl⟩
  have hmem : ∀ a r, segments.memtable.data.get? a = some r →
      s.segments.memtable.data.get? a = some r := by
    intro a r hr
    rcases hs with rfl | rfl
    · exact hr
    · simp only [MemTable.delete, Dict.get?_pop] at hr
      split at hr
      · cases hr
      · exact hr
  refine ⟨fun a => ?_, rfl, fun a r hr => ?_, fun name lines hl =>
    ?_, by rw [hfiles.2.1]; exact h.cold, fun t ht => ?_, fun a r hr => ?_⟩
  · simp only [Log.append, Log.flush, h.buffer, List.nil_append]
    rw [lastOp_append, parse_delete hid, h.log]
    rfl
  · split at hr
    · cases hr
    · exact h.finite a r hr
  · rw [hfiles.1] at hl
    exact (h.hot name lines hl).mono hmono
  · rw [hfiles.2.2] at ht
    have hold := h.files t ht
    simp only [SegmentStore.file] at hold ⊢
    rw [hfiles.1, hfiles.2.1]
    exact hold
  · obtain ⟨ha, hfin, hlast⟩ := h.memtable a r (hmem a r hr)
    exact ⟨ha, hfin, hmono a hlast⟩

/-! ## Recovery -/

/-- What recovery finds over such storage, and the storage it leaves. -/
theorem Logged.recover (h : Logged X s last) (memtableThreshold : Nat) :
    ∃ wal segments result, s.recover X memtableThreshold = .ok (wal, segments, result) ∧
      Logged X ⟨wal, segments⟩ last ∧
      (∀ id, Layers.find idOf result.records id = current (last id) none) ∧
      (result.records.map idOf).Nodup ∧
      ∀ id, id ∈ result.deletedIds ↔ isDelete (last id) = true := by
  let init := SegmentStore.init memtableThreshold s.segments.hot s.segments.cold
  have hinit : Logged X ⟨.init s.wal.durable, init⟩ last := by
    refine ⟨h.log, rfl, h.finite, h.hot, h.cold, fun t ht => ?_, fun id r hr => by cases hr⟩
    rcases List.mem_append.mp ht with ht | ht
    · obtain ⟨name, hn, rfl⟩ := List.mem_map.mp ht
      exact Dict.mem_keys.mp ((List.mem_insertionSort _).mp hn)
    · obtain ⟨name, hn, rfl⟩ := List.mem_map.mp ht
      exact Dict.mem_keys.mp ((List.mem_insertionSort _).mp hn)
  obtain ⟨tables, hreads, htables⟩ := hinit.reads
  obtain ⟨m, result, hrec, hR⟩ := recover_ok hreads rfl (Log.init s.wal.durable)
  have hdurable : (Log.init s.wal.durable).flush.durable = s.wal.durable := List.append_nil _
  have hnewest : ∀ id r, Layers.newest idOf tables id = some r → r.Finite ∧ (last id).isSome := by
    intro id r hr
    obtain ⟨t, ht, hm⟩ := Layers.mem_of_newest hr
    have := htables t ht r hm
    rwa [show idOf r = id from Layers.key_of_newest hr] at this
  have hcur : ∀ id, current (last id) (Layers.newest idOf tables id) = current (last id) none := by
    intro id
    cases hl : last id with
    | none =>
      cases hn : Layers.newest idOf tables id with
      | none => rfl
      | some r => exact absurd (hnewest id r hn).2 (by rw [hl]; exact Bool.false_ne_true)
    | some op => cases op <;> rfl
  refine ⟨_, _, result, hrec, ⟨?_, rfl, h.finite, h.hot, h.cold, hinit.files, fun id r hr =>
    ?_⟩, fun id => ?_, hR.nodup, fun id => ?_⟩
  · rw [hdurable]; exact h.log
  · have hserved := hR.served id
    rw [hdurable, h.log, hcur] at hserved
    have hget : served { init with memtable := m } tables id = some r := by
      rw [served, MemTable.get, show m.data.get? id = some r from hr]; rfl
    rw [hget] at hserved
    have hkey : idOf r = id := hR.reads.keyed id r hr
    have hdur : ∀ r, Layers.newest idOf tables id = some r →
        r.Finite ∧ (last id).isSome := hnewest id
    cases hl : last id with
    | none =>
      rw [hl] at hserved; exact absurd (hdur r hserved.symm).2
        (by rw [hl]; exact Bool.false_ne_true)
    | some op =>
      refine ⟨hkey, ?_, rfl⟩
      rw [hl] at hserved
      cases op with
      | upsert r' =>
        simp only [current, restored] at hserved
        split at hserved
        · cases hserved; exact h.finite id r hl
        · exact (hdur r hserved.symm).1
      | delete a => exact (hdur r hserved.symm).1
  · rw [hR.records, hdurable, h.log, hcur]
  · rw [hR.deleted, hdurable, h.log]

/-- The records found are those of the ids whose last operation is an upsert. -/
theorem mem_recovered {records : List VectorRecord} (hn : (records.map idOf).Nodup)
    (hfind : ∀ id, Layers.find idOf records id = current (last id) none) (r : VectorRecord) :
    r ∈ records ↔ last (idOf r) = some (.upsert r) := by
  constructor
  · intro hm
    have hf := Layers.find_of_mem hn hm
    rw [hfind] at hf
    cases hl : last (idOf r) with
    | none => rw [hl] at hf; cases hf
    | some op =>
      rw [hl] at hf
      cases op with
      | upsert r' => cases hf; rfl
      | delete a => cases hf
  · intro hl
    have hf : Layers.find idOf records (idOf r) = some r := by rw [hfind, hl]; rfl
    exact Layers.mem_of_find hf

/-! ## Runs -/

theorem logged_step (hX : X.Lawful) {ops : List StoreOp} {op : StoreOp}
    (h : Logged X s (lastOperation ops)) (hc : StoreOk s op) (hs : storeStep X s op = some s') :
    Logged X s' (lastOperation (ops ++ [op])) := by
  have hlast : ∀ o, op.op? = some o →
      lastOperation (ops ++ [op]) = fun id => if o.id = id then some o
        else lastOperation ops id := by
    intro o ho
    funext id
    rw [lastOperation, List.filterMap_append, List.filterMap_cons_some ho, List.filterMap_nil,
      Layers.last_append_singleton]
    rfl
  have hsame : op.op? = none → lastOperation (ops ++ [op]) = lastOperation ops := by
    intro ho
    funext id
    rw [lastOperation, List.filterMap_append, List.filterMap_cons_none ho, List.filterMap_nil,
      List.append_nil]
    rfl
  cases op with
  | upsert r env =>
    rw [hlast _ rfl]
    simp only [storeStep] at hs
    split at hs
    · rename_i segments hp
      cases hs
      exact h.put hX hc hp
    · cases hs
  | delete id =>
    rw [hlast _ rfl]
    simp only [storeStep] at hs
    split at hs
    · rename_i rec _
      cases hs
      cases rec with
      | none => exact h.delete hc (.inl rfl)
      | some r => exact h.delete hc (.inr rfl)
    · cases hs
  | flush env =>
    rw [hsame rfl]
    simp only [storeStep] at hs
    split at hs
    · rename_i hf
      cases hs
      exact h.flush hX hf
    · cases hs
  | reopen threshold =>
    rw [hsame rfl]
    obtain ⟨wal, segments, result, hr, hlog, -⟩ := h.recover threshold
    simp only [storeStep, hr] at hs
    cases hs
    exact hlog

theorem logged_new (threshold : Nat) :
    Logged X ⟨⟨[], []⟩, .init threshold ∅ ∅⟩ (lastOperation []) where
  log _ := rfl
  buffer := rfl
  finite _ _ h := by cases h
  hot _ _ h := by cases h
  cold := rfl
  files _ h := absurd h List.not_mem_nil
  memtable _ _ h := by cases h

/-- After any run of records of finite floats from empty directories, recovery succeeds: its
records are those of the ids whose last operation is an upsert, each once, and its deleted ids
those whose last operation is a deletion. -/
theorem recovers_last_operation (hX : X.Lawful) (threshold : Nat) (ops : List StoreOp) (s : Store)
    (hr : run (storeStep X) ⟨⟨[], []⟩, .init threshold ∅ ∅⟩ ops = some s)
    (hc : Along (storeStep X) StoreOk ⟨⟨[], []⟩, .init threshold ∅ ∅⟩ ops)
    (memtableThreshold : Nat) :
    ∃ wal segments result, s.recover X memtableThreshold = .ok (wal, segments, result) ∧
      (∀ r, r ∈ result.records ↔ lastOperation ops r.id.text = some (.upsert r)) ∧
      (result.records.map fun r => r.id.text).Nodup ∧
      ∀ id, id ∈ result.deletedIds ↔ lastOperation ops id = some (.delete id) := by
  have h : Logged X s (lastOperation ([] ++ ops)) :=
    invariant_history (I := fun ops s => Logged X s (lastOperation ops))
      (fun _ _ _ _ h hc hs => logged_step hX h hc hs) (logged_new threshold) hc hr
  rw [List.nil_append] at h
  obtain ⟨wal, segments, result, hrec, -, hfind, hn, hdel⟩ := h.recover memtableThreshold
  refine ⟨wal, segments, result, hrec, mem_recovered hn hfind, hn, fun id => ?_⟩
  rw [hdel]
  cases hl : lastOperation ops id with
  | none => exact ⟨fun h => absurd h Bool.false_ne_true, fun h => by cases h⟩
  | some op =>
    cases op with
    | upsert r => exact ⟨fun h => absurd h Bool.false_ne_true, fun h => by cases h⟩
    | delete a =>
      have ha : Op.id (.delete a) = id := Layers.key_of_last hl
      have ha : a = id := ha
      exact ⟨fun _ => by rw [ha], fun _ => rfl⟩

section

/-- The storage after a run from empty directories. -/
private def storedAfter (ops : List StoreOp) : Option Store :=
  run (storeStep fieldwise) ⟨⟨[], []⟩, .init 100000 ∅ ∅⟩ ops

private def nanRecord : VectorRecord := unitRecordAt .nan "nan" zeroId []

/-- A record flushed, deleted, recovered, and written again under the name of the same file. -/
theorem recovers_last_operation_rewritten : ∃ s wal segments result,
    storedAfter [.upsert (unitRecord zeroId []) ⟨1, 1, none⟩,
      .upsert (unitRecord oneId []) ⟨1, 1, none⟩,
        .flush ⟨1, 1, none⟩, .delete oneId.text, .delete zeroId.text, .reopen 100000,
        .upsert (unitRecord zeroId [("k", .null)]) ⟨1, 1, none⟩, .flush ⟨1, 1, none⟩] = some s ∧
      s.recover fieldwise 100000 = .ok (wal, segments, result) ∧
      unitRecord zeroId [("k", .null)] ∈ result.records ∧
        oneId.text ∈ result.deletedIds := by
  obtain ⟨wal, segments, result, h, hr, -, hd⟩ := recovers_last_operation fieldwise_lawful 100000
    [.upsert (unitRecord zeroId []) ⟨1, 1, none⟩, .upsert (unitRecord oneId []) ⟨1, 1, none⟩,
      .flush ⟨1, 1, none⟩, .delete oneId.text, .delete zeroId.text, .reopen 100000,
      .upsert (unitRecord zeroId [("k", .null)]) ⟨1, 1, none⟩,
        .flush ⟨1, 1, none⟩] _ rfl (by decide +kernel) 100000
  exact ⟨_, wal, segments, result, rfl, h, (hr _).mpr rfl, (hd _).mpr rfl⟩

/-- The NaN is written as `null`, which is no number: recovery skips the record, and after a
memtable flush it raises. -/
theorem nan_record_not_recovered :
    lastOperation [.upsert nanRecord ⟨1, 1, none⟩] zeroId.text = some (.upsert nanRecord) ∧
      (∃ s wal segments result, storedAfter [.upsert nanRecord ⟨1, 1, none⟩] = some s ∧
        s.recover fieldwise 100000 = .ok (wal, segments, result) ∧ result.records = [] ∧
        result.deletedIds = []) ∧
      ∃ s, storedAfter [.upsert nanRecord ⟨1, 1, none⟩, .flush ⟨1, 1, none⟩] = some s ∧
        s.recover fieldwise 100000 = .error .validationError :=
  ⟨rfl, ⟨_, _, _, _, rfl, rfl, rfl, rfl⟩, _, rfl, rfl⟩

end

end Vsector.Storage
