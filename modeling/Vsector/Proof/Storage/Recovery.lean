import Vsector.Proof.Storage.Segments

/-!
# What recovery restores

Replaying a log over the SSTables leaves, for every id, what the last entry
about it says (`replay_ok`). `recover` puts a record back into the memtable
only where its version or checksum differ from the SSTables' record of its
id, so a store it has prepared serves the SSTables' record in its place where
they agree (`restored`, `recover_ok`).
-/

namespace Vsector.Storage

open Framework Models

variable {X : Externals}

/-- The id an entry is about. -/
def Op.id : Op → String
  | .upsert rec => idOf rec
  | .delete id => id

/-! ## Payloads -/

theorem parse_dump (hX : X.Lawful) {r : VectorRecord} (h : r.Finite) :
    parsePayload X (some (X.modelDumpJson r)) = some (.upsert r) := by
  simp [parsePayload, hX.dump_obj, hX.dump_op, hX.validate_dump r h]

/-- The log entry of a record is about no other id, whether or not it can be read back. -/
theorem id_of_parse_dump (hX : X.Lawful) {r : VectorRecord} {op : Op}
    (h : parsePayload X (some (X.modelDumpJson r)) = some op) : op.id = idOf r := by
  simp only [parsePayload, hX.dump_obj, hX.dump_op, not_true_eq_false, if_false, Option.any_none,
    Bool.false_eq_true, Option.map_eq_some_iff] at h
  obtain ⟨r', hr', rfl⟩ := h
  rw [Op.id, idOf, hX.validate_id r r' hr']

theorem parse_delete {id : String} (h : id ≠ "") :
    parsePayload X (deletePayload id) = some (.delete id) := by
  simp [parsePayload, deletePayload, Json.isObj, Json.get?, Json.isStr, List.lookup, h]

theorem parse_delete_empty : parsePayload X (deletePayload "") = none := by
  simp [parsePayload, deletePayload, Json.isObj, Json.get?, Json.isStr, List.lookup]

theorem parse_delete_ne {payload : Text} {id : String}
    (h : parsePayload X payload = some (.delete id)) : id ≠ "" := by
  have hmap : ∀ {o : Option VectorRecord}, o.map Op.upsert ≠ some (.delete id) := by
    intro o ho
    obtain ⟨r, -, hr⟩ := Option.map_eq_some_iff.mp ho
    cases hr
  unfold parsePayload at h
  split at h
  · cases h
  · split at h
    · cases h
    · split at h
      · split at h
        · split at h
          · rename_i hid
            cases h
            exact hid
          · cases h
        · cases h
      · split at h
        · split at h
          · split at h
            · exact absurd h hmap
            · cases h
          · cases h
        · exact absurd h hmap

/-! ## Replay -/

/-- The last entry of a log about an id, entries that do not parse left out. -/
def lastOp (X : Externals) (entries : List Text) (id : String) : Option Op :=
  Layers.last Op.id (entries.filterMap (parsePayload X)) id

theorem id_of_lastOp {entries : List Text} {id : String} {op : Op}
    (h : lastOp X entries id = some op) : op.id = id :=
  Layers.key_of_last h

theorem lastOp_append (entries : List Text) (payload : Text) (id : String) :
    lastOp X (entries ++ [payload]) id =
      match parsePayload X payload with
      | some op => if op.id = id then some op else lastOp X entries id
      | none => lastOp X entries id := by
  rw [lastOp, List.filterMap_append]
  cases hp : parsePayload X payload with
  | none => simp [hp, lastOp]
  | some op => simp [hp, lastOp, Layers.last_append_singleton]

/-- The record of an id after a replay, over the SSTables' record. -/
def current (last : Option Op) (durable : Option VectorRecord) : Option VectorRecord :=
  match last with
  | some (.upsert r) => some r
  | some (.delete _) => none
  | none => durable

def isDelete : Option Op → Bool
  | some (.delete _) => true
  | _ => false

theorem lastOp_delete_ne {entries : List Text} {id : String}
    (h : isDelete (lastOp X entries id) = true) : id ≠ "" := by
  cases hl : lastOp X entries id with
  | none =>
    rw [hl] at h
    cases h
  | some op =>
    rw [hl] at h
    cases op with
    | upsert r => cases h
    | delete a =>
      have hid : a = id := id_of_lastOp hl
      obtain ⟨payload, -, hp⟩ := List.mem_filterMap.mp (List.mem_reverse.mp (Layers.mem_of_find hl))
      exact hid ▸ parse_delete_ne hp

theorem replay_ops (d : Dict String VectorRecord) (ops : List Op) (id : String) :
    (ops.foldl Replay.apply ⟨d, ∅⟩).records.get? id =
      current (Layers.last Op.id ops id) (d.get? id) ∧
      (ops.foldl Replay.apply ⟨d, ∅⟩).tombstones.has id = isDelete (Layers.last Op.id ops id) := by
  induction ops using List.reverseRecOn with
  | nil => exact ⟨rfl, rfl⟩
  | append_singleton ops op ih =>
    rw [List.foldl_append, List.foldl_cons, List.foldl_nil, Layers.last_append_singleton]
    cases op with
    | upsert rec =>
      simp only [Replay.apply, Dict.get?_set, PySet.has_discard, Op.id]
      by_cases h : id = idOf rec
      · subst h; simp [current, isDelete]
      · simp [h, Ne.symm h, ih]
    | delete a =>
      simp only [Replay.apply, Dict.get?_pop, PySet.has_add, Op.id]
      by_cases h : id = a
      · subst h; simp [current, isDelete]
      · simp [h, Ne.symm h, ih]

theorem replay_ok (d : Dict String VectorRecord) (entries : List Text) (id : String) :
    (entries.foldl (Replay.entry X) ⟨d, ∅⟩).records.get? id =
      current (lastOp X entries id) (d.get? id) ∧
      (entries.foldl (Replay.entry X) ⟨d, ∅⟩).tombstones.has id =
        isDelete (lastOp X entries id) := by
  have : entries.foldl (Replay.entry X) ⟨d, ∅⟩ = (entries.filterMap (parsePayload X)).foldl
      Replay.apply ⟨d, ∅⟩ := by
    rw [List.foldl_filterMap]
    congr 1
    funext s e
    rw [Replay.entry]
    cases parsePayload X e <;> rfl
  rw [this]
  exact replay_ops d _ id

/-- A replay over records under their own ids leaves records under their own ids. -/
theorem replay_keyed {d : Dict String VectorRecord} (hd : ∀ id r, d.get? id = some r → idOf r = id)
    (entries : List Text) :
    ∀ id r, (entries.foldl (Replay.entry X) ⟨d, ∅⟩).records.get? id = some r → idOf r = id := by
  intro id r hr
  rw [(replay_ok d entries id).1] at hr
  cases hl : lastOp X entries id with
  | none =>
    rw [hl] at hr
    exact hd id r hr
  | some op =>
    rw [hl] at hr
    cases op with
    | upsert r' =>
      cases hr
      exact id_of_lastOp hl
    | delete a => cases hr

/-- What a store prepared by `recover` serves for an id with current record `cur`, where the
SSTables have `durable`. -/
def restored (cur durable : Option VectorRecord) : Option VectorRecord :=
  match cur with
  | some r => if needsPut durable r then some r else durable
  | none => durable

theorem foldl_put (m : MemTable) (rs : List VectorRecord) :
    rs.foldl MemTable.put m = { m with data := Layers.setAll idOf m.data rs } := by
  induction rs generalizing m with
  | nil => rfl
  | cons r rs ih => rw [List.foldl_cons, ih]; rfl

/-- What `recover` leaves of a store over `tables` and a log of `entries`: the memtable and the
result. -/
structure Recovered (X : Externals) (s : SegmentStore) (tables : List (List VectorRecord))
    (entries : List Text) (m : MemTable) (result : RecoveryResult) : Prop where
  reads : Reads X { s with memtable := m } tables
  threshold : m.flushThreshold = s.memtable.flushThreshold
  served : ∀ id, served { s with memtable := m } tables id =
    restored (current (lastOp X entries id) (Layers.newest idOf tables id))
      (Layers.newest idOf tables id)
  records : ∀ id, Layers.find idOf result.records id =
    current (lastOp X entries id) (Layers.newest idOf tables id)
  nodup : (result.records.map idOf).Nodup
  deleted : ∀ id, id ∈ result.deletedIds ↔ isDelete (lastOp X entries id) = true

theorem recover_ok {s : SegmentStore} {tables : List (List VectorRecord)} (h : Reads X s tables)
    (hm : s.memtable.data = ∅) (wal : Log Text) :
    ∃ m result, recover X wal s = .ok (wal.flush, { s with memtable := m }, result) ∧
      Recovered X s tables wal.flush.durable m result := by
  obtain ⟨d, hd, hget, hkey⟩ := h.durable_eq
  let replay := wal.flush.durable.foldl (Replay.entry X) ⟨d, ∅⟩
  have hrec : ∀ id, replay.records.get? id =
      current (lastOp X wal.flush.durable id) (Layers.newest idOf tables id) := fun id => by
    rw [← hget]; exact (replay_ok d _ id).1
  have hrkey := replay_keyed (X := X) hkey wal.flush.durable
  let recovered := (replay.records.entries.filter fun entry =>
    needsPut (d.get? entry.1) entry.2).map Prod.snd
  have hnodup : (recovered.map idOf).Nodup :=
    (Layers.nodup_values hrkey).sublist ((List.filter_sublist.map _).map idOf)
  let result : RecoveryResult :=
    { records := replay.records.values
      deletedIds := (Dict.keys replay.tombstones).insertionSort (· ≤ ·)
      recoveredFromWal := recovered.length
      walEntriesRead := wal.flush.durable.length }
  refine ⟨recovered.foldl MemTable.put s.memtable, result, ?_, ?_,
    by rw [foldl_put], fun id => ?_, fun id => ?_, Layers.nodup_values hrkey, fun id => ?_⟩
  · simp only [recover, hd]
    rfl
  · refine ⟨h.scan, h.nodup, h.files, ?_⟩
    rw [foldl_put, hm]
    exact Layers.keyed_setAll (fun _ _ h => by cases h) recovered
  · rw [served, MemTable.get, foldl_put, hm]
    simp only [Layers.get?_setAll hnodup, Dict.get?_empty, Option.or_none]
    rw [Layers.find_filter_values hrkey, hrec]
    cases current (lastOp X wal.flush.durable id) (Layers.newest idOf tables id) with
    | none => rfl
    | some r =>
      simp only [restored, Option.filter, hget]
      by_cases hp : needsPut (Layers.newest idOf tables id) r <;> simp [hp]
  · exact (Layers.find_values hrkey id).trans (hrec id)
  · rw [List.mem_insertionSort, ← PySet.has_iff_mem_keys, (replay_ok d _ id).2]

end Vsector.Storage
