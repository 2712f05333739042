import Vsector.Impl.Storage.Segment

/-!
# Recovery

`_parse_payload` and `recover` of `storage/recovery.py`, over a log as its
users see it (`Log`): the entries in the order they were appended, those in
the segment files before those still in the buffer.
-/

namespace Vsector.Storage

open Framework Models

/-! ## The log -/

/-- A `WAL`, by the payloads of its entries. -/
structure Log (α : Type) where
  durable : List α
  buffer : List α

namespace Log

variable {α : Type}

/-- `WAL(dir)` over a directory whose segment files hold `durable`. -/
def init (durable : List α) : Log α := ⟨durable, []⟩

def append (l : Log α) (payload : α) : Log α := { l with buffer := l.buffer ++ [payload] }
def flush (l : Log α) : Log α := ⟨l.durable ++ l.buffer, []⟩
def readAll (l : Log α) : Log α × List α := (l.flush, l.flush.durable)

end Log

/-! ## Payloads -/

/-- What `_parse_payload` finds in a payload. -/
inductive Op where
  | upsert (record : VectorRecord)
  | delete (id : String)

/-- `{"__op": "delete", "id": id}`. -/
def deletePayload (id : String) : Text := some (.obj [("__op", .str "delete"), ("id", .str id)])

/-- `_parse_payload`; `none` for an entry that is skipped. -/
def parsePayload (X : Externals) (payload : Text) : Option Op :=
  match payload with
  | none => none
  | some data =>
    if ¬ data.isObj then none
    else if (data.get? "__op").any (Json.isStr "delete") then
      match data.get? "id" with
      | some (.str id) => if id ≠ "" then some (.delete id) else none
      | _ => none
    else if (data.get? "__op").any (Json.isStr "upsert") then
      match data.get? "record" with
      | some record => if record.isObj then (X.modelValidate record).map .upsert else none
      | none => none
    else (X.modelValidate data).map .upsert

/-! ## Replay -/

/-- The records and tombstones of a replay so far. -/
structure Replay where
  records : Dict String VectorRecord
  tombstones : PySet String

def Replay.apply (s : Replay) : Op → Replay
  | .delete id => { records := s.records.pop id, tombstones := s.tombstones.add id }
  | .upsert rec =>
    { records := s.records.set rec.id.text rec, tombstones := s.tombstones.discard rec.id.text }

/-- An entry that does not parse is skipped. -/
def Replay.entry (X : Externals) (s : Replay) (payload : Text) : Replay :=
  match parsePayload X payload with
  | none => s
  | some op => s.apply op

structure RecoveryResult where
  records : List VectorRecord
  deletedIds : List String
  recoveredFromWal : Nat
  walEntriesRead : Nat

/-- Whether `recover` puts a record into the memtable again: the SSTables have no record of its id,
or one of another version or checksum. -/
def needsPut (cached : Option VectorRecord) (rec : VectorRecord) : Bool :=
  match cached with
  | none => true
  | some cached => decide ((cached.version, cached.checksum) ≠ (rec.version, rec.checksum))

/-- `recover`. -/
def recover (X : Externals) (wal : Log Text) (segments : SegmentStore) :
    Except Exc (Log Text × SegmentStore × RecoveryResult) :=
  match segments.durableRecordsById X with
  | .error e => .error e
  | .ok sstable =>
    let (wal, entries) := wal.readAll
    let replay := entries.foldl (Replay.entry X) ⟨sstable, ∅⟩
    let recovered :=
      (replay.records.entries.filter fun entry =>
        needsPut (sstable.get? entry.1) entry.2).map Prod.snd
    .ok
      (wal,
        { segments with memtable := recovered.foldl MemTable.put segments.memtable },
        { records := replay.records.values
          deletedIds := (Dict.keys replay.tombstones).insertionSort (· ≤ ·)
          recoveredFromWal := recovered.length
          walEntriesRead := entries.length })

end Vsector.Storage
