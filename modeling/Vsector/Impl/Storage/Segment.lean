import Vsector.Framework.Dict
import Vsector.Impl.Errors
import Vsector.Impl.Models.VectorRecord

/-!
# The segment store

`MemTable`, `SSTable` and `SegmentStore` of `storage/segment.py`. The S3 tier
is left out.

A method that may raise returns the state it leaves and its result.
-/

namespace Vsector.Storage

open Framework Models

/-- A text: the JSON document it spells, or `none` where it spells none. -/
abbrev Text := Option Json

/-! ## MemTable -/

structure MemTable where
  flushThreshold : Nat
  data : Dict String VectorRecord

namespace MemTable

def put (m : MemTable) (record : VectorRecord) : MemTable :=
  { m with data := m.data.set record.id.text record }
def get (m : MemTable) (id : String) : Option VectorRecord := m.data.get? id
def delete (m : MemTable) (id : String) : MemTable := { m with data := m.data.pop id }
def scan (m : MemTable) : List VectorRecord := m.data.values
def count (m : MemTable) : Nat := m.data.entries.length
def shouldFlush (m : MemTable) : Bool := m.flushThreshold ≤ m.count

def snapshotAndClear (m : MemTable) : List VectorRecord × MemTable :=
  (m.data.values, { m with data := ∅ })

end MemTable

/-! ## SSTable -/

/-- The directories a segment store keeps its files in. -/
inductive Tier where
  | hot
  | cold
deriving DecidableEq

/-- An `SSTable`: the path of its file. -/
structure SSTable where
  tier : Tier
  name : String
deriving DecidableEq

/-- `f"sst-{ts}-{os.getpid()}.jsonl"`. -/
def sstName (ts pid : Nat) : String := s!"sst-{ts}-{pid}.jsonl"

/-- What raises while an SSTable is written. -/
inductive WriteFault where
  /-- Creating the directory or opening the file. -/
  | opening
  /-- Writing a line, after `lines` whole ones; `torn` where a part of the next one is there. -/
  | writing (lines : Nat) (torn : Bool)
deriving DecidableEq

/-- What an SSTable flush meets: the clock in ms, the process id, and perhaps a fault. -/
structure FlushEnv where
  ts : Nat
  pid : Nat
  fault : Option WriteFault

/-- The file `SSTable.flush` leaves where writing `lines` meets `fault`. -/
def faultyFile (lines : List Text) : WriteFault → Option (List Text)
  | .opening => none
  | .writing n torn => some (lines.take n ++ if torn then [none] else [])

/-! ## SegmentStore -/

/-- The files are the lines of the `sst-*.jsonl` of the two directories. -/
structure SegmentStore where
  hot : Dict String (List Text)
  cold : Dict String (List Text)
  memtable : MemTable
  sstables : List SSTable

namespace SegmentStore

/-- `SegmentStore(base_dir, memtable_threshold)`: loads the files of each directory, sorted by
name. -/
def init (memtableThreshold : Nat) (hot cold : Dict String (List Text)) : SegmentStore where
  hot := hot
  cold := cold
  memtable := ⟨memtableThreshold, ∅⟩
  sstables :=
    (hot.keys.insertionSort (· ≤ ·)).map (SSTable.mk .hot) ++
      (cold.keys.insertionSort (· ≤ ·)).map (SSTable.mk .cold)

def file (s : SegmentStore) (t : SSTable) : Option (List Text) :=
  match t.tier with
  | .hot => s.hot.get? t.name
  | .cold => s.cold.get? t.name

variable (X : Externals)

/-- `SSTable.scan`: raises at the first line that is no record. -/
def scan (s : SegmentStore) (t : SSTable) : Except Exc (List VectorRecord) :=
  match s.file t with
  | none => .ok []
  | some lines =>
    match lines.mapM fun line => line.bind X.modelValidateJson with
    | some records => .ok records
    | none => .error .validationError

/-- `flush`: the memtable is cleared before its records are written. -/
def flush (s : SegmentStore) (env : FlushEnv) : SegmentStore × Except Exc (Option SSTable) :=
  if s.memtable.count = 0 then (s, .ok none)
  else
    let (snap, memtable) := s.memtable.snapshotAndClear
    let lines : List Text := snap.map fun r => some (X.modelDumpJson r)
    let name := sstName env.ts env.pid
    match env.fault with
    | none =>
      ({ s with
          memtable := memtable
          hot := s.hot.set name lines
          sstables := s.sstables ++ [⟨.hot, name⟩] }, .ok (some ⟨.hot, name⟩))
    | some fault =>
      ({ s with
          memtable := memtable
          hot := match faultyFile lines fault with
            | none => s.hot
            | some lines => s.hot.set name lines }, .error (.osError "write failed"))

def put (s : SegmentStore) (record : VectorRecord) (env : FlushEnv) :
    SegmentStore × Except Exc Unit :=
  let s := { s with memtable := s.memtable.put record }
  if s.memtable.shouldFlush then
    let (s, r) := s.flush X env
    (s, r.map fun _ => ())
  else (s, .ok ())

/-- `get`'s search of the tables, newest first. -/
def getTables (s : SegmentStore) (id : String) : List SSTable → Except Exc (Option VectorRecord)
  | [] => .ok none
  | t :: ts =>
    match s.scan X t with
    | .error e => .error e
    | .ok records =>
      match records.find? fun r => r.id.text = id with
      | some r => .ok (some r)
      | none => getTables s id ts

def get (s : SegmentStore) (id : String) : Except Exc (Option VectorRecord) :=
  match s.memtable.get id with
  | some v => .ok (some v)
  | none => s.getTables X id s.sstables.reverse

/-- `tier_to_cold` for the `i`-th table: its file is moved to the cold directory, which exists. A
file that is not there is left. -/
def tierToCold (s : SegmentStore) (i : Nat) : SegmentStore :=
  match s.sstables[i]? with
  | some ⟨.hot, name⟩ =>
    match s.hot.get? name with
    | some lines =>
      { s with
        hot := s.hot.pop name
        cold := s.cold.set name lines
        sstables := s.sstables.set i ⟨.cold, name⟩ }
    | none => s
  | _ => s

/-- `latest[str(r.id)] = r` for the records of a table. -/
def setRecords (latest : Dict String VectorRecord) (records : List VectorRecord) :
    Dict String VectorRecord :=
  records.foldl (fun latest r => latest.set r.id.text r) latest

/-- `durable_records_by_id`: the newest table wins. -/
def durableRecordsById (s : SegmentStore) : Except Exc (Dict String VectorRecord) :=
  s.sstables.foldlM (fun latest t => (s.scan X t).map (setRecords latest)) ∅

end SegmentStore

end Vsector.Storage
