import Vsector.Framework.Slots
import Vsector.Impl.Storage.Wal

/-!
# The lifetimes of a log

`WAL` of `storage/wal.py` constructed again and again over one directory, by
one process and after crashes. Nothing ends an object that is replaced: it
keeps its entries and its group-commit thread, which writes them to the same
directory once it comes to it. One caller appends, flushes, closes and
constructs, and the threads take their steps in between. The critical section
of a call and its write are one step, since the caller appends nothing
between them; those of a thread are two.
-/

namespace Vsector.Storage.WAL

open Framework

/-- Where `_group_commit_loop` stands. -/
inductive Flusher where
  /-- Before `while not self._closed`. -/
  | checking
  /-- Before the critical section. -/
  | locking
  | writing (batch : List WALEntry)
  | stopped

/-- The batch it has taken and not written. -/
def Flusher.batch : Flusher → List WALEntry
  | .writing batch => batch
  | .checking | .locking | .stopped => []

/-- A `WAL` but for its directory, and its thread. -/
structure Opened where
  segmentId : Nat
  fileOpen : Bool
  segmentWritten : Nat
  buffer : List WALEntry
  closed : Bool
  flusher : Flusher

def Opened.of (w : WAL) (flusher : Flusher) : Opened :=
  ⟨w.segmentId, w.fileOpen, w.segmentWritten, w.buffer, w.closed, flusher⟩

/-- What the object has still to write. -/
def Opened.slot (o : Opened) : Slot WALEntry := ⟨o.flusher.batch, o.buffer⟩

/-- What happens to a log's directory. Objects are numbered in the order of their construction, and
the calls go to the last one. -/
inductive Op where
  | append (e : WALEntry)
  | flush
  | close
  /-- `WAL(dir, segment_bytes)` once more. -/
  | reopen
  /-- The process dies, and the last segment is cut after `k` bytes. -/
  | crash (k : Nat)
  /-- A thread looks whether its object is closed. -/
  | check (i : Nat)
  /-- A thread's critical section. -/
  | take (i : Nat)
  /-- A thread's `_flush_batch`. -/
  | write (i : Nat)

/-- The objects a process has constructed over a directory. -/
structure Lifetimes where
  segmentBytes : Int
  dir : Dict Nat Bytes
  objects : List Opened

/-- The last segment cut after `k` bytes. -/
def cutLast (k : Nat) (dir : Dict Nat Bytes) : Dict Nat Bytes :=
  match dir.keys.max? with
  | none => dir
  | some id => dir.set id (((dir.get? id).getD []).take k)

namespace Lifetimes

def wal (s : Lifetimes) (o : Opened) : WAL :=
  ⟨s.segmentBytes, s.dir, o.segmentId, o.fileOpen, o.segmentWritten, o.buffer, o.closed⟩

/-- The number of the object in use. -/
def current (s : Lifetimes) : Nat := s.objects.length - 1

/-- The `i`-th object after a step of its own. -/
def put (s : Lifetimes) (i : Nat) (w : WAL) (flusher : Flusher) : Lifetimes :=
  { s with dir := w.dir, objects := s.objects.set i (.of w flusher) }

/-- `WAL(dir, segment_bytes)`. -/
def reopen (s : Lifetimes) : Lifetimes :=
  let w := WAL.init s.segmentBytes s.dir
  { s with dir := w.dir, objects := s.objects ++ [.of w .checking] }

/-- `WAL(dir, segment_bytes)` on a new directory. -/
def start (segmentBytes : Int) : Lifetimes := reopen ⟨segmentBytes, ∅, []⟩

/-- A method of the object in use, which raises or not. -/
def call (s : Lifetimes) (f : WAL → WAL) : Option Lifetimes :=
  s.objects[s.current]?.map fun o => s.put s.current (f (s.wal o)) o.flusher

/-- The state after an operation. -/
def step (s : Lifetimes) : Op → Option Lifetimes
  | .append e => s.call (·.append e)
  | .flush => s.call fun w => w.flush.1
  | .close => s.call fun w => w.close.1
  | .reopen => some s.reopen
  | .crash k => some { s with dir := cutLast k s.dir, objects := [] }
  | .check i =>
    s.objects[i]?.bind fun o =>
      match o.flusher with
      | .checking => some (s.put i (s.wal o) (if o.closed then .stopped else .locking))
      | _ => none
  | .take i =>
    s.objects[i]?.bind fun o =>
      match o.flusher with
      | .locking =>
        if o.buffer = [] then some (s.put i (s.wal o) .checking)
        else some (s.put i { s.wal o with buffer := [] } (.writing o.buffer))
      | _ => none
  | .write i =>
    s.objects[i]?.bind fun o =>
      match o.flusher with
      | .writing batch =>
        -- An exception ends the thread.
        let (w, ok) := (s.wal o).flushBatch batch
        some (s.put i w (if ok then .checking else .stopped))
      | _ => none

/-- `read_all` of the object in use. -/
def readAll (now : ℕ+) (s : Lifetimes) : Option (List WALEntry) :=
  s.objects[s.current]?.bind fun o => (s.wal o).readAll now

/-- What the objects have still to write. -/
def slots (s : Lifetimes) : List (Slot WALEntry) := s.objects.map Opened.slot

end Lifetimes

/-- The entries a list of operations appends, in order. -/
def appended (ops : List Op) : List WALEntry :=
  ops.filterMap fun op => match op with
    | .append e => some e
    | _ => none

end Vsector.Storage.WAL
