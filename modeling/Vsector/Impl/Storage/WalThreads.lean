import Vsector.Impl.Storage.Wal

/-!
# The threads of a write-ahead log

`WAL` of `storage/wal.py` under its callers and its group-commit thread.
Each critical section under `_lock` is one step. The batch it takes from the
buffer is in flight until the actor that took it has written it, which is a
step of its own.
-/

namespace Vsector.Storage.WalThreads

open Framework

inductive Call where
  | flush
  | close
deriving DecidableEq

inductive Actor where
  /-- `_group_commit_loop`. -/
  | flusher
  | caller (id : Nat)
deriving DecidableEq

inductive Status where
  | inFlight
  | written
  /-- `_flush_batch` raised. -/
  | lost
deriving DecidableEq

/-- A batch taken from the buffer. -/
structure Batch where
  entries : List WALEntry
  status : Status

/-- Where a call to `flush` or `close` stands. `began` is the number of entries appended before
it. -/
inductive Pc where
  /-- In `close`, before `self._closed = True`. -/
  | closing (began : Nat)
  /-- In `flush`, before its critical section. -/
  | locking (call : Call) (began : Nat)
  /-- In `flush`, with a batch to write. -/
  | writing (call : Call) (began : Nat) (batch : Nat)
  /-- In `close`, after `self.flush()`. -/
  | closingFile (began : Nat)
  | returning (began : Nat)

/-- Where `_group_commit_loop` stands. -/
inductive FlusherPc where
  /-- Before `while not self._closed`. -/
  | checking
  /-- Before the critical section. -/
  | locking
  | writing (batch : Nat)
  | stopped

structure State where
  /-- The entries appended so far, in order. -/
  appended : List WALEntry
  /-- The log; its `buffer` is what no critical section has taken yet. -/
  wal : WAL
  /-- The batches taken so far, in order. -/
  batches : List Batch
  calls : Dict Nat Pc
  flusher : FlusherPc

inductive Label where
  | append (e : WALEntry)
  | call (id : Nat) (call : Call)
  | setClosed (id : Nat)
  | check
  /-- The critical section that empties the buffer. -/
  | take (actor : Actor)
  | write (actor : Actor)
  | closeFile (id : Nat)
  | ret (id : Nat)

/-- `WAL(dir, segment_bytes)` on a new directory. -/
def init (segmentBytes : Int) : State where
  appended := []
  wal := WAL.init segmentBytes ∅
  batches := []
  calls := ∅
  flusher := .checking

/-- What a call does once its flush is done. -/
def afterFlush (call : Call) (began : Nat) : Pc :=
  match call with
  | .flush => .returning began
  | .close => .closingFile began

/-- The buffer becomes a batch in flight. -/
def takeBatch (s : State) : State :=
  { s with
    wal := { s.wal with buffer := [] }
    batches := s.batches ++ [⟨s.wal.buffer, .inFlight⟩] }

/-- `_flush_batch(batch)`, and whether it returned. -/
def writeBatch (s : State) (i : Nat) : State × Bool :=
  let (wal, ok) := s.wal.flushBatch ((s.batches[i]?.map Batch.entries).getD [])
  ({ s with
      wal := wal
      batches := s.batches.modify i fun b =>
        { b with status := if ok then .written else .lost } }, ok)

def Pc.batch : Pc → Option Nat
  | .writing _ _ i => some i
  | _ => none

def FlusherPc.batch : FlusherPc → Option Nat
  | .writing i => some i
  | _ => none

/-- The batch an actor is about to write. -/
def held (s : State) : Actor → Option Nat
  | .flusher => s.flusher.batch
  | .caller id => (s.calls.get? id).bind Pc.batch

def step (s : State) : Label → Option State
  | .append e => some { s with appended := s.appended ++ [e], wal := s.wal.append e }
  | .call id call =>
    match s.calls.get? id with
    | none =>
      let pc := match call with
        | .flush => Pc.locking .flush s.appended.length
        | .close => .closing s.appended.length
      some { s with calls := s.calls.set id pc }
    | some _ => none
  | .setClosed id =>
    match s.calls.get? id with
    | some (.closing began) =>
      some { s with
        wal := { s.wal with closed := true }, calls := s.calls.set id (.locking .close began) }
    | _ => none
  | .check =>
    match s.flusher with
    | .checking => some { s with flusher := if s.wal.closed then .stopped else .locking }
    | _ => none
  | .take .flusher =>
    match s.flusher with
    | .locking =>
      if s.wal.buffer = [] then some { s with flusher := .checking }
      else some { takeBatch s with flusher := .writing s.batches.length }
    | _ => none
  | .take (.caller id) =>
    match s.calls.get? id with
    | some (.locking call began) =>
      if s.wal.buffer = [] then some { s with calls := s.calls.set id (afterFlush call began) }
      else some { takeBatch s with calls := s.calls.set id (.writing call began s.batches.length) }
    | _ => none
  | .write .flusher =>
    match s.flusher with
    | .writing i =>
      -- An exception ends the thread.
      let (s', ok) := writeBatch s i
      some { s' with flusher := if ok then .checking else .stopped }
    | _ => none
  | .write (.caller id) =>
    match s.calls.get? id with
    | some (.writing call began i) =>
      let (s', ok) := writeBatch s i
      -- An exception leaves the call without returning.
      some { s' with
        calls := if ok then s.calls.set id (afterFlush call began) else s.calls.pop id }
    | _ => none
  | .closeFile id =>
    match s.calls.get? id with
    | some (.closingFile began) =>
      some { s with
        wal := { s.wal with fileOpen := false }, calls := s.calls.set id (.returning began) }
    | _ => none
  | .ret id =>
    match s.calls.get? id with
    | some (.returning _) => some { s with calls := s.calls.pop id }
    | _ => none

/-- The entries of the segment files, file after file. -/
def fileEntries (s : State) : List WALEntry :=
  (List.range (s.wal.segmentId + 1)).flatMap fun id =>
    (segmentFormat (Nat.succPNat 0)).parse (s.wal.segment id)

end Vsector.Storage.WalThreads
