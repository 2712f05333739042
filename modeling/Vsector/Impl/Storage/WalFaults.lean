import Vsector.Impl.Storage.Wal

/-!
# A log that cannot write

`_flush_batch` of `storage/wal.py` where opening the next segment file or
writing to one raises. Packing a header raises by itself, for an entry that
does not pack. `flush` and a round of `_group_commit_loop` take the batch and
write it in the same way; what `_flush_batch` raises comes out of `flush`, and
ends the thread of the loop. Batches that are in flight together are in
`WalThreads`. As in `Wal`, the handle accepts writes of any length and writes
at once, so the last flush of a buffered handle, where only that raises, is
left out.
-/

namespace Vsector.Storage

open Framework

/-- What raises while an entry is written. -/
inductive EntryFault where
  /-- Opening the next segment file. -/
  | opening
  /-- Writing to the segment file, after `k` bytes. -/
  | writing (k : Nat)
deriving DecidableEq

/-- What raises while a batch is written, and at which of its entries. -/
structure FlushFault where
  index : Nat
  kind : EntryFault
deriving DecidableEq

/-- What the `i`-th entry meets. -/
def FlushFault.at? (fault : Option FlushFault) (i : Nat) : Option EntryFault :=
  fault.bind fun f => if f.index = i then some f.kind else none

namespace WAL

/-- `self._segment_file.write(data)` and the count of what was written, and whether it returned. -/
def writeData (w : WAL) (data : Bytes) (fault : Option EntryFault) : WAL × Bool :=
  if w.fileOpen then
    match fault with
    | some (.writing k) =>
      ({ w with dir := w.dir.set w.segmentId (w.segment w.segmentId ++ data.take k) }, false)
    | some .opening | none =>
      ({ w with
          dir := w.dir.set w.segmentId (w.segment w.segmentId ++ data)
          segmentWritten := w.segmentWritten + data.length }, true)
  else (w, false)

/-- The body of `_flush_batch`'s loop. Where the next segment cannot be opened, the last one is
closed already. -/
def writeEntryWith (w : WAL) (e : WALEntry) (fault : Option EntryFault) : WAL × Bool :=
  if e.Packs then
    if w.segmentBytes < w.segmentWritten + e.data.length then
      if fault = some .opening then
        ({ w with segmentId := w.segmentId + 1, fileOpen := false }, false)
      else (openSegment { w with segmentId := w.segmentId + 1 }).writeData e.data fault
    else w.writeData e.data fault
  else (w, false)

/-- `_flush_batch`, from its `i`-th entry on. -/
def flushBatchWith (fault : Option FlushFault) : WAL → Nat → List WALEntry → WAL × Bool
  | w, _, [] => (w, true)
  | w, i, e :: batch =>
    match w.writeEntryWith e (FlushFault.at? fault i) with
    | (w', true) => flushBatchWith fault w' (i + 1) batch
    | (w', false) => (w', false)

/-- `flush`, or a round of `_group_commit_loop`: the batch leaves the buffer before it is written,
and `later` is appended meanwhile. -/
def flushWith (w : WAL) (later : List WALEntry) (fault : Option FlushFault) : WAL × Bool :=
  flushBatchWith fault { w with buffer := later } 0 w.buffer

end WAL

end Vsector.Storage
