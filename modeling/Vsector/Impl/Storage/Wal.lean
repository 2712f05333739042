import Vsector.Framework.BigEndian
import Vsector.Framework.Dict
import Vsector.Framework.Digits
import Vsector.Framework.Framing

/-!
# The write-ahead log, byte by byte

`WAL` of `storage/wal.py`: entries `[length:4B][checksum:4B][timestamp:8B]
[payload:NB]` appended to the segment files `wal-000000.log`,
`wal-000001.log`, … of a directory. The handle is taken to accept writes of
any length, as one without `O_DIRECT` does (ext4 and xfs refuse unaligned
writes to one with it), and to write at once: what a buffered handle loses
where its last flush raises is left out. `fsync` has no visible effect, and
the copies sent to S3 are left out.

The group-commit thread is in `WalLifetimes` and `WalThreads`, where batches in
flight overlap; here a call takes and writes its batch by itself.

A method that raises leaves the state it had reached; the flag it returns is
`false`.
-/

namespace Vsector.Storage

open Framework

abbrev Bytes := List UInt8

/-! ## Entries -/

/-- One bit of the reflected CRC-32. -/
def crcBit (c : Nat) : Nat := if c % 2 = 1 then (c >>> 1) ^^^ 0xEDB88320 else c >>> 1

def crcByte (c : Nat) (b : UInt8) : Nat := Nat.repeat crcBit 8 (c ^^^ b.toNat)

/-- `zlib.crc32`. -/
def crc32 (payload : Bytes) : Nat := payload.foldl crcByte 0xFFFFFFFF ^^^ 0xFFFFFFFF

/-- `payload` and the time it was written, in ns; never 0 (`__post_init__`). -/
structure WALEntry where
  payload : Bytes
  timestamp : ℕ+
deriving DecidableEq

/-- `WALEntry(payload, timestamp)`: a timestamp of 0 is replaced by `time.time_ns()`. -/
def WALEntry.new (now : ℕ+) (payload : Bytes) (timestamp : Nat) : WALEntry :=
  ⟨payload, if h : 0 < timestamp then timestamp.toPNat h else now⟩

def headerSize : Nat := 16

/-- `zlib.crc32(payload) & 0xFFFFFFFF`. -/
def checksum (payload : Bytes) : Nat := crc32 payload % 2 ^ 32

/-- The entries `struct.pack(">IIQ", …)` accepts; it raises on any other. -/
def WALEntry.Packs (e : WALEntry) : Prop := e.payload.length < 2 ^ 32 ∧ (e.timestamp : Nat) < 2 ^ 64

instance (e : WALEntry) : Decidable e.Packs := inferInstanceAs (Decidable (_ ∧ _))

def WALEntry.header (e : WALEntry) : Bytes :=
  beBytes 4 e.payload.length ++ beBytes 4 (checksum e.payload) ++ beBytes 8 e.timestamp

/-- What `_flush_batch` writes for an entry: `header + payload`. -/
def WALEntry.data (e : WALEntry) : Bytes := e.header ++ e.payload

/-- How `read_all` takes a segment apart; a frame whose checksum does not match is skipped. -/
def segmentFormat (now : ℕ+) : FrameFormat UInt8 WALEntry where
  headerSize := headerSize
  headerSize_pos := by decide
  payloadLength header := beNat (header.take 4)
  decode header payload :=
    if checksum payload = beNat ((header.drop 4).take 4) then
      some (WALEntry.new now payload (beNat (header.drop 8)))
    else none

/-! ## Segment files -/

/-- `f"wal-{id:06d}.log"`. -/
def segmentName (id : Nat) : List Char :=
  "wal-".toList ++ ((if id < 10 ^ 6 then fixedDigits 6 id else Nat.toDigits 10 id) ++ ".log".toList)

/-- A `WAL` over a directory whose segment files are `dir`, by number. -/
structure WAL where
  segmentBytes : Int
  dir : Dict Nat Bytes
  segmentId : Nat
  /-- Whether `_segment_file` is open. -/
  fileOpen : Bool
  segmentWritten : Nat
  buffer : List WALEntry
  closed : Bool

namespace WAL

/-- The bytes of a segment file; none before it is created. -/
def segment (w : WAL) (id : Nat) : Bytes := (w.dir.get? id).getD []

/-- `_open_segment`: the current segment is opened for appending, and created if it is new. -/
def openSegment (w : WAL) : WAL :=
  { w with
    dir := w.dir.set w.segmentId (w.segment w.segmentId)
    fileOpen := true
    segmentWritten := (w.segment w.segmentId).length }

/-- `WAL(dir, segment_bytes)`: the first segment is opened, whatever the directory holds. -/
def init (segmentBytes : Int) (dir : Dict Nat Bytes) : WAL :=
  openSegment
    { segmentBytes := segmentBytes, dir := dir, segmentId := 0, fileOpen := false,
      segmentWritten := 0, buffer := [], closed := false }

/-- `_rotate_if_needed`. -/
def rotateIfNeeded (w : WAL) (entrySize : Nat) : WAL :=
  if w.segmentBytes < w.segmentWritten + entrySize then
    openSegment { w with segmentId := w.segmentId + 1 }
  else w

def append (w : WAL) (e : WALEntry) : WAL := { w with buffer := w.buffer ++ [e] }

/-- The body of `_flush_batch`'s loop; `none` where packing the header or writing to a closed
file raises, before anything has changed. -/
def writeEntry (w : WAL) (e : WALEntry) : Option WAL :=
  if e.Packs then
    let w' := w.rotateIfNeeded e.data.length
    if w'.fileOpen then
      some
        { w' with
          dir := w'.dir.set w'.segmentId (w'.segment w'.segmentId ++ e.data)
          segmentWritten := w'.segmentWritten + e.data.length }
    else none
  else none

/-- `_flush_batch`, and whether it returned. -/
def flushBatch : WAL → List WALEntry → WAL × Bool
  | w, [] => (w, true)
  | w, e :: batch =>
    match w.writeEntry e with
    | some w' => flushBatch w' batch
    | none => (w, false)

/-- `flush`: the batch leaves the buffer before it is written. -/
def flush (w : WAL) : WAL × Bool := flushBatch { w with buffer := [] } w.buffer

/-- `close`: the file stays open where flushing raises. -/
def close (w : WAL) : WAL × Bool :=
  let (w', ok) := flush { w with closed := true }
  (if ok then { w' with fileOpen := false } else w', ok)

/-- The entries of the segment files, the files sorted by name. -/
def readDir (now : ℕ+) (dir : Dict Nat Bytes) : List WALEntry :=
  (dir.keys.mergeSort fun a b => segmentName a ≤ segmentName b).flatMap fun id =>
    (segmentFormat now).parse ((dir.get? id).getD [])

/-- `read_all`, which flushes first; `none` where that raises. -/
def readAll (now : ℕ+) (w : WAL) : Option (List WALEntry) :=
  let (w', ok) := w.flush
  if ok then some (readDir now w'.dir) else none

end WAL

end Vsector.Storage
