import Vsector.Impl.Storage.TableFile
import Vsector.Impl.Storage.Wal

/-!
# Retention of a write-ahead log

`WAL.gc` of `storage/wal.py`, and `recover` over a log's directory. The time
at which a segment file was last written is the file system's.
-/

namespace Vsector.Storage

open Framework Models

/-- `gc`: the segment files that were last written before the retention are removed. -/
def WAL.gc (w : WAL) (mtime : Nat → ℚ) (time : ℚ) (retentionDays : Int) : WAL :=
  { w with
    dir := w.dir.keys.foldl (fun dir id => if mtime id < time - retentionDays * 86400 then
      dir.pop id else dir) w.dir }

/-- What `recover` finds over the segment files of a log and a segment store. A log that has just
been opened has nothing to flush, so reading it does not raise. -/
def recoverDir (X : Externals) (J : JsonLines) (now : ℕ+) (segmentBytes : Int)
    (dir : Dict Nat Bytes) (segments : SegmentStore) : Except Exc RecoveryResult :=
  let entries := ((WAL.init segmentBytes dir).readAll now).getD []
  (recover X (.init (entries.map fun e => J.loads e.payload)) segments).map fun recovered =>
    recovered.2.2

end Vsector.Storage
