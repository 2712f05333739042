import Vsector.Impl.Index.Base
import Vsector.Impl.Sharding.Shard
import Vsector.Impl.Storage.Recovery

/-!
# Shard contexts

`ShardContext` of `ingest/service.py`: the log, segment store, index and
tombstones of one shard, and what the ingest service does to them for one
record. The metrics and the timed compaction of `IndexLifecycleManager` are
left out.
-/

namespace Vsector.Ingest

open Framework Models Storage Sharding Index

/-- What a shard keeps on disk: the log's entries and the SSTables. -/
structure Root where
  wal : List Text
  hot : Dict String (List Text)
  cold : Dict String (List Text)

instance : EmptyCollection Root := ⟨⟨[], ∅, ∅⟩⟩

/-- The write counts of `IndexLifecycleManager`. -/
structure IndexLifecycle where
  deleteCount : Nat
  totalCount : Nat

def IndexLifecycle.notifyWrite (l : IndexLifecycle) : IndexLifecycle :=
  { l with totalCount := l.totalCount + 1 }

def IndexLifecycle.notifyDelete (l : IndexLifecycle) : IndexLifecycle :=
  { deleteCount := l.deleteCount + 1, totalCount := l.totalCount - 1 }

structure ShardContext (ι : Type) where
  shard : Shard
  ns : Namespace
  wal : Log Text
  segments : SegmentStore
  index : ι
  lifecycle : IndexLifecycle
  recovery : RecoveryResult
  tombstones : PySet String

/-- What raises while the index or a counter is updated, and the index that is left. -/
structure IndexFault (ι : Type) where
  left : ι
  exc : Exc

namespace ShardContext

variable {ι : Type} [BaseIndex ι] (X : Externals)

/-- The recovery loop's body: a record is added to the index. -/
def indexRecord (ctx : ShardContext ι) (rec : VectorRecord) : Except Exc (ShardContext ι) :=
  match BaseIndex.add ctx.index rec.id.text rec.vector rec.metadata with
  | .error e => .error e
  | .ok index =>
    .ok { ctx with
      index := index
      lifecycle := ctx.lifecycle.notifyWrite
      shard := { ctx.shard with vectorCount := ctx.shard.vectorCount + 1 } }

/-- `ShardContext(shard, namespace, base_dir)` over what the directories hold. -/
def init (shard : Shard) (ns : Namespace) (memtableThreshold : Nat) (root : Root) :
    Except Exc (ShardContext ι) :=
  match recover X (.init root.wal) (.init memtableThreshold root.hot root.cold) with
  | .error e => .error e
  | .ok (wal, segments, recovery) =>
    recovery.records.foldlM indexRecord
      { shard := shard, ns := ns, wal := wal, segments := segments, index := BaseIndex.create ns,
        lifecycle := ⟨0, 0⟩, recovery := recovery, tombstones := .ofList recovery.deletedIds }

/-- What a clean shutdown leaves on disk: closing the log flushes it, the memtable is gone. -/
def root (ctx : ShardContext ι) : Root where
  wal := ctx.wal.flush.durable
  hot := ctx.segments.hot
  cold := ctx.segments.cold

/-- A clean shutdown and a new context over the same directories. -/
def restart (ctx : ShardContext ι) : Except Exc (ShardContext ι) :=
  init X ctx.shard ctx.ns ctx.segments.memtable.flushThreshold ctx.root

/-- `IngestService.upsert`'s block for one record on its primary: log, tombstones, memtable, index
and counters. -/
def applyUpsert (ctx : ShardContext ι) (rec : VectorRecord) (payload : Text) (env : FlushEnv)
    (fault : Option (IndexFault ι)) : ShardContext ι × Except Exc Unit :=
  let ctx := { ctx with
    wal := ctx.wal.append payload
    tombstones := ctx.tombstones.discard rec.id.text }
  let (segments, r) := ctx.segments.put X rec env
  let ctx := { ctx with segments := segments }
  match r with
  | .error e => (ctx, .error e)
  | .ok () =>
    match fault with
    | some f => ({ ctx with index := f.left }, .error f.exc)
    | none =>
      match ctx.indexRecord rec with
      | .error e => (ctx, .error e)
      | .ok ctx => (ctx, .ok ())

/-- `IngestService.delete`'s block for one id on its primary. -/
def applyDelete (ctx : ShardContext ι) (id : String) : ShardContext ι × Except Exc Unit :=
  match ctx.segments.get X id with
  | .error e => (ctx, .error e)
  | .ok rec =>
    let segments :=
      if rec.isSome then { ctx.segments with memtable := ctx.segments.memtable.delete id }
        else ctx.segments
    ({ ctx with
        segments := segments
        index := BaseIndex.delete ctx.index id
        lifecycle := ctx.lifecycle.notifyDelete
        tombstones := ctx.tombstones.add id
        wal := ctx.wal.append (deletePayload id) }, .ok ())

/-- `segments.flush()`. -/
def flushMemtable (ctx : ShardContext ι) (env : FlushEnv) : ShardContext ι × Except Exc Unit :=
  let (segments, r) := ctx.segments.flush X env
  ({ ctx with segments := segments }, r.map fun _ => ())

/-- `wal.flush()`. -/
def flushWal (ctx : ShardContext ι) : ShardContext ι := { ctx with wal := ctx.wal.flush }

/-- `IngestService.fetch` for one id. -/
def fetch (ctx : ShardContext ι) (id : String) : Except Exc (Option Payload) :=
  match ctx.segments.get X id with
  | .error e => .error e
  | .ok none => .ok none
  | .ok (some rec) => .ok (if ctx.tombstones.has id then none else some rec.toPayload)

end ShardContext

end Vsector.Ingest
