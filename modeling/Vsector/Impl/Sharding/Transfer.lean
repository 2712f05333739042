import Vsector.Framework.Proc
import Vsector.Impl.Ingest.ShardContext
import Vsector.Impl.Models.JsonText

/-!
# Moving the data of a shard

`sharding/transfer.py`. `Transfer` are the calls the migration manager makes,
whatever they do; `ShardTransferProvider` makes them on the directories of
the nodes (`Disks`). The directories of two nodes, and of two shards of a
node, are disjoint. What `shutil.rmtree` may raise is left out.
-/

namespace Vsector.Sharding

open Framework Models Storage Ingest

/-- A text value. -/
def asStr : Json → Option String
  | .str s => some s
  | _ => none

structure ShardExport where
  ns : String
  shardId : String
  records : List Json
  deletedIds : List String
  digest : String

namespace ShardExport

def toDict (e : ShardExport) : Json :=
  .obj [("namespace", .str e.ns), ("shard_id", .str e.shardId), ("records", .arr e.records),
    ("deleted_ids", .arr (e.deletedIds.map .str)), ("digest", .str e.digest)]

/-- `serialize`: the document that the bytes spell. -/
def serialize (e : ShardExport) : Json := e.toDict.sortKeys

/-- `from_dict`; `none` where a value is of another type than in `to_dict`, or one that must be
there is not. -/
def fromDict (d : Json) : Option ShardExport :=
  match d.get? "namespace", d.get? "shard_id" with
  | some (.str ns), some (.str shardId) =>
    match (d.get? "records").getD (.arr []), (d.get? "deleted_ids").getD (.arr []),
      (d.get? "digest").getD (.str "") with
    | .arr records, .arr deletedIds, .str digest =>
      (deletedIds.mapM asStr).map fun deletedIds =>
        { ns := ns, shardId := shardId, records := records, deletedIds := deletedIds,
          digest := digest }
    | _, _, _ => none
  | _, _ => none

/-- `deserialize`, of the document that the bytes spell. -/
def deserialize (data : Json) : Option ShardExport := fromDict data

end ShardExport

/-- The storage boundary of a migration, over the state `δ` of the storage. -/
structure Transfer (δ : Type) where
  exportShard (node : String) (shard : Shard) : Proc δ Exc ShardExport
  importShard (node : String) (shard : Shard) (data : ShardExport) : Proc δ Exc Unit
  verifyShard (node : String) (shard : Shard) (expectedDigest : Option String) : Proc δ Exc String
  finalizeSource (node : String) (shard : Shard) : Proc δ Exc Unit
  discardTarget (node : String) (shard : Shard) : Proc δ Exc Unit

/-! ## Directories -/

/-- The directories of a shard on each node: of a node and a shard's id. -/
abbrev Disks := String → String → Root

def Disks.set (d : Disks) (node shardId : String) (root : Root) : Disks :=
  fun n s => if n = node ∧ s = shardId then root else d n s

variable (X : Externals)

/-- The document `compute_digest` makes of records and tombstones. -/
def digestDocument (records : List VectorRecord) (deletedIds : List String) : Json :=
  .obj [("records",
    .arr ((records.insertionSort fun a b => a.id.text ≤ b.id.text).map X.modelDump)),
    ("deleted", .arr ((deletedIds.insertionSort (· ≤ ·)).map .str))]

/-- `compute_digest`. -/
def computeDigest (records : List VectorRecord) (deletedIds : List String) : String :=
  X.sha256 (Json.dumps X ⟨false, false⟩ (digestDocument X records deletedIds))

/-- `recover` over the log and the tables that a directory holds. -/
def recoverRoot (root : Root) : Except Exc (Log Text × SegmentStore × RecoveryResult) :=
  recover X (.init root.wal) (.init 10000 root.hot root.cold)

/-! ## Importing -/

/-- The local variables of `import_shard`. -/
structure ImportState where
  seg : SegmentStore
  wal : Log Text

/-- What is on disk; the log may have written any part of its buffer. -/
def ImportState.roots (c : ImportState) : List Root :=
  (List.range (c.wal.buffer.length + 1)).map fun k =>
    ⟨c.wal.durable ++ c.wal.buffer.take k, c.seg.hot, c.seg.cold⟩

/-- The directory holds what `c` has written. -/
def writeRoot (node shardId : String) (c : ImportState) : Proc Disks Exc Unit := fun d =>
  ⟨c.roots.map (d.set node shardId),
    d.set node shardId ⟨c.wal.durable, c.seg.hot, c.seg.cold⟩, .ok ()⟩

/-- What is on disk while the memtable is flushed: any part of the new file. -/
def ImportState.partRoots (env : FlushEnv) (c : ImportState) : List Root :=
  let lines : List Text := c.seg.memtable.scan.map fun r => some (X.modelDumpJson r)
  (List.range (lines.length + 1)).flatMap fun n =>
    [false, true].flatMap fun torn =>
      c.roots.map fun root =>
        { root with
          hot := root.hot.set (sstName env.ts env.pid)
            (lines.take n ++ if torn then [none] else []) }

/-- The points of a memtable flush. -/
def writePart (env : FlushEnv) (node shardId : String) (c : ImportState) : Proc Disks Exc Unit :=
  fun d => ⟨(c.partRoots X env).map (d.set node shardId), d, .ok ()⟩

/-- `{"__op": "upsert", "record": rd}`, its keys sorted. -/
def upsertPayload (rd : Json) : Text :=
  some (Json.obj [("__op", .str "upsert"), ("record", rd)]).sortKeys

/-- The body of the loop over the records. -/
def importRecord (env : FlushEnv) (c : ImportState) (rd : Json) : ImportState × Except Exc Unit :=
  match X.modelValidate rd with
  | none => (c, .error .validationError)
  | some rec =>
    match c.seg.put X rec env with
    | (seg, .error e) => ({ c with seg := seg }, .error e)
    | (seg, .ok ()) => (⟨seg, c.wal.append (upsertPayload rd)⟩, .ok ())

/-- The points of `importRecord`, where its `put` flushes the memtable. -/
def recordPart (env : FlushEnv) (node shardId : String) (c : ImportState) (rd : Json) :
    Proc Disks Exc Unit :=
  match X.modelValidate rd with
  | none => pure ()
  | some rec =>
    let memtable := c.seg.memtable.put rec
    if memtable.shouldFlush then
      writePart X env node shardId { c with seg := { c.seg with memtable := memtable } }
    else pure ()

/-- Closing the log, and what was raised. -/
def closeWith (node shardId : String) (c : ImportState) (e : Exc) : Proc Disks Exc Unit := do
  writeRoot node shardId { c with wal := c.wal.flush }
  Proc.throw e

/-- The flushes at the end, once the tombstones are appended. -/
def finishImport (env : FlushEnv) (node shardId : String) (deleted : List String)
    (c : ImportState) :
    Proc Disks Exc Unit := do
  let c : ImportState := { c with wal := (deleted.map deletePayload).foldl Log.append c.wal }
  writeRoot node shardId c
  writePart X env node shardId c
  match c.seg.flush X env with
  | (seg, .error e) => do
    writeRoot node shardId { c with seg := seg }
    closeWith node shardId { c with seg := seg } e
  | (seg, .ok _) => do
    writeRoot node shardId { c with seg := seg }
    writeRoot node shardId ⟨seg, c.wal.flush⟩

/-- `import_shard` once the directory is empty; `env` is what the memtable flushes meet. -/
def importRecords (env : Nat → FlushEnv) (node shardId : String) (deleted : List String) :
    List Json → ImportState → Proc Disks Exc Unit
  | [], c => finishImport X (env 0) node shardId deleted c
  | rd :: rds, c => do
    recordPart X (env (rds.length + 1)) node shardId c rd
    match importRecord X (env (rds.length + 1)) c rd with
    | (c, .error e) => do
      writeRoot node shardId c
      closeWith node shardId c e
    | (c, .ok ()) => do
      writeRoot node shardId c
      importRecords env node shardId deleted rds c

/-! ## The provider -/

namespace ShardTransferProvider

def exportShard (node : String) (shard : Shard) : Proc Disks Exc ShardExport := do
  let d ← Proc.get
  match recoverRoot X (d node shard.id) with
  | .error e => Proc.throw e
  | .ok (_, _, result) =>
    pure
      { ns := shard.ns
        shardId := shard.id
        records := result.records.map X.modelDump
        deletedIds := result.deletedIds.insertionSort (· ≤ ·)
        digest := computeDigest X result.records result.deletedIds }

/-- The two trees of a shard are removed. -/
def removeTrees (node : String) (shard : Shard) : Proc Disks Exc Unit := do
  Proc.change fun d => d.set node shard.id { d node shard.id with wal := [] }
  Proc.change fun d => d.set node shard.id { d node shard.id with hot := ∅, cold := ∅ }

/-- `str(r.get("id", ""))`. -/
def recordKey (rd : Json) : String :=
  match rd.get? "id" with
  | some (.str id) => id
  | some j => X.jsonStr j
  | none => ""

def importShard (env : Nat → FlushEnv) (node : String) (shard : Shard) (data : ShardExport) :
    Proc Disks Exc Unit := do
  let uploadsFirst := data.records.insertionSort fun a b => recordKey X a ≤ recordKey X b
  let deleted := data.deletedIds.insertionSort (· ≤ ·)
  removeTrees node shard
  importRecords X env node shard.id deleted uploadsFirst ⟨.init 10000 ∅ ∅, .init []⟩

/-- What `verify_shard` finds in a directory: the digest after a recovery, and that of the tables
alone. -/
def digests (root : Root) : Except Exc (String × String) :=
  match recoverRoot X root with
  | .error e => .error e
  | .ok (_, seg, result) =>
    match seg.durableRecordsById X with
    | .error e => .error e
    | .ok durable =>
      .ok (computeDigest X result.records result.deletedIds,
        computeDigest X durable.values result.deletedIds)

def verifyShard (node : String) (shard : Shard) (expectedDigest : Option String) :
    Proc Disks Exc String := do
  let d ← Proc.get
  match digests X (d node shard.id) with
  | .error e => Proc.throw e
  | .ok (actual, durable) =>
    match expectedDigest with
    | none => pure actual
    | some expected =>
      if actual ≠ expected ∨ durable ≠ expected then
        Proc.throw (.migrationVerification shard.ns shard.id expected actual)
      else pure actual

end ShardTransferProvider

/-- `ShardTransferProvider`; `env` is what the memtable flushes of an import meet. -/
def shardTransferProvider (env : Nat → FlushEnv) : Transfer Disks where
  exportShard := ShardTransferProvider.exportShard X
  importShard := ShardTransferProvider.importShard X env
  verifyShard := ShardTransferProvider.verifyShard X
  finalizeSource := ShardTransferProvider.removeTrees
  discardTarget := ShardTransferProvider.removeTrees

end Vsector.Sharding
