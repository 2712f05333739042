import Vsector.Impl.Ingest.Service
import Vsector.Impl.Query.Filter

/-!
# Deletion by filter

`IngestService.delete` with a filter, and the choice between ids and filter.
-/

namespace Vsector.Storage

open Framework Models

/-- `scan_all`: the records of the memtable, then those of the tables, the oldest first. -/
def SegmentStore.scanAll (X : Externals) (s : SegmentStore) : Except Exc (List VectorRecord) :=
  s.sstables.foldlM (fun out t => (s.scan X t).map (out ++ ·)) s.memtable.scan

end Vsector.Storage

namespace Vsector.Ingest

open Framework Models Storage Sharding Index Query

variable {ι : Type} [BaseIndex ι] (X : Externals)

/-- `delete`'s block for a record the filter matches. -/
def ShardContext.applyFilterDelete (ctx : ShardContext ι) (id : String) : ShardContext ι :=
  { ctx with
    index := BaseIndex.delete ctx.index id
    segments := { ctx.segments with memtable := ctx.segments.memtable.delete id }
    tombstones := ctx.tombstones.add id
    wal := ctx.wal.append (deletePayload id) }

namespace IngestService

/-- `delete`'s block for one scanned record. -/
def deleteMatch (ns : String) (settings : Namespace) (shard : Shard) (filter : Filter)
    (env : Nat → DeliveryEnv) (s : DeleteState ι) (rec : VectorRecord × Nat) :
    DeleteState ι × Except Exc Unit :=
  let key := ctxKey ns shard.id
  let id := rec.1.id.text
  match matchesFilter X rec.1.metadata filter, s.svc.shards.get? key with
  | .error e, _ => (s, .error e)
  | .ok false, _ | .ok true, none => (s, .ok ())
  | .ok true, some ctx =>
    let (replicator, repl) :=
      s.svc.replicator.replicateDelete X s.svc.settings ns shard (deletePayload id)
        settings.requiredAcks (env rec.2)
    let svc := ({ s.svc.setCtx key (ctx.applyFilterDelete id) with
      replicator := replicator } : IngestService ι)
    ({ svc := svc.recordReplicationStats ns shard repl
       deleted := s.deleted + 1
       touched := s.touched.add key
       replications := s.replications ++ [repl] }, .ok ())

/-- `delete`'s block for one shard, where it has a filter. -/
def deleteFilterOnShard (ns : String) (settings : Namespace) (filter : Filter)
    (env : String → Nat → DeliveryEnv) (s : DeleteState ι) (shard : Shard) :
    DeleteState ι × Except Exc Unit :=
  match s.svc.getOrCreateCtx X ns shard with
  | .error e => (s, .error e)
  | .ok (svc, ctx) =>
    match ctx.segments.scanAll X with
    | .error e => ({ s with svc := svc }, .error e)
    | .ok records =>
      forEach (deleteMatch X ns settings shard filter (env shard.id))
        { s with svc := svc } records.zipIdx

/-- `delete` by filter. -/
def deleteByFilter (svc : IngestService ι) (ns : String) (filter : Filter)
    (env : String → Nat → DeliveryEnv) :
    IngestService ι × Except Exc DeleteResult :=
  match svc.settings.metadata.get? ns with
  | none => (svc, .error (.valueError "namespace not found"))
  | some settings =>
    match svc.router.writable ns svc.nodeId with
    | .error e => (svc, .error e)
    | .ok shards =>
      match forEach (deleteFilterOnShard X ns settings filter env) ⟨svc, 0, ∅, []⟩ shards with
      | (s, .error e) => (s.svc, .error e)
      | (s, .ok ()) =>
        let svc := s.svc.flushLogs s.touched
        (svc, .ok
          { deleted := s.deleted
            replication := aggregateReplication s.replications settings.requiredAcks
            health := svc.replicationHealthMap ns settings s.touched })

/-- `delete`: a filter counts where there are no ids. -/
def deleteRequest (svc : IngestService ι) (ns : String) (ids : Option (List String))
    (filter : Option Filter) (env : String → Nat → DeliveryEnv) :
    IngestService ι × Except Exc DeleteResult :=
  match ids.getD [], filter.getD [] with
  | [], f :: fields => svc.deleteByFilter X ns (f :: fields) env
  | ids, _ => svc.delete X ns ids env

end IngestService

end Vsector.Ingest
