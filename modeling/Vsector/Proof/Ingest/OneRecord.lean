import Vsector.Proof.Ingest.DeleteCounts
import Vsector.Proof.Ingest.ShardSplit

/-!
# The upsert of one record

A write that goes through (`Takes`) is read back at once, from the memtable or
from the table it was just flushed to (`SegmentStore.get_put`): after the
upsert the record is shown under the text of its id (`Takes.visible`). Under
any other text nothing is ever found, since memtables and tables keep records
under the texts of their ids (`visible_canonical`).
-/

namespace Vsector.Storage

open Framework Models

variable {X : Externals}

/-- The records of a memtable that is flushed can be read back, and nothing raises. -/
def Flushes (m : MemTable) (env : FlushEnv) : Prop :=
  env.fault = none ∧ ∀ r ∈ m.data.values, r.Finite

namespace SegmentStore

/-- What the newest table has is found, where the memtable has nothing. -/
theorem get_newest {s : SegmentStore} {ts : List SSTable} {t : SSTable}
    {records : List VectorRecord} {r : VectorRecord} (hm : s.memtable.get r.id.text = none)
    (ht : s.sstables = ts ++ [t]) (hs : s.scan X t = .ok records)
    (hr : Layers.find idOf records r.id.text = some r) : s.get X r.id.text = .ok (some r) := by
  have hfind : (records.find? fun r' => r'.id.text = r.id.text) = some r := hr
  rw [get, hm, ht, List.reverse_append, List.reverse_singleton, List.singleton_append]
  simp only [getTables, hs, hfind]

/-- A record is found right after it was put, and no memtable is left full. -/
theorem get_put (hX : X.Lawful) {s : SegmentStore} (hk : Ingest.MemTableKeyed s.memtable)
    {r : VectorRecord} {env : FlushEnv}
    (hf : (s.memtable.put r).shouldFlush → Flushes (s.memtable.put r) env) :
    ∃ s', s.put X r env = (s', .ok ()) ∧ s'.get X r.id.text = .ok (some r) ∧
      (s'.memtable.shouldFlush → s'.memtable.count = 0) := by
  have hself : (s.memtable.put r).data.get? r.id.text = some r := Dict.get?_set_self _ _ _
  by_cases hfull : (s.memtable.put r).shouldFlush
  · obtain ⟨hfault, hfin⟩ := hf hfull
    have hcount : (s.memtable.put r).count ≠ 0 := by
      intro hz
      have hnil : (s.memtable.put r).data.entries = [] := List.length_eq_zero_iff.mp hz
      exact absurd (Dict.mem_entries.mpr hself) (by rw [hnil]; exact List.not_mem_nil)
    let lines : List Text := (s.memtable.put r).data.values.map fun r => some (X.modelDumpJson r)
    let t : SSTable := ⟨.hot, sstName env.ts env.pid⟩
    let s' : SegmentStore := { s with
      memtable := { s.memtable with data := ∅ }
      hot := s.hot.set t.name lines
      sstables := s.sstables ++ [t] }
    have hput : s.put X r env = (s', .ok ()) := by
      simp only [put, if_pos hfull, flush, if_neg hcount, hfault]
      rfl
    have hfile : s'.file t = some lines := Dict.get?_set_self _ _ _
    have hscan : s'.scan X t = .ok (s.memtable.put r).data.values := by
      simp only [scan, hfile]
      rw [mapM_dump hX hfin]
    exact ⟨s', hput, get_newest rfl rfl hscan
      ((Layers.find_values (hk.put r) r.id.text).trans hself), fun _ => rfl⟩
  · refine ⟨{ s with memtable := s.memtable.put r }, ?_, ?_, fun h => absurd h hfull⟩
    · simp only [put, if_neg hfull]
    · rw [get, MemTable.get, hself]

end SegmentStore

end Vsector.Storage

namespace Vsector.Ingest

open Framework Models Storage Sharding Index ShardRouter

variable {ι : Type} [BaseIndex ι] {X : Externals}

namespace IngestService

variable {svc svc' : IngestService ι} {ns id : String} {settings : Namespace} {rec : VectorRecord}
  {env : RecordEnv ι} {shard : Shard} {ctx : ShardContext ι}

/-! ## Ids that are found -/

theorem fetches_visible {p : Payload} :
    svc.Fetches X ns id p ↔ ∃ r, svc.visible X ns id = .ok (some r) ∧ r.toPayload = p := by
  have hanswer : svc.Fetches X ns id p ↔ svc.answer X ns id = .ok (some p) := by
    unfold Fetches fetch
    simp only [forEach]
    obtain ⟨q, svc', hq, -, hone⟩ | ⟨exc, svc', hexc, hone⟩ := fetchOne_cases (X := X) svc ns id []
    · rw [hone, hq]
      cases q with
      | none => simp [Except.toOption]
      | some q => simp [Except.toOption]
    · rw [hone, hexc]
      simp [Except.toOption]
  rw [hanswer, answer_visible]
  rcases svc.visible X ns id with exc | _ | r <;> simp [Except.map]

/-- A record is shown under the text of its id only. -/
theorem visible_canonical (hk : svc.Keyed) {r : VectorRecord}
    (h : svc.visible X ns id = .ok (some r)) : r.id.text = id := by
  rw [visible_eq] at h
  rcases hroute : svc.router.route X ns id with exc | shard
  · rw [hroute] at h
    cases h
  · rw [hroute] at h
    change (svc.content X ns (uncounted shard)).bind _ = _ at h
    rcases hc : svc.content X ns (uncounted shard) with exc | c
    · rw [hc] at h
      cases h
    · rw [hc] at h
      change shownOf X c id = _ at h
      unfold shownOf at h
      rcases hget : c.1.get X id with exc | _ | v
      · rw [hget] at h
        cases h
      · rw [hget] at h
        simp [Except.map] at h
      · rw [hget] at h
        have hv : v = r := by
          simp only [Except.map, Except.ok.injEq] at h
          split at h
          · cases h
          · exact Option.some.inj h
        subst hv
        unfold SegmentStore.get at hget
        split at hget
        · rename_i w hw
          cases hget
          exact content_keyed hk hc id v hw
        · exact (getTables_eq_some hget).1

theorem fetchable_canonical (hk : svc.Keyed) (h : svc.Fetchable X ns id) :
    ∃ u : UUID, u.text = id := by
  obtain ⟨r, hr⟩ := fetchable_iff.mp h
  exact ⟨r.id, visible_canonical hk hr⟩

/-! ## A write that goes through -/

/-- The write of a record goes through on the context `ctx` of `shard`: nothing raises, the shard
has room for one more record, and a memtable that is flushed is one of finite records. -/
structure Takes (X : Externals) (svc : IngestService ι) (ns : String) (rec : VectorRecord)
    (env : RecordEnv ι) (shard : Shard) (ctx : ShardContext ι) : Prop where
  route : svc.router.routeWrite X ns rec.id.text svc.nodeId = .ok shard
  opens : ∃ svc₁, svc.getOrCreateCtx X ns shard = .ok (svc₁, ctx)
  flush : (ctx.segments.memtable.put rec).shouldFlush →
    Flushes (ctx.segments.memtable.put rec) env.flush
  index : env.index = none
  add : ∃ index, BaseIndex.add ctx.index rec.id.text rec.vector rec.metadata = .ok index
  bookkeeping : env.bookkeeping = none
  room : ctx.shard.vectorCount < shard.maxVectors

/-- The block of `upsert` on the context. -/
theorem Takes.applyUpsert (hX : X.Lawful) (hk : svc.Keyed) (h : Takes X svc ns rec env shard ctx)
    (payload : Text) :
    ∃ ctx', ctx.applyUpsert X rec payload env.flush env.index = (ctx', .ok ()) ∧
      ctx'.segments.get X rec.id.text = .ok (some rec) ∧ ctx'.tombstones.has rec.id.text = false ∧
      ctx'.shard.vectorCount = ctx.shard.vectorCount + 1 ∧
      (ctx'.segments.memtable.shouldFlush → ctx'.segments.memtable.count = 0) := by
  obtain ⟨svc₁, hg⟩ := h.opens
  have hctx : svc.content X ns shard = .ok ctx.content := by rw [content, hg]; rfl
  obtain ⟨s', hput, hget, hroom⟩ := SegmentStore.get_put hX (content_keyed hk hctx) h.flush
  obtain ⟨index, hadd⟩ := h.add
  let ctx' : ShardContext ι := { ctx with
    shard := { ctx.shard with vectorCount := ctx.shard.vectorCount + 1 }
    wal := ctx.wal.append payload
    segments := s'
    index := index
    lifecycle := ctx.lifecycle.notifyWrite
    tombstones := ctx.tombstones.discard rec.id.text }
  have hput : ctx.segments.put X rec env.flush = (s', .ok ()) := hput
  have ha : ctx.applyUpsert X rec payload env.flush env.index = (ctx', .ok ()) := by
    simp only [ShardContext.applyUpsert, h.index, hput, ShardContext.indexRecord, hadd]
    rfl
  refine ⟨ctx', ha, hget, ?_, rfl, hroom⟩
  show (ctx.tombstones.discard rec.id.text).has rec.id.text = false
  rw [PySet.has_discard, decide_eq_true rfl]
  rfl

/-- The counts of the shards are all that opening a context and counting its records change of the
routes. -/
theorem sameShards_opened {svc₁ : IngestService ι} (hs : shard ∈ svc.router.etcd.listByNamespace ns)
    (hg : svc.getOrCreateCtx X ns shard = .ok (svc₁, ctx)) (n : Nat) : SameShards ns svc.router
      { svc₁.router with etcd := svc₁.router.etcd.setShard { shard with vectorCount := n } } := by
  unfold getOrCreateCtx at hg
  split at hg
  · cases hg
    exact (SameShards.refl ns _).setCount hs n
  · split at hg
    · cases hg
    · split at hg
      · cases hg
      · cases hg
        have hmem : ({ shard with vectorCount := ctx.shard.vectorCount } : Shard) ∈
            (svc.router.etcd.setShard { shard with
              vectorCount := ctx.shard.vectorCount }).listByNamespace ns :=
          InMemoryEtcd.mem_listByNamespace.mpr ⟨Dict.get?_set_self _ _ _,
            (InMemoryEtcd.mem_listByNamespace.mp hs).2⟩
        exact ((SameShards.refl ns svc.router).setCount hs ctx.shard.vectorCount).setCount hmem n

/-- The service after the upsert of one record that was applied to the context of its shard,
without a split: the shards are counted anew, and the context is that one. -/
theorem upsert_applied {svc₁ : IngestService ι} {ctx' : ShardContext ι} {raw : Raw}
    {key : Option String}
    {background : String → FlushEnv} {result : UpsertResult}
    (hkey : (key.filter (· ≠ "")).bind svc.idempotency.get? = none)
    (hm : svc.settings.metadata.get? ns = some settings)
    (hp : parseRecord X ns settings raw env.now env.uuid4 = .ok rec)
    (hw : svc.router.routeWrite X ns rec.id.text svc.nodeId = .ok shard)
    (hg : svc.getOrCreateCtx X ns shard = .ok (svc₁, ctx))
    (ha : ctx.applyUpsert X rec (some (X.modelDumpJson rec)) env.flush env.index = (ctx', .ok ()))
    (hb : env.bookkeeping = none) (hmax : ctx'.shard.vectorCount ≤ shard.maxVectors)
    (hroom : ctx'.segments.memtable.shouldFlush → ctx'.segments.memtable.count = 0)
    (hup : svc.upsert X ns [(raw, env)] key background = (svc', .ok result)) :
    SameShards ns svc.router svc'.router ∧ svc'.content X ns shard = .ok ctx'.content := by
  obtain ⟨replicator, stats, replications, he⟩ :=
    upsertRecord_eq (s := ⟨svc, [], [], ∅, []⟩) hp hw hg ha hb hmax
  let mid : IngestService ι := { svc₁.setCtx (ctxKey ns shard.id) ctx' with
    router := { svc₁.router with
      etcd := svc₁.router.etcd.setShard { shard with vectorCount := ctx'.shard.vectorCount } }
    replicator := replicator
    replicationStats := stats }
  obtain ⟨hbase, hlogs⟩ := flushLogs_ok mid (PySet.add ∅ (ctxKey ns shard.id))
  have hctx : (mid.flushLogs (PySet.add ∅ (ctxKey ns shard.id))).shards.get? (ctxKey ns shard.id) =
      some ctx'.flushWal := by
    have hmid : mid.shards.get? (ctxKey ns shard.id) = some ctx' := Dict.get?_set_self _ _ _
    rw [hlogs, hmid, Option.map_some, if_pos (mem_keys_add.mpr (.inl rfl))]
  -- the memtable was flushed with the write, if at all
  have hloop : forEach (flushIfFull X background) (mid.flushLogs (PySet.add ∅ (ctxKey ns shard.id)))
      [ctxKey ns shard.id] =
      (mid.flushLogs (PySet.add ∅ (ctxKey ns shard.id)), .ok ()) := by
    rw [forEach, flushIfFull_eq fun c hc => by
      rw [hctx] at hc
      cases hc
      exact hroom]
    rfl
  rcases @upsert_cases X ι svc _ settings ns _ [(raw, env)] key background hkey hm (by
      rw [List.foldl_cons, List.foldl_nil, he]
      exact hloop) with ⟨e, herr⟩ | ⟨last, result', hok, hsame, -⟩
  · rw [herr] at hup
    cases hup
  · rw [hok] at hup
    cases hup
    refine ⟨?_, ?_⟩
    · rw [hsame.router, hbase.router]
      exact sameShards_opened (routeWrite_mem hw) hg _
    · rw [content_eq, hsame.shards, hctx]
      rfl

/-- After the upsert the record is shown. -/
theorem Takes.visible (hX : X.Lawful) (hk : svc.Keyed)
    (h : Takes X svc ns rec env shard ctx) {raw : Raw}
    {key : Option String} {background : String → FlushEnv} {result : UpsertResult}
    (hkey : (key.filter (· ≠ "")).bind svc.idempotency.get? = none)
    (hm : svc.settings.metadata.get? ns = some settings)
    (hp : parseRecord X ns settings raw env.now env.uuid4 = .ok rec)
    (hup : svc.upsert X ns [(raw, env)] key background = (svc', .ok result)) :
    svc'.visible X ns rec.id.text = .ok (some rec) := by
  obtain ⟨ctx', ha, hget, hhas, hcount, hroom⟩ := h.applyUpsert hX hk (some (X.modelDumpJson rec))
  obtain ⟨svc₁, hg⟩ := h.opens
  have hmax : ctx'.shard.vectorCount ≤ shard.maxVectors := by
    rw [hcount]
    exact h.room
  obtain ⟨hrouter, hcontent⟩ := upsert_applied hkey hm hp h.route hg ha h.bookkeeping hmax hroom hup
  have hroute : svc.router.route X ns rec.id.text = .ok shard := by
    obtain ⟨hselect, hactive, hvalid, -⟩ := routeWrite_ok_iff.mp h.route
    exact route_ok_iff.mpr ⟨hselect, by rw [hactive]; rfl, hvalid⟩
  have hid : (uncounted shard).id = shard.id := rfl
  rw [visible_eq, hrouter.route, hroute]
  show (svc'.content X ns (uncounted shard)).bind _ = _
  rw [content_congr hid, hcontent]
  show shownOf X ctx'.content rec.id.text = _
  rw [shownOf, show ctx'.content.1.get X rec.id.text = _ from hget,
    show ctx'.content.2.has rec.id.text = _ from hhas]
  rfl

/-- A record that is not accepted, or not routed, changes nothing. -/
theorem upsert_refused {raw : Raw} {background : String → FlushEnv} {result : UpsertResult}
    (hm : svc.settings.metadata.get? ns = some settings)
    (h : ∀ rec, parseRecord X ns settings raw env.now env.uuid4 = .ok rec →
      ∀ shard, svc.router.routeWrite X ns rec.id.text svc.nodeId ≠ .ok shard)
    (hup : svc.upsert X ns [(raw, env)] none background = (svc', .ok result)) : svc' = svc := by
  have hone : (upsertRecord X ns settings ⟨svc, [], [], ∅, []⟩ raw env).svc = svc ∧
      (upsertRecord X ns settings ⟨svc, [], [], ∅, []⟩ raw env).touched = ∅ := by
    unfold upsertRecord
    dsimp only
    split
    · exact ⟨rfl, rfl⟩
    · rename_i rec hp
      split
      · exact ⟨rfl, rfl⟩
      · rename_i shard hw
        exact absurd hw (h rec hp shard)
  have hloop : forEach (flushIfFull X background)
      ((upsertRecord X ns settings ⟨svc, [], [], ∅, []⟩ raw env).svc.flushLogs
      (upsertRecord X ns settings ⟨svc, [], [], ∅, []⟩ raw env).touched)
      (upsertRecord X ns settings ⟨svc, [], [], ∅, []⟩ raw env).touched.keys = (svc, .ok ()) := by
    rw [hone.1, hone.2]
    rfl
  simp only [upsert, Option.filter_none, Option.bind_none, hm, List.length_singleton,
    List.foldl_cons, List.foldl_nil, hloop] at hup
  rw [if_neg (by decide)] at hup
  cases hup
  rfl

end IngestService

end Vsector.Ingest
