import Vsector.Proof.Ingest.LastWrite
import Vsector.Proof.Ingest.OneRecord

/-!
# The spellings of an id

`upsert` reads an id as a UUID and keeps the record under its canonical text;
`fetch` and `delete` take the text they are given. So a record that was
written under any other spelling is never found by it, and a delete by that
spelling hides nothing (`id_means_record_iff`). All of this holds of a
service that has been through any requests (`Served`), since its memtables
keep records under the texts of their ids (`Served.keyed`).
-/

namespace Vsector.Ingest

open Framework Models Storage Sharding Index ShardContext

variable {ι : Type} [BaseIndex ι] {X : Externals}

/-! ## Memtables -/

theorem memTableKeyed_empty (threshold : Nat) : MemTableKeyed ⟨threshold, ∅⟩ :=
  fun _ _ h => by cases h

namespace ShardContext

variable {ctx : ShardContext ι}

theorem keyed_applyUpsert (h : MemTableKeyed ctx.segments.memtable) (r : VectorRecord)
    (payload : Text) (env : FlushEnv) (fault : Option (IndexFault ι)) :
    MemTableKeyed (ctx.applyUpsert X r payload env fault).1.segments.memtable := by
  have hput : MemTableKeyed (ctx.segments.put X r env).1.memtable := by
    rw [put_memtable]
    split
    · exact memTableKeyed_empty _
    · exact h.put r
  unfold applyUpsert
  dsimp only
  split
  · exact hput
  · split
    · exact hput
    · unfold indexRecord
      split
      · exact hput
      · rename_i hindexed
        split at hindexed
        · cases hindexed
        · cases hindexed
          exact hput

theorem keyed_applyDelete (h : MemTableKeyed ctx.segments.memtable) (id : String) :
    MemTableKeyed (ctx.applyDelete X id).1.segments.memtable := by
  unfold applyDelete
  split
  · exact h
  · dsimp only
    split
    · exact h.delete id
    · exact h

end ShardContext

namespace IngestService

variable {svc svc' : IngestService ι} {ns : String} {shard : Shard} {settings : Namespace}

/-! ## Services -/

omit [BaseIndex ι] in
theorem Keyed.congr (h : svc.Keyed) (hs : svc'.shards = svc.shards) : svc'.Keyed := by
  unfold Keyed
  rw [hs]
  exact h

omit [BaseIndex ι] in
theorem Keyed.set (h : svc.Keyed) {key : String} {ctx : ShardContext ι}
    (hc : MemTableKeyed ctx.segments.memtable) (hs : svc'.shards = svc.shards.set key ctx) :
    svc'.Keyed := by
  intro a c ha
  rw [hs, Dict.get?_set] at ha
  split at ha
  · cases ha
    exact hc
  · exact h a c ha

theorem Keyed.getOrCreateCtx (h : svc.Keyed) {ctx : ShardContext ι}
    (hg : svc.getOrCreateCtx X ns shard = .ok (svc', ctx)) :
    svc'.Keyed ∧ MemTableKeyed ctx.segments.memtable := by
  have hcontent : svc.content X ns shard = .ok ctx.content := by rw [content, hg]; rfl
  have hctx : MemTableKeyed ctx.segments.memtable := content_keyed h hcontent
  refine ⟨?_, hctx⟩
  unfold IngestService.getOrCreateCtx at hg
  split at hg
  · cases hg
    exact h
  · split at hg
    · cases hg
    · split at hg
      · cases hg
      · cases hg
        exact h.set hctx rfl

theorem Keyed.upsertRecord {s : UpsertState ι} (h : s.svc.Keyed) (raw : Raw) (env : RecordEnv ι) :
    (upsertRecord X ns settings s raw env).svc.Keyed := by
  unfold IngestService.upsertRecord
  dsimp only
  split
  · exact h
  · rename_i rec _
    split
    · exact h
    · split
      · exact h
      · rename_i svc ctx hg
        obtain ⟨hsvc, hctx⟩ := h.getOrCreateCtx hg
        have happlied := keyed_applyUpsert (X := X) hctx rec (some (X.modelDumpJson rec))
          env.flush env.index
        split
        · rename_i ctx' e ha
          rw [ha] at happlied
          exact hsvc.set happlied rfl
        · rename_i ctx' ha
          rw [ha] at happlied
          split
          · exact hsvc.set happlied rfl
          · split
            · exact hsvc.set happlied rfl
            · exact hsvc.set happlied rfl

omit [BaseIndex ι] in
theorem Keyed.flushLogs (h : svc.Keyed) (touched : PySet String) :
    (svc.flushLogs touched).Keyed := by
  intro key ctx hctx
  rw [(flushLogs_ok svc touched).2, Option.map_eq_some_iff] at hctx
  obtain ⟨c, hc, rfl⟩ := hctx
  split
  · exact h key c hc
  · exact h key c hc

omit [BaseIndex ι] in
theorem Keyed.flushIfFull (h : svc.Keyed) (background : String → FlushEnv) (key : String) :
    (flushIfFull X background svc key).1.Keyed := by
  unfold IngestService.flushIfFull
  split
  · exact h
  · rename_i ctx _
    split
    · have hflushed : MemTableKeyed (ctx.flushMemtable X (background key)).1.segments.memtable := by
        show MemTableKeyed (ctx.segments.flush X (background key)).1.memtable
        rw [flush_memtable]
        exact memTableKeyed_empty _
      exact h.set hflushed rfl
    · exact h

theorem Keyed.upsert (h : svc.Keyed) (records : List (Raw × RecordEnv ι)) (key : Option String)
    (background : String → FlushEnv) : (svc.upsert X ns records key background).1.Keyed := by
  unfold IngestService.upsert
  dsimp only
  split
  · exact h
  · split
    · exact h
    · rename_i settings _
      split
      · exact h
      · have hrecords :
            (records.foldl (fun s r => IngestService.upsertRecord X ns settings s r.1 r.2)
            ⟨svc, [], [], ∅, []⟩).svc.Keyed :=
          List.foldlRecOn (motive := fun s : UpsertState ι => s.svc.Keyed) records _ h
            fun s hs r _ => hs.upsertRecord r.1 r.2
        generalize records.foldl (fun s r => IngestService.upsertRecord X ns settings s r.1 r.2)
          ⟨svc, [], [], ∅, []⟩ = s at *
        have hflushed : (forEach (IngestService.flushIfFull X background)
            (s.svc.flushLogs s.touched) s.touched.keys).1.Keyed :=
          forEach_invariant (hrecords.flushLogs _) fun key _ t ht => ht.flushIfFull background key
        split
        · rename_i he
          rw [he] at hflushed
          exact hflushed
        · rename_i he
          rw [he] at hflushed
          exact hflushed.congr rfl

theorem Keyed.deleteId {s : DeleteState ι} (h : s.svc.Keyed) (env : Nat → DeliveryEnv)
    (id : String × Nat) :
    (deleteId X ns settings shard env s id).1.svc.Keyed := by
  unfold IngestService.deleteId
  dsimp only
  split
  · exact h
  · rename_i ctx hctx
    have happlied := keyed_applyDelete (X := X) (h _ ctx hctx) id.1
    split
    · rename_i ha
      rw [ha] at happlied
      exact h.set happlied rfl
    · rename_i ha
      rw [ha] at happlied
      exact h.set happlied rfl

theorem Keyed.deleteMatch {s : DeleteState ι} (h : s.svc.Keyed) (filter : Query.Filter)
    (env : Nat → DeliveryEnv) (rec : VectorRecord × Nat) :
    (deleteMatch X ns settings shard filter env s rec).1.svc.Keyed := by
  unfold IngestService.deleteMatch
  dsimp only
  split
  · exact h
  · exact h
  · exact h
  · rename_i ctx _ hctx
    exact h.set ((h _ ctx hctx).delete _) rfl

theorem Keyed.deleteRequest (h : svc.Keyed) (ids : Option (List String))
    (filter : Option Query.Filter) (env : String → Nat → DeliveryEnv) :
    (svc.deleteRequest X ns ids filter env).1.Keyed := by
  have hshards : ∀ {block : Namespace → DeleteState ι → Shard → DeleteState ι × Except Exc Unit},
      (∀ settings s shard, s.svc.Keyed → (block settings s shard).1.svc.Keyed) →
        (svc.deleteOnShards ns block).1.Keyed := by
    intro block hblock
    unfold deleteOnShards
    split
    · exact h
    · rename_i settings _
      split
      · exact h
      · rename_i shards _
        have hdeleted : (forEach (block settings) ⟨svc, 0, ∅, []⟩ shards).1.svc.Keyed :=
          forEach_invariant (I := fun s : DeleteState ι => s.svc.Keyed) h fun shard _ t ht =>
            hblock settings t shard ht
        split
        · rename_i he
          rw [he] at hdeleted
          exact hdeleted
        · rename_i he
          rw [he] at hdeleted
          exact hdeleted.flushLogs _
  unfold IngestService.deleteRequest
  split
  · rw [deleteByFilter_eq]
    refine hshards fun settings s shard hs => ?_
    unfold deleteFilterOnShard
    split
    · exact hs
    · rename_i hg
      split
      · exact (hs.getOrCreateCtx hg).1
      · exact forEach_invariant (I := fun s : DeleteState ι => s.svc.Keyed) (hs.getOrCreateCtx hg).1
          fun rec _ t ht => ht.deleteMatch _ _ rec
  · rw [delete_eq]
    refine hshards fun settings s shard hs => ?_
    unfold deleteOnShard
    split
    · exact hs
    · rename_i hg
      exact forEach_invariant (I := fun s : DeleteState ι => s.svc.Keyed) (hs.getOrCreateCtx hg).1
        fun id _ t ht => ht.deleteId _ id

theorem Keyed.fetch (h : svc.Keyed) (ids : List String) : (svc.fetch X ns ids).1.Keyed := by
  have hloop : (forEach (fetchOne X ns) (svc, []) ids).1.1.Keyed :=
    forEach_invariant (I := fun s : IngestService ι × List Payload => s.1.Keyed) h
      fun id _ t ht => by
      unfold fetchOne
      split
      · exact ht
      · split
        · exact ht
        · rename_i hg
          split
          · exact (ht.getOrCreateCtx hg).1
          · exact (ht.getOrCreateCtx hg).1
  unfold IngestService.fetch
  split
  · rename_i he
    rw [he] at hloop
    exact hloop
  · rename_i he
    rw [he] at hloop
    exact hloop

/-- The services that requests lead to, from one without contexts. Between them what is not the
service's own may change: the settings, the store, the directories. -/
inductive Served (X : Externals) : IngestService ι → Prop where
  | start {svc : IngestService ι} (h : svc.shards = ∅) : Served X svc
  | upsert {svc : IngestService ι} (h : Served X svc) (ns : String)
      (records : List (Raw × RecordEnv ι)) (key : Option String)
      (background : String → FlushEnv) : Served X (svc.upsert X ns records key background).1
  | delete {svc : IngestService ι} (h : Served X svc) (ns : String) (ids : Option (List String))
      (filter : Option Query.Filter)
      (env : String → Nat → DeliveryEnv) : Served X (svc.deleteRequest X ns ids filter env).1
  | fetch {svc : IngestService ι} (h : Served X svc) (ns : String) (ids : List String) :
      Served X (svc.fetch X ns ids).1
  | between {svc svc' : IngestService ι} (h : Served X svc) (hs : svc'.shards = svc.shards) :
      Served X svc'

theorem Served.keyed (h : Served X svc) : svc.Keyed := by
  induction h with
  | start h =>
    intro key ctx hctx
    rw [h] at hctx
    cases hctx
  | upsert _ ns records key background ih => exact ih.upsert records key background
  | delete _ ns ids filter env ih => exact ih.deleteRequest ids filter env
  | fetch _ ns ids ih => exact ih.fetch ids
  | between _ hs ih => exact ih.congr hs

/-! ## One meaning -/

/-- The text `s`, under which a record was written with the id `u`, means this record: a fetch by
it returns the record, and after a delete by it no spelling of the id can be fetched. -/
structure MeansRecord (X : Externals) (svc : IngestService ι) (ns s : String) (u : UUID)
    (rec : VectorRecord) : Prop where
  fetches : svc.Fetches X ns s rec.toPayload
  deletes : ∀ env svc' result, svc.deleteRequest X ns (some [s]) none env = (svc', .ok result) →
    ∀ t, X.uuid t = some u → ¬ svc'.Fetchable X ns t

/-- The service writes the record: it does not answer from an earlier result, and the write goes
through. -/
def Writes (X : Externals) (svc : IngestService ι) (ns : String) (key : Option String)
    (rec : VectorRecord) (env : RecordEnv ι) :
    Prop :=
  (key.filter (· ≠ "")).bind svc.idempotency.get? = none ∧
  ∃ shard ctx, Takes X svc ns rec env shard ctx

variable {s : String} {u : UUID} {rec : VectorRecord} {raw : Raw} {env : RecordEnv ι}
  {key : Option String} {background : String → FlushEnv} {result : UpsertResult}

/-- A text that is found is the canonical one. -/
theorem canonical_of_fetches (hX : X.Lawful) (hk : svc.Keyed) (hu : X.uuid s = some u) {p : Payload}
    (h : svc.Fetches X ns s p) : s = u.text := by
  obtain ⟨r, hr, -⟩ := fetches_visible.mp h
  have htext := visible_canonical hk hr
  rw [← htext, hX.uuid_text] at hu
  rw [← Option.some.inj hu, htext]

/-- After a delete by the canonical text, no spelling of the id can be fetched. -/
theorem unfetchable_after_delete (hX : X.Lawful) (hk : svc.Keyed) {env : String → Nat → DeliveryEnv}
    {result : DeleteResult}
    (h : svc.deleteRequest X ns (some [u.text]) none env = (svc', .ok result)) {t : String}
    (ht : X.uuid t = some u) :
    ¬ svc'.Fetchable X ns t := by
  intro hf
  have hkept : svc'.Keyed := by
    have := @Keyed.deleteRequest _ _ X _ ns hk (some [u.text]) none env
    rw [h] at this
    exact this
  obtain ⟨v, rfl⟩ := fetchable_canonical hkept hf
  rw [hX.uuid_text, Option.some.injEq] at ht
  subst ht
  have hd : svc.delete X ns [v.text] env = (svc', .ok result) := h
  rw [delete_eq] at hd
  obtain ⟨t, hp, -, rfl⟩ := pass_deleteOnShards (fun _ => shardBlock_deleteOnShard [v.text]) hd
  rw [fetchable_flushLogs] at hf
  obtain ⟨hold, hgone⟩ := (Pass.fetchable (s := ⟨svc, 0, ∅, []⟩) hp v.text).mp hf
  obtain ⟨r, hr⟩ := fetchable_iff.mp hold
  refine hgone ?_
  -- the shard it is read from is one of those it was hidden on
  unfold goneAt goneOn
  rw [visible_eq] at hr
  rcases hroute : svc.router.route X ns v.text with exc | shard
  · rw [hroute] at hr
    cases hr
  · rw [hroute] at hr
    have hid : (uncounted shard).id = shard.id := rfl
    change (svc.content X ns (uncounted shard)).bind _ = _ at hr
    rw [content_congr hid] at hr
    rcases hc : svc.content X ns shard with exc | c
    · rw [hc] at hr
      cases hr
    · dsimp only
      rw [hc]
      exact List.mem_singleton.mpr rfl

/-- An id that `upsert` accepts in some spelling means the record in that spelling only if it is
the canonical text; then it does, where the record is written. -/
theorem id_means_record_iff (hX : X.Lawful) (h : Served X svc)
    (hm : svc.settings.metadata.get? ns = some settings)
    (hid : raw.lookup "id" = some (.str s)) (hu : X.uuid s = some u)
    (hp : parseRecord X ns settings raw env.now env.uuid4 = .ok rec)
    (hup : svc.upsert X ns [(raw, env)] key background = (svc', .ok result)) :
    (svc'.MeansRecord X ns s u rec → s = u.text) ∧
      (svc.Writes X ns key rec env → (svc'.MeansRecord X ns s u rec ↔ s = u.text)) := by
  have hkept : svc'.Keyed := by
    have := (h.upsert ns [(raw, env)] key background).keyed
    rw [hup] at this
    exact this
  have hcanonical : svc'.MeansRecord X ns s u rec → s = u.text := fun hmeans =>
    canonical_of_fetches hX hkept hu hmeans.fetches
  refine ⟨hcanonical, fun ⟨hkey, shard, ctx, htakes⟩ => ⟨hcanonical, ?_⟩⟩
  rintro rfl
  obtain ⟨hrec, -⟩ := parseRecord_ok hp
  rw [recordId_eq hX hid, Except.ok.injEq] at hrec
  subst hrec
  refine ⟨fetches_visible.mpr ⟨rec, htakes.visible hX h.keyed hkey hm hp hup, rfl⟩,
    fun env' svc'' result' hdel t ht => ?_⟩
  exact unfetchable_after_delete hX hkept hdel ht

section

/-- A text with braces, upper-case digits and any hyphens is read as the UUID of its digits. -/
@[irreducible] def spelledUUID (text : String) : Option UUID :=
  if h : isCanonicalUUID text then some ⟨text, h⟩
  else
    let digits := (text.toList.filter fun c => c ≠ '{' ∧ c ≠ '}' ∧ c ≠ '-').map Char.toLower
    let group (i n : Nat) : List Char := (digits.drop i).take n
    let canonical := String.ofList
      (group 0 8 ++ '-' :: (group 8 4 ++ '-' ::
        (group 12 4 ++ '-' :: (group 16 4 ++ '-' :: digits.drop 20))))
    if h : isCanonicalUUID canonical then some ⟨canonical, h⟩ else none

/-- `fieldwise`, with ids in all of these spellings. -/
def spelled : Externals := { fieldwise with uuid := spelledUUID }

theorem spelledUUID_text (u : UUID) : spelledUUID u.text = some u := by
  unfold spelledUUID
  rw [dif_pos u.canonical]

theorem spelled_lawful : spelled.Lawful :=
  ⟨fieldwise_lawful.validate_dump, fieldwise_lawful.validate_modelDump,
    fieldwise_lawful.validateJson_dump,
    fieldwise_lawful.validate_id, fieldwise_lawful.dump_obj, fieldwise_lawful.dump_op,
      spelledUUID_text⟩

private def spelledDocs : Namespace := ⟨"docs", 1, .cosine, .flat, 1⟩

private def spelledShard : Shard := ⟨"shard-0", "docs", "node-1", .active, 0, 50000000, [], 1⟩

/-- A service that is starting, with one shard. -/
private def spelledStart : IngestService FlatIndex where
  settings := ⟨Dict.set ∅ "docs" spelledDocs, 10000⟩
  router := ⟨(InMemoryEtcd.init none).put spelledShard, none⟩
  nodeId := some "node-1"
  roots := ∅
  replicator := .init ∅
  replicationStats := ∅
  shards := ∅
  idempotency := ∅

private def spelledRaw (id : String) : Raw :=
  [("id", .str id), ("vector", .arr [.int 1]), ("source_system", .str "api")]

private def spelledEnv : RecordEnv FlatIndex :=
  ⟨"2026-01-01T00:00:00Z", oneId, ⟨1, 1, none⟩, none, ⟨0, fun _ => ⟨1, 1, none⟩⟩,
    none, ⟨"a", "b", none⟩⟩

private def braced : String := "{00000000-0000-0000-0000-000000000000}"

private theorem uuid_braced : spelled.uuid braced = some zeroId := by decide +kernel

private theorem parse_spelled {id : String} (h : spelled.uuid id = some zeroId) :
    parseRecord spelled "docs" spelledDocs (spelledRaw id) spelledEnv.now spelledEnv.uuid4 =
      .ok (unitRecord zeroId []) := by
  have hid : recordId spelled (spelledRaw id) spelledEnv.uuid4 = .ok zeroId := by
    have hraw : (spelledRaw id).lookup "id" = some (.str id) := rfl
    simp only [recordId, hraw, h]
  have hfields : readFields (spelledRaw id) = some ([], [], "api") := rfl
  have hvector : (spelledRaw id).lookup "vector" = some (.arr [.int 1]) := rfl
  have hfloats : [Json.int 1].mapM spelled.floatOf = .ok [.finite 1] := rfl
  simp only [parseRecord, hid, hvector, Option.getD_some, pyList, hfloats, hfields]
  rw [if_neg (by decide)]
  have hnew : VectorRecord.new spelled spelledEnv.now zeroId "docs" [.finite 1]
      spelledDocs.dimension [] [] "api" =
      some (unitRecord zeroId []) := by
    unfold VectorRecord.new
    rw [dif_pos (List.cons_ne_nil _ _),
      dif_pos (show spelledDocs.dimension = [PyFloat.finite 1].length from rfl)]
    rfl
  rw [hnew]

/-- The service after the upsert of the record, whatever the spelling. -/
private def spelledWritten : IngestService FlatIndex :=
  (upsertRecord fieldwise "docs" spelledDocs ⟨spelledStart, [], [], ∅, []⟩ (spelledRaw zeroId.text)
    spelledEnv).svc.flushLogs
    (PySet.add ∅ "docs:shard-0")

private theorem upsert_spelled {id : String} (h : spelled.uuid id = some zeroId) : ∃ result,
    spelledStart.upsert spelled "docs" [(spelledRaw id, spelledEnv)] none (fun _ => ⟨1, 1, none⟩) =
      (spelledWritten, .ok result) ∧
      result.upserted = 1 := by
  have hm : spelledStart.settings.metadata.get? "docs" = some spelledDocs := rfl
  simp only [upsert, Option.filter_none, Option.bind_none, hm, List.length_singleton,
    List.foldl_cons, List.foldl_nil, upsertRecord, parse_spelled h]
  exact ⟨_, rfl, rfl⟩

/-- The canonical text means the record. -/
theorem canonical_means_record : ∃ svc' result,
    spelledStart.upsert spelled "docs" [(spelledRaw zeroId.text, spelledEnv)] none
      (fun _ => ⟨1, 1, none⟩) = (svc', .ok result) ∧
      svc'.MeansRecord spelled "docs" zeroId.text zeroId (unitRecord zeroId []) := by
  have hu : spelled.uuid zeroId.text = some zeroId := spelledUUID_text zeroId
  obtain ⟨result, hup, -⟩ := upsert_spelled hu
  refine ⟨_, _, hup, ?_⟩
  have hm : spelledStart.settings.metadata.get? "docs" = some spelledDocs := rfl
  have hid : (spelledRaw zeroId.text).lookup "id" = some (.str zeroId.text) := rfl
  let ctx : ShardContext FlatIndex := .fresh spelledShard spelledDocs 10000
  have hfull : ¬ (ctx.segments.memtable.put (unitRecord zeroId [])).shouldFlush := by decide
  have htakes : Takes spelled spelledStart "docs" (unitRecord zeroId []) spelledEnv
      spelledShard ctx :=
    ⟨rfl, ⟨_, rfl⟩, fun h => absurd h hfull, rfl, ⟨_, rfl⟩, rfl, by decide⟩
  exact ((id_means_record_iff spelled_lawful (.start rfl) hm hid hu (parse_spelled hu) hup).2
    ⟨rfl, _, _, htakes⟩).mpr rfl

/-- In braces the record is written and not found, and a delete leaves it there. -/
theorem braces_mean_nothing :
    spelled.Lawful ∧ Served spelled spelledStart ∧ spelled.uuid braced = some zeroId ∧
    ∃ svc' result svc'' result',
      spelledStart.upsert spelled "docs" [(spelledRaw braced, spelledEnv)] none
        (fun _ => ⟨1, 1, none⟩) = (svc', .ok result) ∧
      result.upserted = 1 ∧ (svc'.fetch spelled "docs" [braced]).2 = .ok [] ∧
      svc'.deleteRequest spelled "docs" (some [braced]) none
        (fun _ _ => ⟨0, fun _ => ⟨1, 1, none⟩⟩) = (svc'', .ok result') ∧
      svc''.Fetchable spelled "docs" zeroId.text ∧
      ¬ svc'.MeansRecord spelled "docs" braced zeroId (unitRecord zeroId []) := by
  obtain ⟨result, hup, hcount⟩ := upsert_spelled uuid_braced
  have hstart : Served spelled spelledStart := .start rfl
  have hkeyed : spelledWritten.Keyed := by
    have := (hstart.upsert "docs" [(spelledRaw braced, spelledEnv)] none fun _ =>
      ⟨1, 1, none⟩).keyed
    rw [hup] at this
    exact this
  refine ⟨spelled_lawful, hstart, uuid_braced, _, _, _, _, hup, hcount, rfl, rfl,
    ⟨_, _, rfl⟩, fun h => ?_⟩
  exact absurd (canonical_of_fetches spelled_lawful hkeyed uuid_braced h.fetches) (by decide)

end

end IngestService

end Vsector.Ingest
