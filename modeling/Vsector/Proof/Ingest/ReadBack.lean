import Vsector.Proof.Ingest.LastWrite
import Vsector.Proof.Ingest.Restart
import Vsector.Proof.Models.NullFloats
import Vsector.Proof.Storage.LastOperation

/-!
# Accepted records can be read back

An upsert takes any record whose elements `float` converts, a NaN as well. Of
an accepted record the log's entry, the line of an SSTable and the restart of
a shard that has it each give the record back exactly where its floats are
finite (`accepted_read_back_iff`). A shard's log and SSTables are those of
`Logged` between restarts (`Stored`), whatever is flushed and under any name.
-/

namespace Vsector.Storage

open Framework Models

variable {X : Externals} {s : Store} {last : String → Option Op}

/-- A deletion of the empty id, whose entry is skipped. -/
theorem Logged.delete_empty (h : Logged X s last) {segments : SegmentStore}
    (hs : segments = s.segments ∨
      segments = { s.segments with memtable := s.segments.memtable.delete "" }) :
    Logged X ⟨(s.wal.append (deletePayload "")).flush, segments⟩ last := by
  have hlog : ∀ id, lastOp X (s.wal.append (deletePayload "")).flush.durable id = last id := by
    intro id
    simp only [Log.append, Log.flush, h.buffer, List.nil_append]
    rw [lastOp_append, parse_delete_empty]
    exact h.log id
  rcases hs with rfl | rfl
  · exact ⟨hlog, rfl, h.finite, h.hot, h.cold, h.files, h.memtable⟩
  · refine ⟨hlog, rfl, h.finite, h.hot, h.cold, h.files, fun id r hr => h.memtable id r ?_⟩
    simp only [MemTable.delete, Dict.get?_pop] at hr
    split at hr
    · cases hr
    · exact hr

/-- A table that is written has the records of the memtable, one a line. -/
theorem SegmentStore.file_flush {s s' : SegmentStore} {env : FlushEnv} {t : SSTable}
    (h : s.flush X env = (s', .ok (some t))) :
    s'.file t = some (s.memtable.data.values.map fun r => some (X.modelDumpJson r)) := by
  unfold flush at h
  split at h
  · cases h
  · rcases hfault : env.fault with _ | fault
    · rw [hfault] at h
      cases h
      exact Dict.get?_set_self _ _ _
    · rw [hfault] at h
      cases h

end Vsector.Storage

namespace Vsector.Ingest

open Framework Models Storage Sharding Index

variable {X : Externals} {ι : Type} [BaseIndex ι]

/-! ## Runs of one shard -/

/-- What an operation does to an id; no record has the empty one. -/
def ShardOp.op? : ShardOp → Option Op
  | .upsert record _ => some (.upsert record)
  | .delete id => if id = "" then none else some (.delete id)
  | .flush _ => none
  | .restart => none

/-- The last of the operations on an id. -/
def lastOn (ops : List ShardOp) (id : String) : Option Op :=
  Layers.last Op.id (ops.filterMap ShardOp.op?) id

theorem lastOn_append_some {ops : List ShardOp} {op : ShardOp} {o : Op} (h : op.op? = some o) :
    lastOn (ops ++ [op]) = fun id => if o.id = id then some o else lastOn ops id := by
  funext id
  rw [lastOn, List.filterMap_append, List.filterMap_cons_some h, List.filterMap_nil,
    Layers.last_append_singleton]
  rfl

theorem lastOn_append_none {ops : List ShardOp} {op : ShardOp} (h : op.op? = none) :
    lastOn (ops ++ [op]) = lastOn ops := by
  funext id
  rw [lastOn, List.filterMap_append, List.filterMap_cons_none h, List.filterMap_nil,
    List.append_nil]
  rfl

/-- A record that an upsert into the namespace accepts. -/
def Accepted (X : Externals) (settings : Namespace) (r : VectorRecord) : Prop :=
  ∃ ns raw now uuid4, parseRecord X ns settings raw now uuid4 = .ok r

theorem Accepted.dimension {settings : Namespace} {r : VectorRecord} (h : Accepted X settings r) :
    r.dimension = settings.dimension := by
  obtain ⟨ns, raw, now, uuid4, hp⟩ := h
  exact (parseRecord_ok hp).2

/-- The condition on an operation: the records are accepted, and finite. -/
def AcceptedOp (X : Externals) (settings : Namespace) (_ : ShardContext ι) : ShardOp → Prop
  | .upsert record _ => Accepted X settings record ∧ record.Finite
  | _ => True

/-! ## The invariant -/

/-- The log, the tables and the memtable of a context are those of the last operations `last`. -/
structure Stored (X : Externals) (settings : Namespace) (ctx : ShardContext ι)
    (last : String → Option Op) : Prop where
  logged : Logged X ⟨ctx.wal, ctx.segments⟩ last
  ns : ctx.ns = settings
  dimension : ∀ id r, last id = some (.upsert r) → r.dimension = settings.dimension

variable {settings : Namespace} {ctx ctx' : ShardContext ι} {last : String → Option Op}

theorem stored_fresh (shard : Shard) (settings : Namespace) (threshold : Nat) :
    Stored X settings (.fresh shard settings threshold : ShardContext ι) fun _ => none :=
  ⟨logged_new threshold, rfl, fun _ _ h => by cases h⟩

/-- The parts of an upsert that go through. -/
theorem applyUpsert_parts {r : VectorRecord} {payload : Text} {env : FlushEnv}
    (h : ctx.applyUpsert X r payload env none = (ctx', .ok ())) :
    ctx.segments.put X r env = (ctx'.segments, .ok ()) ∧ ctx'.wal = ctx.wal.append payload ∧
    ctx'.ns = ctx.ns := by
  unfold ShardContext.applyUpsert at h
  rcases hput : ctx.segments.put X r env with ⟨segments, exc | ⟨⟩⟩
  · simp only [hput] at h
    cases h
  · simp only [hput, ShardContext.indexRecord] at h
    split at h
    · cases h
    · rename_i hi
      split at hi
      · cases hi
      · cases hi
        cases h
        exact ⟨rfl, rfl, rfl⟩

theorem Stored.upsert (hX : X.Lawful) (h : Stored X settings ctx last) {r : VectorRecord}
    {env : FlushEnv} (hr : r.Finite) (hd : r.dimension = settings.dimension)
    (hs : shardStep X ctx (.upsert r env) = some ctx') :
    Stored X settings ctx' fun id => if idOf r = id then some (.upsert r) else last id := by
  simp only [shardStep] at hs
  split at hs
  · rename_i ctx₁ happly
    cases hs
    obtain ⟨hput, hwal, hns⟩ := applyUpsert_parts happly
    refine ⟨?_, hns.trans h.ns, fun id r' hr' => ?_⟩
    · show Logged X ⟨ctx₁.wal.flush, ctx₁.segments⟩ _
      rw [hwal]
      exact h.logged.put hX hr hput
    · split at hr'
      · cases hr'
        exact hd
      · exact h.dimension id r' hr'
  · cases hs

/-- The parts of a deletion. -/
theorem applyDelete_parts {id : String} (h : ctx.applyDelete X id = (ctx', .ok ())) :
    (ctx'.segments = ctx.segments ∨
      ctx'.segments = { ctx.segments with memtable := ctx.segments.memtable.delete id }) ∧
      ctx'.wal = ctx.wal.append (deletePayload id) ∧ ctx'.ns = ctx.ns := by
  unfold ShardContext.applyDelete at h
  rcases hget : ctx.segments.get X id with exc | rec
  · rw [hget] at h
    cases h
  · rw [hget] at h
    cases h
    cases rec with
    | none => exact ⟨.inl rfl, rfl, rfl⟩
    | some r => exact ⟨.inr rfl, rfl, rfl⟩

theorem Stored.delete (h : Stored X settings ctx last) {id : String}
    (hs : shardStep X ctx (.delete id) = some ctx') :
    (id ≠ "" → Stored X settings ctx' fun a => if id = a then some (.delete id) else last a) ∧
      (id = "" → Stored X settings ctx' last) := by
  simp only [shardStep] at hs
  split at hs
  · rename_i ctx₁ happly
    cases hs
    obtain ⟨hsegments, hwal, hns⟩ := applyDelete_parts happly
    have hflushed : ctx₁.flushWal.wal = (ctx.wal.append (deletePayload id)).flush :=
      congrArg Log.flush hwal
    refine ⟨fun hid => ⟨?_, hns.trans h.ns, fun a r hr => ?_⟩, fun hid =>
      ⟨?_, hns.trans h.ns, h.dimension⟩⟩
    · rw [hflushed]
      exact h.logged.delete hid hsegments
    · split at hr
      · cases hr
      · exact h.dimension a r hr
    · subst hid
      rw [hflushed]
      exact h.logged.delete_empty hsegments
  · cases hs

theorem Stored.flush (hX : X.Lawful) (h : Stored X settings ctx last) {env : FlushEnv}
    (hs : shardStep X ctx (.flush env) = some ctx') : Stored X settings ctx' last := by
  simp only [shardStep] at hs
  split at hs
  · rename_i ctx₁ happly
    cases hs
    unfold ShardContext.flushMemtable at happly
    rcases hf : ctx.segments.flush X env with ⟨segments, exc | t⟩
    · rw [hf] at happly
      cases happly
    · rw [hf] at happly
      cases happly
      exact ⟨h.logged.flush hX hf, h.ns, h.dimension⟩
  · cases hs

/-- A restart succeeds, and recovers the records of the last operations. -/
theorem Stored.restart [LawfulIndex ι] (h : Stored X settings ctx last) :
    ∃ ctx', ctx.restart X = .ok ctx' ∧ Stored X settings ctx' last ∧
      ∀ r, r ∈ ctx'.recovery.records ↔ last (idOf r) = some (.upsert r) := by
  obtain ⟨wal, segments, result, hrec, hlogged, hfind, hn, -⟩ :=
    h.logged.recover ctx.segments.memtable.flushThreshold
  have hmem := mem_recovered hn hfind
  let recovered : ShardContext ι :=
    { shard := ctx.shard, ns := ctx.ns, wal := wal, segments := segments,
      index := BaseIndex.create ctx.ns, lifecycle := ⟨0, 0⟩, recovery := result, tombstones := .ofList result.deletedIds }
  have hdim : ∀ r ∈ result.records, r.dimension = ctx.ns.dimension := by
    intro r hr
    rw [h.ns]
    exact h.dimension _ r ((hmem r).mp hr)
  obtain ⟨ctx', hfold, -, hns, hwal, hsegments, hrecovery, -⟩ :=
    foldlM_indexRecord recovered (LawfulIndex.dimension_create ctx.ns) hdim
  have hroot : recover X (.init ctx.root.wal)
      (.init ctx.segments.memtable.flushThreshold ctx.root.hot ctx.root.cold) =
      .ok (wal, segments, result) := by
    have hdurable : ctx.root.wal = ctx.wal.durable := by
      simp only [ShardContext.root, Log.flush, show ctx.wal.buffer = [] from h.logged.buffer,
        List.append_nil]
    rw [hdurable]
    exact hrec
  refine ⟨ctx', ?_, ⟨by rw [hwal, hsegments]; exact hlogged, hns.trans h.ns, h.dimension⟩, ?_⟩
  · rw [ShardContext.restart, ShardContext.init, hroot]
    exact hfold
  · rw [hrecovery]
    exact hmem

theorem stored_step [LawfulIndex ι] (hX : X.Lawful) {ops : List ShardOp} {op : ShardOp}
    (h : Stored X settings ctx (lastOn ops)) (hc : AcceptedOp X settings ctx op)
    (hs : shardStep X ctx op = some ctx') :
    Stored X settings ctx' (lastOn (ops ++ [op])) := by
  cases op with
  | upsert r env =>
    rw [lastOn_append_some rfl]
    exact h.upsert hX hc.2 hc.1.dimension hs
  | delete id =>
    by_cases hid : id = ""
    · have hop : (ShardOp.delete id).op? = none := if_pos hid
      rw [lastOn_append_none hop]
      exact (h.delete hs).2 hid
    · have hop : (ShardOp.delete id).op? = some (.delete id) := if_neg hid
      rw [lastOn_append_some hop]
      exact (h.delete hs).1 hid
  | flush env =>
    rw [lastOn_append_none rfl]
    exact h.flush hX hs
  | restart =>
    rw [lastOn_append_none rfl]
    obtain ⟨ctx₁, hre, hstored, -⟩ := h.restart
    simp only [shardStep, hre] at hs
    cases hs
    exact hstored

/-! ## Reading a record back -/

/-- The log's entry of the record is parsed as its upsert. -/
def ReadFromLog (X : Externals) (rec : VectorRecord) : Prop :=
  parsePayload X (some (X.modelDumpJson rec)) = some (.upsert rec)

/-- A table that is written of a memtable with the record, beside finite ones, is scanned to the
memtable's records. -/
def ReadFromTable (X : Externals) (rec : VectorRecord) : Prop :=
  ∀ (s s' : SegmentStore) (env : FlushEnv) (t : SSTable), rec ∈ s.memtable.data.values →
    (∀ r ∈ s.memtable.data.values, r = rec ∨ r.Finite) → s.flush X env = (s', .ok (some t)) →
      s'.scan X t = .ok s.memtable.data.values

/-- After any run of a new shard that accepts the record, beside other accepted records that are
finite, a restart succeeds and recovers every record whose id has its upsert as its last operation,
and no others. -/
def SurvivesRestart (X : Externals) (ι : Type) [BaseIndex ι] (shard : Shard) (settings : Namespace)
    (rec : VectorRecord) :
    Prop :=
  ∀ (threshold : Nat) (ops : List ShardOp) (ctx₀ ctx : ShardContext ι),
    ShardContext.init X shard settings threshold ∅ = .ok ctx₀ →
      run (shardStep X) ctx₀ ops = some ctx →
      (∀ r env, .upsert r env ∈ ops → r = rec ∨ Accepted X settings r ∧ r.Finite) →
        ∃ ctx' : ShardContext ι, ctx.restart X = .ok ctx' ∧
          ∀ r, r ∈ ctx'.recovery.records ↔ lastOn ops r.id.text = some (.upsert r)

variable {rec : VectorRecord}

theorem parse_dump_eq (hX : X.Lawful) (h : ReadFromLog X rec) :
    X.modelValidate (X.modelDumpJson rec) = some rec := by
  unfold ReadFromLog parsePayload at h
  simp only [hX.dump_obj, hX.dump_op, not_true_eq_false, if_false, Option.any_none,
    Bool.false_eq_true, Option.map_eq_some_iff] at h
  obtain ⟨r, hr, hop⟩ := h
  cases hop
  exact hr

theorem readFromLog_iff (hX : X.Lawful) (hN : X.NullsFloats) : ReadFromLog X rec ↔ rec.Finite :=
  ⟨fun h => hN.validate.finite (parse_dump_eq hX h), parse_dump hX⟩

theorem readFromTable_iff (hX : X.Lawful) (hN : X.NullsFloats) :
    ReadFromTable X rec ↔ rec.Finite := by
  constructor
  · intro h
    -- a memtable of this record only
    let s : SegmentStore := ⟨∅, ∅, MemTable.put ⟨2, ∅⟩ rec, []⟩
    have hscan := h s _ ⟨1, 1, none⟩ _ (List.mem_singleton.mpr rfl)
      (fun r hr => .inl (List.mem_singleton.mp hr)) rfl
    have hvalues : s.memtable.data.values = [rec] := rfl
    rw [SegmentStore.scan, @SegmentStore.file_flush _ s _ ⟨1, 1, none⟩ _ rfl, hvalues] at hscan
    rcases hv : X.modelValidateJson (X.modelDumpJson rec) with _ | r
    · simp [hv] at hscan
    · simp only [List.map_cons, List.map_nil, List.mapM_cons, Option.bind_some, hv] at hscan
      cases hscan
      exact hN.validateJson.finite hv
  · intro hfin s s' env t _ hs hf
    have hall : ∀ r ∈ s.memtable.data.values, r.Finite := by
      intro r hr
      rcases hs r hr with rfl | hr'
      · exact hfin
      · exact hr'
    rw [SegmentStore.scan, SegmentStore.file_flush hf]
    simp only [mapM_dump hX hall]

/-- A run of accepted records is one of `Stored`. -/
theorem stored_run [LawfulIndex ι] (hX : X.Lawful) {shard : Shard} {threshold : Nat}
    {ops : List ShardOp} {ctx₀ : ShardContext ι}
    (h₀ : ShardContext.init X shard settings threshold ∅ = .ok ctx₀)
    (hr : run (shardStep X) ctx₀ ops = some ctx)
    (hops : ∀ r env, .upsert r env ∈ ops → Accepted X settings r ∧ r.Finite) :
    Stored X settings ctx (lastOn ops) := by
  cases h₀
  have hc : Along (shardStep X) (AcceptedOp X settings)
      (.fresh shard settings threshold : ShardContext ι) ops := by
    refine Along.of_mem fun op hop _ => ?_
    cases op with
    | upsert r env => exact hops r env hop
    | delete id => trivial
    | flush env => trivial
    | restart => trivial
  have hfresh : Stored X settings (.fresh shard settings threshold : ShardContext ι) (lastOn []) :=
    stored_fresh shard settings threshold
  exact invariant_history (I := fun ops ctx => Stored X settings ctx (lastOn ops))
    (fun _ _ _ _ h hc hs => stored_step hX h hc hs) hfresh hc hr

omit [BaseIndex ι] in
/-- What a new log of one entry is recovered to. -/
theorem recover_one {entry : Text} {threshold : Nat} {wal : Log Text} {segments : SegmentStore}
    {result : RecoveryResult} {r : VectorRecord}
    (h : recover X (.init [entry]) (.init threshold ∅ ∅) = .ok (wal, segments, result))
    (hr : r ∈ result.records) : parsePayload X entry = some (.upsert r) := by
  have hrecords : result.records = (Replay.entry X ⟨∅, ∅⟩ entry).records.values := by
    cases h
    rfl
  rw [hrecords, Replay.entry] at hr
  rcases hp : parsePayload X entry with _ | r' | id
  · rw [hp] at hr
    exact absurd hr List.not_mem_nil
  · rw [hp] at hr
    have hvalues : (Replay.apply ⟨∅, ∅⟩ (.upsert r')).records.values = [r'] := rfl
    rw [hvalues, List.mem_singleton] at hr
    rw [hr]
  · rw [hp] at hr
    exact absurd hr List.not_mem_nil

/-- A context keeps the result of the recovery it was made of. -/
theorem foldlM_recovery {rs : List VectorRecord}
    (h : rs.foldlM ShardContext.indexRecord ctx = .ok ctx') :
    ctx'.recovery = ctx.recovery := by
  induction rs generalizing ctx with
  | nil =>
    cases h
    rfl
  | cons r rs ih =>
    rw [List.foldlM_cons] at h
    rcases hi : ctx.indexRecord r with exc | mid
    · rw [hi] at h
      cases h
    · rw [hi] at h
      have hmid : mid.recovery = ctx.recovery := by
        unfold ShardContext.indexRecord at hi
        split at hi
        · cases hi
        · cases hi
          rfl
      exact (ih h).trans hmid

theorem recovery_of_restart (h : ctx.restart X = .ok ctx') : ∃ wal segments,
    recover X (.init ctx.root.wal)
      (.init ctx.segments.memtable.flushThreshold ctx.root.hot ctx.root.cold) =
      .ok (wal, segments, ctx'.recovery) := by
  rw [ShardContext.restart, ShardContext.init] at h
  split at h
  · cases h
  · rename_i wal segments result hrec
    rw [foldlM_recovery h]
    exact ⟨wal, segments, hrec⟩

theorem survivesRestart_iff [LawfulIndex ι] (hX : X.Lawful) (hN : X.NullsFloats) (shard : Shard)
    (ha : Accepted X settings rec) : SurvivesRestart X ι shard settings rec ↔ rec.Finite := by
  constructor
  · intro h
    -- the run that writes this record to a new shard
    let fresh : ShardContext ι := .fresh shard settings 2
    have hshows : Shows X fresh fun _ => none := shows_fresh shard settings 2
    have hfits : (fresh.segments.memtable.put rec).shouldFlush →
        CanFlush { fresh.segments with memtable := fresh.segments.memtable.put rec }
          ⟨1, 1, none⟩ := by
      intro hf
      have hsmall : (fresh.segments.memtable.put rec).shouldFlush = false := rfl
      rw [hsmall] at hf
      cases hf
    obtain ⟨ctx₁, happly, -, hsegments, hwal, -⟩ :=
      upsert_ok hX hshows (some (X.modelDumpJson rec)) ha.dimension hfits
    have hrun : run (shardStep X) fresh [.upsert rec ⟨1, 1, none⟩] = some ctx₁.flushWal := by
      simp only [run, shardStep, happly]
      rfl
    obtain ⟨ctx', hre, hmem⟩ := h 2 _ _ _ rfl hrun fun r env hop => by
      cases List.mem_singleton.mp hop
      exact .inl rfl
    obtain ⟨wal, segments, hrec⟩ := recovery_of_restart hre
    have hroot : ctx₁.flushWal.root = ⟨[some (X.modelDumpJson rec)], ∅, ∅⟩ := by
      simp only [ShardContext.flushWal, ShardContext.root, hwal, hsegments]
      rfl
    rw [hroot] at hrec
    have hlast : lastOn [.upsert rec ⟨1, 1, none⟩] rec.id.text = some (.upsert rec) := by
      have happend := @lastOn_append_some [] (.upsert rec ⟨1, 1, none⟩) _ rfl
      exact (congrFun happend rec.id.text).trans (if_pos rfl)
    exact (readFromLog_iff hX hN).mp (recover_one hrec ((hmem rec).mpr hlast))
  · intro hfin threshold ops ctx₀ ctx h₀ hr hops
    have hstored : Stored X settings ctx (lastOn ops) := by
      refine stored_run hX h₀ hr fun r env hop => ?_
      rcases hops r env hop with rfl | hr
      · exact ⟨ha, hfin⟩
      · exact hr
    obtain ⟨ctx', hre, -, hmem⟩ := hstored.restart
    exact ⟨ctx', hre, hmem⟩

/-- An accepted record is read back from the log, from a table and by a restart exactly where its
floats are finite. -/
theorem accepted_read_back_iff [LawfulIndex ι] (hX : X.Lawful) (hN : X.NullsFloats) (shard : Shard)
    (settings : Namespace) (rec : VectorRecord) (ha : Accepted X settings rec) :
    (ReadFromLog X rec ↔ rec.Finite) ∧ (ReadFromTable X rec ↔ rec.Finite) ∧
      (SurvivesRestart X ι shard settings rec ↔ rec.Finite) :=
  ⟨readFromLog_iff hX hN, readFromTable_iff hX hN, survivesRestart_iff hX hN shard ha⟩

section

private def nulledShard : Shard := ⟨"shard-0", "docs", "node-1", .active, 0, 50000000, [], 0⟩

private def nulledDocs : Namespace := ⟨"docs", 1, .cosine, .flat, 1⟩

/-- A record of one element, as a request has it. -/
private def rawOfOne (id : UUID) (x : Json) : Raw := [("id", .str id.text), ("vector", .arr [x])]

private def recordOfOne (checksum : String) (id : UUID) (x : PyFloat) : VectorRecord :=
  { unitRecordAt x checksum id [] with sourceSystem := "unknown" }

private def oneRecord : VectorRecord := recordOfOne "1" oneId (.finite 1)

private def nanTextRecord : VectorRecord := recordOfOne "nan" zeroId .nan

private theorem accepted_one : Accepted nulling nulledDocs oneRecord :=
  ⟨"docs", rawOfOne oneId (.int 1), "2026-01-01T00:00:00Z", zeroId, rfl⟩

theorem accepted_read_back_number :
    ReadFromLog nulling oneRecord ∧ ReadFromTable nulling oneRecord ∧
    SurvivesRestart nulling FlatIndex nulledShard nulledDocs oneRecord := by
  obtain ⟨hlog, htable, hrestart⟩ :=
    @accepted_read_back_iff _ FlatIndex _ _ nulling_lawful nulling_nullsFloats nulledShard
    nulledDocs oneRecord accepted_one
  have hfin : oneRecord.Finite := by decide
  exact ⟨hlog.mpr hfin, htable.mpr hfin, hrestart.mpr hfin⟩

/-- A new shard after a run. -/
private def nulledAfter (ops : List ShardOp) : Option (ShardContext FlatIndex) :=
  run (shardStep nulling) (.fresh nulledShard nulledDocs 100000) ops

/-- The text of a NaN is accepted as an element: the entry of its record is skipped, and with its
line in a table a restart raises, so that the record beside it is lost as well. -/
theorem nan_text_not_read_back :
    parseRecord nulling "docs" nulledDocs (rawOfOne zeroId (.str "nan")) "2026-01-01T00:00:00Z"
      oneId = .ok nanTextRecord ∧
      parsePayload nulling (some (nulling.modelDumpJson nanTextRecord)) = none ∧
      (∃ ctx ctx', nulledAfter [.upsert oneRecord ⟨1, 1, none⟩,
        .upsert nanTextRecord ⟨1, 1, none⟩] = some ctx ∧
        ctx.restart nulling = .ok ctx' ∧ ctx'.recovery.records = [oneRecord]) ∧
      ∃ ctx, nulledAfter [.upsert oneRecord ⟨1, 1, none⟩, .upsert nanTextRecord ⟨1, 1, none⟩,
        .flush ⟨1, 1, none⟩] = some ctx ∧
        ctx.restart nulling = .error .validationError :=
  ⟨rfl, rfl, ⟨_, _, rfl, rfl, rfl⟩, _, rfl, rfl⟩

end

end Vsector.Ingest
