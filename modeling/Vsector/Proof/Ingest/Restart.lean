import Vsector.Framework.Run
import Vsector.Proof.Ingest.ShardContext
import Vsector.Proof.Models.Documents

/-!
# Restarting a shard

A shard context between restarts keeps the last operation of every id both in
what it shows and in its log (`Kept`, `kept_step`). A restart then shows the
same, and `fetch` returns the same for every id (`restart_invisible`), unless
the SSTables hold an older record of an id with the version and checksum of
the current one (`RestartOk`). Records are always written with version 1 and
the checksum covers the vector only, so a flushed record whose metadata are
updated is such a record: the update is lost (`metadata_update_lost`).
-/

namespace Vsector.Ingest

open Framework Models Storage Index

variable {X : Externals} {ι : Type} [BaseIndex ι]

/-! ## Runs of one shard -/

/-- What happens to a shard: acknowledged operations, memtable flushes and restarts. -/
inductive ShardOp where
  | upsert (record : VectorRecord) (env : FlushEnv)
  | delete (id : String)
  | flush (env : FlushEnv)
  | restart

/-- The shard after an operation, its log flushed; `none` where the operation raises. -/
def shardStep (X : Externals) (ctx : ShardContext ι) : ShardOp → Option (ShardContext ι)
  | .upsert record env =>
    match ctx.applyUpsert X record (some (X.modelDumpJson record)) env none with
    | (ctx, .ok ()) => some ctx.flushWal
    | (_, .error _) => none
  | .delete id =>
    match ctx.applyDelete X id with
    | (ctx, .ok ()) => some ctx.flushWal
    | (_, .error _) => none
  | .flush env =>
    match ctx.flushMemtable X env with
    | (ctx, .ok ()) => some ctx
    | (_, .error _) => none
  | .restart => (ctx.restart X).toOption

/-- A flush writes finite floats, to a file whose name sorts after those of all others. -/
def FlushOk (s : SegmentStore) (env : FlushEnv) : Prop :=
  (∀ r ∈ s.memtable.data.values, r.Finite) ∧ NamesLast s env ∧ env.fault = none

instance (s : SegmentStore) (env : FlushEnv) : Decidable (FlushOk s env) :=
  inferInstanceAs (Decidable (_ ∧ _ ∧ _))

/-- Every record served is finite, and the SSTables have no other record of its id with its version
and checksum. -/
def RestartOk (X : Externals) (ctx : ShardContext ι) : Prop :=
  ∀ id r, ctx.segments.get X id = .ok (some r) → ctx.tombstones.has id = false → r.Finite ∧
    ∀ d c, ctx.segments.durableRecordsById X = .ok d → d.get? id = some c →
      (c.version, c.checksum) = (r.version, r.checksum) → c = r

omit [BaseIndex ι] in
/-- Nothing to compare with where no table was written. -/
theorem restartOk_of_memtable {ctx : ShardContext ι} (ht : ctx.segments.sstables = [])
    (hf : ∀ r ∈ ctx.segments.memtable.data.values, r.Finite) : RestartOk X ctx := by
  intro id r hr _
  constructor
  · simp only [SegmentStore.get, ht, List.reverse_nil, SegmentStore.getTables, MemTable.get] at hr
    split at hr
    · rename_i v hv
      cases hr
      exact hf _ (Dict.mem_values.mpr ⟨id, hv⟩)
    · cases hr
  · intro d c hd hc _
    rw [SegmentStore.durableRecordsById, ht] at hd
    cases hd
    cases hc

/-- The condition on an operation: a record has the dimension of the namespace, a memtable flush is
`FlushOk` and a restart `RestartOk`. -/
def ShardOk (X : Externals) (ctx : ShardContext ι) : ShardOp → Prop
  | .upsert record env => record.dimension = ctx.ns.dimension ∧
    ((ctx.segments.memtable.put record).shouldFlush →
      FlushOk { ctx.segments with memtable := ctx.segments.memtable.put record } env)
  | .delete _ => True
  | .flush env => ctx.segments.memtable.count ≠ 0 → FlushOk ctx.segments env
  | .restart => RestartOk X ctx

/-! ## The invariant -/

theorem idOf_ne_empty (r : VectorRecord) : idOf r ≠ "" := by
  intro h
  have hc := r.id.canonical
  rw [show r.id.text = "" from h] at hc
  exact absurd hc (by decide)

/-- The last operation of every id after one more; a deletion of the empty id, which no record has,
is none. -/
def record (last : String → Option Op) (op : Op) : String → Option Op :=
  if op.id = "" then last else write last op

theorem record_apply {last : String → Option Op} {op : Op} {id : String} :
    record last op id = if id = op.id ∧ op.id ≠ "" then some op else last id := by
  rw [record]
  split
  · rename_i h; simp [h]
  · rename_i h; rw [write_apply]; simp [h]

/-- A context shows the last operations `last`, and its log has them. -/
structure Kept (X : Externals) [LawfulIndex ι] (ctx : ShardContext ι) (last : String → Option Op) :
    Prop where
  shows : Shows X ctx last
  sorted : Sorted ctx.segments
  buffer : ctx.wal.buffer = []
  /-- The log's entries of a record that is not finite may not be read back. -/
  log : ∀ id, (∀ r, last id = some (.upsert r) → r.Finite) → lastOp X ctx.wal.durable id = last id
  dimension : ∀ id r, last id = some (.upsert r) → r.dimension = ctx.ns.dimension
  empty : last "" = none

variable [LawfulIndex ι] {ctx : ShardContext ι} {last : String → Option Op}

/-- A deletion of the empty id shows what was shown before. -/
theorem Shows.record {op : Op} (h : Shows X ctx (write last op)) (he : last "" = none) :
    Shows X ctx (record last op) := by
  by_cases hop : op.id = ""
  · obtain ⟨tables, hr, hs⟩ := h.tables
    refine ⟨h.index, tables, hr, fun id => ?_⟩
    rw [Ingest.record, if_pos hop]
    by_cases hid : id = ""
    · rw [hid, he]
      exact Option.eq_none_iff_forall_ne_some.mpr fun r hr' => idOf_ne_empty r (hr.keyed_served hr')
    · have := hs id
      rwa [write_apply, hop, if_neg hid] at this
  · rwa [Ingest.record, if_neg hop]

theorem FlushOk.canFlush {s : SegmentStore} {env : FlushEnv} (h : FlushOk s env) : CanFlush s env :=
  ⟨h.1, h.2.1.get?, h.2.2⟩

/-- An entry added to the log. -/
theorem kept_log {entries : List Text} {op : Op} {payload : Text}
    (hlog : ∀ id, (∀ r, last id = some (.upsert r) → r.Finite) → lastOp X entries id = last id)
    (hp : (∀ r, op = .upsert r → r.Finite) → op.id ≠ "" → parsePayload X payload = some op)
    (hid : ∀ op', parsePayload X payload = some op' → op'.id = op.id ∧ op.id ≠ "") (id : String)
    (hf : ∀ r, record last op id = some (.upsert r) → r.Finite) :
    lastOp X (entries ++ [payload]) id = record last op id := by
  rw [record_apply] at hf ⊢
  rw [lastOp_append]
  by_cases h : id = op.id ∧ op.id ≠ ""
  · rw [if_pos h] at hf ⊢
    rw [hp (fun r hr => hf r (by rw [hr])) h.2]
    exact if_pos h.1.symm
  · rw [if_neg h] at hf ⊢
    cases hpay : parsePayload X payload with
    | none => exact hlog id hf
    | some op' =>
      have ho := hid op' hpay
      have hne : op'.id ≠ id := fun he => h ⟨he.symm.trans ho.1, ho.2⟩
      exact (if_neg hne).trans (hlog id hf)

theorem Kept.upsert (hX : X.Lawful) (h : Kept X ctx last) {r : VectorRecord} {env : FlushEnv}
    (hc : ShardOk X ctx (.upsert r env)) {ctx' : ShardContext ι}
    (hs : shardStep X ctx (.upsert r env) = some ctx') :
    Kept X ctx' (record last (.upsert r)) ∧ ctx'.ns = ctx.ns := by
  obtain ⟨ctx₁, h₁, hsh, hseg, hwal, hns, -⟩ :=
    upsert_ok hX h.shows (some (X.modelDumpJson r)) hc.1 fun hf => (hc.2 hf).canFlush
  simp only [shardStep, h₁] at hs
  cases hs
  refine ⟨⟨?_, ?_, rfl, ?_, ?_, ?_⟩, hns⟩
  · exact (hsh.congr rfl rfl rfl rfl : Shows X ctx₁.flushWal _).record h.empty
  · show Sorted ctx₁.segments
    rw [hseg]
    exact h.sorted.put fun hf => ⟨(hc.2 hf).2.1, (hc.2 hf).2.2⟩
  · intro id hf
    have hd : ctx₁.flushWal.wal.durable = ctx.wal.durable ++ [some (X.modelDumpJson r)] := by
      simp only [ShardContext.flushWal, hwal, Log.append, Log.flush, h.buffer]
      rfl
    rw [hd]
    exact kept_log h.log (fun hfin _ => parse_dump hX (hfin r rfl))
      (fun op' hp => ⟨id_of_parse_dump hX hp, idOf_ne_empty r⟩) id hf
  · intro id r' hr'
    show r'.dimension = ctx₁.ns.dimension
    rw [hns]
    rw [record_apply] at hr'
    split at hr'
    · cases hr'; exact hc.1
    · exact h.dimension id r' hr'
  · rw [record_apply, if_neg fun hn => hn.2 hn.1.symm]
    exact h.empty

theorem Kept.delete (h : Kept X ctx last) {id : String} {ctx' : ShardContext ι}
    (hs : shardStep X ctx (.delete id) = some ctx') :
    Kept X ctx' (record last (.delete id)) ∧ ctx'.ns = ctx.ns := by
  obtain ⟨ctx₁, h₁, hsh, hseg, hwal, hns, -⟩ := delete_ok h.shows id
  simp only [shardStep, h₁] at hs
  cases hs
  refine ⟨⟨?_, ?_, rfl, ?_, ?_, ?_⟩, hns⟩
  · exact (hsh.congr rfl rfl rfl rfl : Shows X ctx₁.flushWal _).record h.empty
  · show Sorted ctx₁.segments
    rw [hseg]
    exact ⟨h.sorted.cold, h.sorted.sstables, h.sorted.names⟩
  · intro a hf
    have hd : ctx₁.flushWal.wal.durable = ctx.wal.durable ++ [deletePayload id] := by
      simp only [ShardContext.flushWal, hwal, Log.append, Log.flush, h.buffer]
      rfl
    rw [hd]
    refine kept_log h.log (fun _ hne => parse_delete hne) (fun op' hp => ?_) a hf
    by_cases he : id = ""
    · rw [he, parse_delete_empty] at hp; cases hp
    · rw [parse_delete he] at hp; cases hp; exact ⟨rfl, he⟩
  · intro a r hr
    show r.dimension = ctx₁.ns.dimension
    rw [hns]
    rw [record_apply] at hr
    split at hr
    · cases hr
    · exact h.dimension a r hr
  · rw [record_apply, if_neg fun hn => hn.2 hn.1.symm]
    exact h.empty

theorem Kept.flush (hX : X.Lawful) (h : Kept X ctx last) {env : FlushEnv}
    (hc : ShardOk X ctx (.flush env)) {ctx' : ShardContext ι}
    (hs : shardStep X ctx (.flush env) = some ctx') :
    Kept X ctx' last ∧ ctx'.ns = ctx.ns := by
  obtain ⟨ctx₁, h₁, hsh, he⟩ := flushMemtable_ok hX h.shows fun hn => (hc hn).canFlush
  simp only [shardStep, h₁] at hs
  cases hs
  subst he
  exact ⟨⟨hsh, h.sorted.flush fun hn => ⟨(hc hn).2.1, (hc hn).2.2⟩, h.buffer, h.log,
    h.dimension, h.empty⟩, rfl⟩

/-! ## Restarting -/

theorem foldlM_indexRecord {rs : List VectorRecord} (ctx : ShardContext ι)
    (hi : LawfulIndex.dimension ctx.index = ctx.ns.dimension)
    (hd : ∀ r ∈ rs, r.dimension = ctx.ns.dimension) :
    ∃ ctx' : ShardContext ι, rs.foldlM ShardContext.indexRecord ctx = .ok ctx' ∧
      LawfulIndex.dimension ctx'.index = ctx.ns.dimension ∧ ctx'.ns = ctx.ns ∧ ctx'.wal = ctx.wal ∧
      ctx'.segments = ctx.segments ∧ ctx'.recovery = ctx.recovery ∧
      ctx'.tombstones = ctx.tombstones := by
  induction rs generalizing ctx with
  | nil => exact ⟨ctx, rfl, hi, rfl, rfl, rfl, rfl, rfl⟩
  | cons r rs ih =>
    obtain ⟨index, -, hdim, hidx⟩ := indexRecord_ok hi (hd r List.mem_cons_self)
    let next : ShardContext ι := { ctx with
      index := index
      lifecycle := ctx.lifecycle.notifyWrite
      shard := { ctx.shard with vectorCount := ctx.shard.vectorCount + 1 } }
    obtain ⟨ctx', hf, h⟩ := ih next hdim fun r' hr' => hd r' (List.mem_cons_of_mem _ hr')
    exact ⟨ctx', by rw [List.foldlM_cons, hidx]; exact hf, h⟩

/-- What a recovery makes of a shard's directories: the log has the last operations, and the store
it prepares serves the records they leave. -/
structure Recovers (X : Externals) (ctx : ShardContext ι) (last : String → Option Op)
    (tables : List (List VectorRecord)) (m : MemTable) (result : RecoveryResult) : Prop where
  recovered : recover X (.init ctx.root.wal)
    (.init ctx.segments.memtable.flushThreshold ctx.root.hot ctx.root.cold) =
    .ok (⟨ctx.wal.durable, []⟩, { ctx.segments with memtable := m }, result)
  ok : Recovered X { ctx.segments with memtable := ⟨ctx.segments.memtable.flushThreshold, ∅⟩ }
    tables ctx.wal.durable m result
  log : ∀ id, lastOp X ctx.wal.durable id = last id
  unwritten : ∀ id, last id = none → Layers.newest idOf tables id = none
  restored : ∀ id r, last id = some (.upsert r) →
    restored (some r) (Layers.newest idOf tables id) = some r

theorem Kept.recovers (h : Kept X ctx last) (hc : RestartOk X ctx) :
    ∃ tables m result, Recovers X ctx last tables m result := by
  obtain ⟨tables, hr, hsh⟩ := h.shows.tables
  obtain ⟨d, hd, hget, -⟩ := hr.durable_eq
  let threshold := ctx.segments.memtable.flushThreshold
  have hwal : (Log.init ctx.root.wal).flush = ⟨ctx.wal.durable, []⟩ := by
    simp only [ShardContext.root, Log.init, Log.flush, h.buffer, List.append_nil]
  obtain ⟨m, result, hrec, hR⟩ := recover_ok (hr.init threshold) rfl (Log.init ctx.root.wal)
  rw [hwal] at hrec hR
  -- The record an id is left with, and what is served for it.
  have hcur : ∀ id, (∀ r, last id = some (.upsert r) → r.Finite ∧
      Storage.restored (some r) (Layers.newest idOf tables id) = some r) := by
    intro id r hl
    have hs := hsh id
    rw [hl] at hs
    obtain ⟨hfin, htwin⟩ := hc id r (by rw [hr.get_eq, hs.1]) hs.2
    refine ⟨hfin, ?_⟩
    simp only [Storage.restored]
    split
    · rfl
    · rename_i hp
      cases hn : Layers.newest idOf tables id with
      | none => rw [hn] at hp; exact absurd rfl hp
      | some c =>
        rw [hn] at hp
        have he : (c.version, c.checksum) = (r.version, r.checksum) := by simpa [needsPut] using hp
        rw [htwin d c hd (by rw [hget, hn]) he]
  refine ⟨tables, m, result, ?_, hR, fun id => h.log id fun r hl =>
    (hcur id r hl).1, fun id hl => ?_, fun id r hl => (hcur id r hl).2⟩
  · have hinit : SegmentStore.init ctx.segments.memtable.flushThreshold ctx.root.hot ctx.root.cold =
        { ctx.segments with memtable := ⟨threshold, ∅⟩ } := h.sorted.init threshold
    rw [hinit]
    exact hrec
  · have hs := hsh id
    rw [hl] at hs
    exact (Option.or_eq_none_iff.mp hs).2

omit [BaseIndex ι] [LawfulIndex ι] in
/-- The records found are those the last operations leave. -/
theorem Recovers.records {tables : List (List VectorRecord)} {m : MemTable}
    {result : RecoveryResult} (h : Recovers X ctx last tables m result) (id : String) :
    Layers.find idOf result.records id = ShardContext.recordOf (last id) := by
  rw [h.ok.records, h.log]
  cases hl : last id with
  | none => rw [current, h.unwritten id hl]; rfl
  | some op => cases op <;> rfl

/-- A restart shows what was shown before, and serves what recovery found. -/
theorem Kept.restart (h : Kept X ctx last) (hc : RestartOk X ctx) :
    ∃ ctx' : ShardContext ι, ctx.restart X = .ok ctx' ∧ Kept X ctx' last ∧ ctx'.ns = ctx.ns ∧
      ∀ id, id ∉ ctx'.recovery.deletedIds →
        ctx'.segments.get X id = .ok (ctx'.recovery.records.find? fun r => r.id.text = id) := by
  obtain ⟨tables, m, result, hR⟩ := h.recovers hc
  have hserved : ∀ id, Shown (served { ctx.segments with memtable := m } tables id)
      ((PySet.ofList result.deletedIds).has id) (last id) := by
    intro id
    rw [hR.ok.served id, hR.log]
    have hdel := hR.ok.deleted id
    rw [hR.log, ← PySet.has_ofList] at hdel
    cases hl : last id with
    | none => rw [hR.unwritten id hl]; rfl
    | some op =>
      rw [hl] at hdel
      cases op with
      | upsert r =>
        refine ⟨hR.restored id r hl, ?_⟩
        exact Bool.eq_false_iff.mpr fun ht => Bool.noConfusion (hdel.mp ht)
      | delete a => exact hdel.mpr rfl
  have hdim : ∀ r ∈ result.records, r.dimension = ctx.ns.dimension := by
    intro r hrm
    have hf := (hR.records (idOf r)).symm.trans (Layers.find_of_mem hR.ok.nodup hrm)
    cases hl : last (idOf r) with
    | none => rw [hl] at hf; cases hf
    | some op =>
      rw [hl] at hf
      cases op with
      | upsert r' => cases hf; exact h.dimension _ r hl
      | delete a => cases hf
  let recovered : ShardContext ι :=
    { shard := ctx.shard, ns := ctx.ns, wal := ⟨ctx.wal.durable, []⟩,
      segments := { ctx.segments with memtable := m }, index := BaseIndex.create ctx.ns,
      lifecycle := ⟨0, 0⟩,
      recovery := result, tombstones := .ofList result.deletedIds }
  obtain ⟨ctx', hfold, hidx, hns, hw, hseg, hrcv, htomb⟩ :=
    foldlM_indexRecord recovered (LawfulIndex.dimension_create ctx.ns) hdim
  have hkept : Kept X ctx' last := by
    refine ⟨⟨by rw [hidx, hns], tables, by rw [hseg]; exact hR.ok.reads, fun id => ?_⟩, ?_, ?_,
      fun id _ => ?_, ?_, h.empty⟩
    · rw [hseg, htomb]; exact hserved id
    · rw [hseg]; exact ⟨h.sorted.cold, h.sorted.sstables, h.sorted.names⟩
    · rw [hw]
    · rw [hw]; exact hR.log id
    · rw [hns]; exact h.dimension
  refine ⟨ctx', ?_, hkept, hns, fun id hnd => ?_⟩
  · rw [ShardContext.restart, ShardContext.init, hR.recovered]
    exact hfold
  · have hreads : Reads X ctx'.segments tables := by rw [hseg]; exact hR.ok.reads
    rw [hreads.get_eq, hseg, hrcv]
    rw [hrcv] at hnd
    have hfind : (result.records.find? fun r => r.id.text = id) = ShardContext.recordOf (last id) :=
      hR.records id
    rw [hfind, hR.ok.served id, hR.log]
    have hdel := hR.ok.deleted id
    rw [hR.log] at hdel
    cases hl : last id with
    | none => rw [hR.unwritten id hl]; rfl
    | some op =>
      rw [hl] at hdel
      cases op with
      | upsert r => exact congrArg Except.ok (hR.restored id r hl)
      | delete a => exact absurd (hdel.mpr rfl) hnd

/-! ## Runs -/

theorem kept_fresh (shard : Sharding.Shard) (ns : Namespace) (threshold : Nat) :
    Kept X (.fresh shard ns threshold : ShardContext ι) fun _ => none where
  shows := shows_fresh shard ns threshold
  sorted := ⟨rfl, rfl, .nil⟩
  buffer := rfl
  log _ _ := rfl
  dimension _ _ h := by cases h
  empty := rfl

theorem kept_step (hX : X.Lawful) {ctx ctx' : ShardContext ι} {op : ShardOp}
    (h : ∃ last, Kept X ctx last) (hc : ShardOk X ctx op) (hs : shardStep X ctx op = some ctx') :
    ∃ last, Kept X ctx' last := by
  obtain ⟨last, h⟩ := h
  cases op with
  | upsert r env => exact ⟨_, (h.upsert hX hc hs).1⟩
  | delete id => exact ⟨_, (h.delete hs).1⟩
  | flush env => exact ⟨_, (h.flush hX hc hs).1⟩
  | restart =>
    obtain ⟨ctx₁, h₁, hk, -, -⟩ := h.restart hc
    simp only [shardStep, h₁] at hs
    cases hs
    exact ⟨last, hk⟩

/-- After any run under the condition, a restart succeeds, changes no fetch, and serves what
recovery found for every id it has not deleted. -/
theorem restart_invisible (hX : X.Lawful) (shard : Sharding.Shard) (ns : Namespace)
    (threshold : Nat) (ops : List ShardOp) (ctx₀ ctx : ShardContext ι)
    (h₀ : ShardContext.init X shard ns threshold ∅ = .ok ctx₀)
    (hr : run (shardStep X) ctx₀ ops = some ctx)
    (hc : Along (shardStep X) (ShardOk X) ctx₀ (ops ++ [.restart])) :
    ∃ ctx' : ShardContext ι, ctx.restart X = .ok ctx' ∧ (∀ id, ctx'.fetch X id = ctx.fetch X id) ∧
      ∀ id, id ∉ ctx'.recovery.deletedIds →
        ctx'.segments.get X id = .ok (ctx'.recovery.records.find? fun r => r.id.text = id) := by
  obtain ⟨hc, hlast⟩ := hc.append
  cases h₀
  obtain ⟨last, hk⟩ := invariant (I := fun ctx => ∃ last, Kept X ctx last)
    (fun _ _ _ => kept_step hX) ⟨_, kept_fresh shard ns threshold⟩ hc hr
  obtain ⟨ctx', hre, hk', -, hget⟩ := hk.restart (hlast ctx hr).1
  exact ⟨ctx', hre, fun id => by rw [hk'.shows.fetch_eq, hk.shows.fetch_eq], hget⟩

section

private def someShard : Sharding.Shard := ⟨"shard-0", "docs", "node-1", .active, 0, 50000000, [], 0⟩
private def someNamespace : Namespace := ⟨"docs", 1, .cosine, .flat, 1⟩
private def somePut (metadata : List (String × Json)) : ShardOp :=
  .upsert (unitRecord zeroId metadata) ⟨1, 1, none⟩

/-- The shard after a run from an empty directory. -/
private def after (ops : List ShardOp) : Option (ShardContext FlatIndex) :=
  (ShardContext.init fieldwise someShard someNamespace 100000 ∅).toOption.bind fun ctx =>
    run (shardStep fieldwise) ctx ops

/-- `ShardOk` where nothing was written to disk. -/
def ShardOkInMemory (ctx : ShardContext FlatIndex) : ShardOp → Prop
  | .upsert record _ =>
    record.dimension = ctx.ns.dimension ∧ ¬ (ctx.segments.memtable.put record).shouldFlush
  | .delete _ => True
  | .flush _ => False
  | .restart => ctx.segments.sstables = [] ∧ ∀ r ∈ ctx.segments.memtable.data.values, r.Finite

instance (ctx : ShardContext FlatIndex) (op : ShardOp) : Decidable (ShardOkInMemory ctx op) := by
  cases op <;> rw [ShardOkInMemory] <;> infer_instance

theorem shardOk_of_inMemory (ctx : ShardContext FlatIndex) (op : ShardOp)
    (h : ShardOkInMemory ctx op) :
    ShardOk fieldwise ctx op := by
  cases op with
  | upsert record env => exact ⟨h.1, fun hf => absurd hf h.2⟩
  | delete id => trivial
  | flush env => exact absurd h id
  | restart => exact restartOk_of_memtable h.1 h.2

/-- An update of what is still in the memtable. -/
theorem restart_invisible_in_memory : ∃ ctx ctx' : ShardContext FlatIndex,
    after [somePut [], .delete zeroId.text, somePut [("k", .null)]] = some ctx ∧
      ctx.restart fieldwise = .ok ctx' ∧
      ∀ id, ctx'.fetch fieldwise id = ctx.fetch fieldwise id := by
  obtain ⟨ctx', h, hf, -⟩ :=
    @restart_invisible _ FlatIndex _ _ fieldwise_lawful someShard someNamespace 100000
    [somePut [], .delete zeroId.text, somePut [("k", .null)]] _ _ rfl rfl
      (.mono shardOk_of_inMemory (by decide +kernel))
  exact ⟨_, ctx', rfl, h, hf⟩

/-- The restart brings the flushed record back: the update of its metadata is in the log, but
version and checksum are those of the flushed record. -/
theorem metadata_update_lost : ∃ ctx ctx' : ShardContext FlatIndex,
    after [somePut [], .flush ⟨1, 1, none⟩, somePut [("k", .null)]] = some ctx ∧
      ctx.restart fieldwise = .ok ctx' ∧
      ctx.fetch fieldwise zeroId.text = .ok (some (unitRecord zeroId [("k", .null)]).toPayload) ∧
      ctx'.fetch fieldwise zeroId.text = .ok (some (unitRecord zeroId []).toPayload) ∧
      ctx'.fetch fieldwise zeroId.text ≠ ctx.fetch fieldwise zeroId.text := by
  have h : ∃ ctx ctx' : ShardContext FlatIndex,
      after [somePut [], .flush ⟨1, 1, none⟩, somePut [("k", .null)]] = some ctx ∧
        ctx.restart fieldwise = .ok ctx' ∧
        ctx.fetch fieldwise zeroId.text = .ok (some (unitRecord zeroId [("k", .null)]).toPayload) ∧
        ctx'.fetch fieldwise zeroId.text = .ok (some (unitRecord zeroId []).toPayload) :=
    ⟨_, _, rfl, rfl, rfl, rfl⟩
  obtain ⟨ctx, ctx', hr, h, hf, hf'⟩ := h
  refine ⟨ctx, ctx', hr, h, hf, hf', fun he => ?_⟩
  rw [hf, hf', Except.ok.injEq, Option.some.injEq] at he
  exact absurd (congrArg (fun p => p.metadata.length) he) (by decide)

end

end Vsector.Ingest
