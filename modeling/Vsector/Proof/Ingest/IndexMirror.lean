import Vsector.Impl.Index.Flat
import Vsector.Proof.Ingest.Restart

/-!
# The index beside the store

`FlatIndex.add` appends a row, whatever rows there are. Where no upsert is of
an id that is shown already, the index has one row for each id that is shown,
that of its record, and no other (`RowsOf`, `rowsOf_step`), searches answer
with them, and a restart changes no answer (`index_mirrors_store`). An upsert
of an id that is shown leaves the row of the old record where it is
(`update_keeps_old_row`).
-/

namespace Vsector.Ingest

open Framework Models Storage Index

variable {X : Externals}

/-- The row of a record. -/
def rowOf (r : VectorRecord) : FlatRow := ⟨idOf r, r.vector, r.metadata⟩

/-- The index has one row for each id that is shown, that of its record, and no other. -/
structure Mirrors (X : Externals) (ctx : ShardContext FlatIndex) : Prop where
  nodup : (ctx.index.rows.map FlatRow.id).Nodup
  rows : ∀ row, row ∈ ctx.index.rows ↔ ∃ r, ctx.visible X (idOf r) = .ok (some r) ∧ row = rowOf r

/-- The condition on an operation: no record is shown for the id of an upsert, besides `ShardOk`. -/
def MirrorOk (X : Externals) (ctx : ShardContext FlatIndex) (op : ShardOp) : Prop :=
  ShardOk X ctx op ∧ ∀ r env, op = .upsert r env → ctx.visible X (idOf r) = .ok none

/-! ## Answers -/

section

variable {σ : Type} [LinearOrder σ] {S : Scoring σ} {i i' : FlatIndex} {query : List PyFloat}
  {topK : Nat} {filterFn : Option (Metadata → Bool)} {results : List (IndexResult σ)}

/-- The answers depend on the rows, not on their order. -/
theorem answers_perm (h : i.rows.Perm i'.rows) :
    i.Answers S query topK filterFn results ↔ i'.Answers S query topK filterFn results := by
  have hmap := h.map (FlatIndex.result S query filterFn)
  constructor
  · rintro ⟨picked, rest, hp, hl, hbest⟩
    exact ⟨picked, rest, hp.trans hmap, by rw [hl, h.length_eq], hbest⟩
  · rintro ⟨picked, rest, hp, hl, hbest⟩
    exact ⟨picked, rest, hp.trans hmap.symm, by rw [hl, h.length_eq], hbest⟩

/-- Every result is that of a row. -/
theorem mem_of_answers (h : i.Answers S query topK filterFn results) {x : IndexResult σ}
    (hx : x ∈ results) :
    ∃ row ∈ i.rows, x = FlatIndex.result S query filterFn row := by
  obtain ⟨picked, rest, hp, -, -, -, rfl⟩ := h
  have hx : x ∈ picked ++ rest := List.mem_append_left _ (List.mem_of_mem_filter hx)
  obtain ⟨row, hrow, rfl⟩ := List.mem_map.mp (hp.mem_iff.mp hx)
  exact ⟨row, hrow, rfl⟩

theorem nodup_of_answers (hn : (i.rows.map FlatRow.id).Nodup)
    (h : i.Answers S query topK filterFn results) :
    (results.map IndexResult.id).Nodup := by
  obtain ⟨picked, rest, hp, -, -, -, rfl⟩ := h
  have hids : ((i.rows.map (FlatIndex.result S query filterFn)).map IndexResult.id).Nodup := by
    rw [List.map_map]
    exact hn
  have hall : ((picked ++ rest).map IndexResult.id).Nodup := ((hp.map _).nodup_iff).mpr hids
  exact hall.sublist ((List.filter_sublist.trans (List.sublist_append_left _ _)).map _)

end

/-! ## The invariant -/

/-- Rows for exactly the records that the last operations leave. -/
structure RowsOf (rows : List FlatRow) (last : String → Option Op) : Prop where
  nodup : (rows.map FlatRow.id).Nodup
  rows : ∀ row, row ∈ rows ↔ ∃ r, last (idOf r) = some (.upsert r) ∧ row = rowOf r

variable {ctx ctx' : ShardContext FlatIndex} {last : String → Option Op}

theorem RowsOf.mirrors (h : RowsOf ctx.index.rows last) (hk : Kept X ctx last) : Mirrors X ctx := by
  refine ⟨h.nodup, fun row => (h.rows row).trans (exists_congr fun r => and_congr_left fun _ => ?_)⟩
  rw [hk.shows.visible_eq]
  cases last (idOf r) with
  | none => simp [ShardContext.recordOf]
  | some op => cases op <;> simp [ShardContext.recordOf]

theorem RowsOf.ext {rows rows' : List FlatRow} (h : RowsOf rows last) (h' : RowsOf rows' last) :
    rows.Perm rows' :=
  (List.perm_ext_iff_of_nodup (.of_map _ h.nodup) (.of_map _ h'.nodup)).mpr fun row =>
    (h.rows row).trans (h'.rows row).symm

theorem rowsOf_nil : RowsOf [] fun _ => none :=
  ⟨List.nodup_nil, fun row => ⟨fun h => absurd h List.not_mem_nil, fun ⟨_, h, _⟩ => by cases h⟩⟩

theorem RowsOf.upsert {rows : List FlatRow} (h : RowsOf rows last) {r : VectorRecord}
    (hn : ∀ r', last (idOf r) ≠ some (.upsert r')) :
    RowsOf (rows ++ [rowOf r]) (record last (.upsert r)) := by
  have hlast : ∀ id, record last (.upsert r) id = if id = idOf r then some (.upsert r)
      else last id := by
    intro id
    simp only [record_apply, Op.id, ne_eq, idOf_ne_empty r, not_false_eq_true, and_true]
  refine ⟨?_, fun row => ?_⟩
  · rw [List.map_append, List.nodup_append]
    refine ⟨h.nodup, List.nodup_singleton _, fun id hid id' hid' he => ?_⟩
    obtain ⟨row, hrow, rfl⟩ := List.mem_map.mp hid
    obtain ⟨r', hr', rfl⟩ := (h.rows row).mp hrow
    have hsame : idOf r' = idOf r := he.trans (List.mem_singleton.mp hid')
    exact hn r' (hsame ▸ hr')
  · rw [List.mem_append, List.mem_singleton, h.rows]
    constructor
    · rintro (⟨r', hr', rfl⟩ | rfl)
      · have hne : idOf r' ≠ idOf r := fun he => hn r' (he ▸ hr')
        exact ⟨r', by rw [hlast, if_neg hne, hr'], rfl⟩
      · exact ⟨r, by rw [hlast, if_pos rfl], rfl⟩
    · rintro ⟨r', hr', rfl⟩
      rw [hlast] at hr'
      split at hr'
      · cases hr'; exact .inr rfl
      · exact .inl ⟨r', hr', rfl⟩

theorem RowsOf.delete {rows : List FlatRow} (h : RowsOf rows last) (id : String) :
    RowsOf (rows.filter fun row => row.id ≠ id) (record last (.delete id)) := by
  refine ⟨h.nodup.sublist (List.filter_sublist.map _), fun row => ?_⟩
  rw [List.mem_filter, h.rows, decide_eq_true_iff]
  constructor
  · rintro ⟨⟨r, hr, rfl⟩, hne⟩
    refine ⟨r, ?_, rfl⟩
    rw [record_apply, if_neg fun h => hne h.1]
    exact hr
  · rintro ⟨r, hr, rfl⟩
    rw [record_apply] at hr
    split at hr
    · cases hr
    · rename_i hid
      exact ⟨⟨r, hr, rfl⟩, fun he => hid ⟨he, fun hempty => idOf_ne_empty r (he.trans hempty)⟩⟩

/-- The rows of a new context are the records that recovery found. -/
theorem rows_foldlM {rs : List VectorRecord}
    (h : rs.foldlM ShardContext.indexRecord ctx = .ok ctx') :
    ctx'.index.rows = ctx.index.rows ++ rs.map rowOf ∧ ctx'.recovery = ctx.recovery := by
  induction rs generalizing ctx with
  | nil => cases h; exact ⟨(List.append_nil _).symm, rfl⟩
  | cons r rs ih =>
    rw [List.foldlM_cons] at h
    cases hone : ctx.indexRecord r with
    | error e => rw [hone] at h; cases h
    | ok next =>
      rw [hone] at h
      obtain ⟨hrows, hrec⟩ := ih h
      simp only [ShardContext.indexRecord, BaseIndex.add, FlatIndex.add] at hone
      split at hone
      · cases hone
      · rename_i index hadd
        split at hadd
        · cases hadd
          cases hone
          exact ⟨by rw [hrows, List.append_assoc]; rfl, hrec⟩
        · cases hadd

theorem Recovers.rowsOf {tables : List (List VectorRecord)} {m : MemTable} {result : RecoveryResult}
    (h : Recovers X ctx last tables m result) : RowsOf (result.records.map rowOf) last := by
  refine ⟨?_, fun row => ?_⟩
  · rw [List.map_map]
    exact h.ok.nodup
  · rw [List.mem_map]
    constructor
    · rintro ⟨r, hr, rfl⟩
      have hf := (h.records (idOf r)).symm.trans (Layers.find_of_mem h.ok.nodup hr)
      refine ⟨r, ?_, rfl⟩
      cases hl : last (idOf r) with
      | none => rw [hl] at hf; cases hf
      | some op =>
        rw [hl] at hf
        cases op with
        | upsert r' => cases hf; rfl
        | delete a => cases hf
    · rintro ⟨r, hr, rfl⟩
      have hf := h.records (idOf r)
      rw [hr] at hf
      exact ⟨r, Layers.mem_of_find hf, rfl⟩

theorem RowsOf.restart (hk : Kept X ctx last) (hc : RestartOk X ctx)
    (hs : ctx.restart X = .ok ctx') :
    RowsOf ctx'.index.rows last := by
  obtain ⟨tables, m, result, hR⟩ := hk.recovers hc
  rw [ShardContext.restart, ShardContext.init, hR.recovered] at hs
  have hrows := (rows_foldlM hs).1
  rw [hrows]
  exact hR.rowsOf

/-! ## Runs -/

/-- The rows that an upsert leaves. -/
theorem rows_upsert (hX : X.Lawful) (hk : Kept X ctx last) {r : VectorRecord} {env : FlushEnv}
    (hc : ShardOk X ctx (.upsert r env)) (hs : shardStep X ctx (.upsert r env) = some ctx') :
    ctx'.index.rows = ctx.index.rows ++ [rowOf r] := by
  obtain ⟨ctx₁, h₁, -, -, -, -, -, hadd, -⟩ :=
    upsert_ok hX hk.shows (some (X.modelDumpJson r)) hc.1 fun hf => (hc.2 hf).canFlush
  simp only [shardStep, h₁] at hs
  cases hs
  simp only [BaseIndex.add, FlatIndex.add] at hadd
  split at hadd
  · show ctx₁.index.rows = _
    rw [← Except.ok.inj hadd]
    rfl
  · cases hadd

/-- The rows that a deletion leaves. -/
theorem rows_delete {id : String} (hs : shardStep X ctx (.delete id) = some ctx') :
    ctx'.index.rows = ctx.index.rows.filter fun row => row.id ≠ id := by
  simp only [shardStep, ShardContext.applyDelete] at hs
  split at hs
  · rename_i hd
    split at hd
    · cases hd
    · cases hd
      cases hs
      rfl
  · cases hs

/-- A flush of the memtable leaves the index alone. -/
theorem rows_flush (hX : X.Lawful) (hk : Kept X ctx last) {env : FlushEnv}
    (hc : ShardOk X ctx (.flush env)) (hs : shardStep X ctx (.flush env) = some ctx') :
    ctx'.index.rows = ctx.index.rows := by
  obtain ⟨ctx₁, h₁, -, he⟩ := flushMemtable_ok hX hk.shows fun hn => (hc hn).canFlush
  simp only [shardStep, h₁] at hs
  cases hs
  rw [he]

theorem rowsOf_step (hX : X.Lawful) {op : ShardOp}
    (h : ∃ last, Kept X ctx last ∧ RowsOf ctx.index.rows last) (hc : MirrorOk X ctx op)
    (hs : shardStep X ctx op = some ctx') :
    ∃ last, Kept X ctx' last ∧ RowsOf ctx'.index.rows last := by
  obtain ⟨last, hk, hrows⟩ := h
  cases op with
  | upsert r env =>
    refine ⟨_, (hk.upsert hX hc.1 hs).1, ?_⟩
    have hnot : ∀ r', last (idOf r) ≠ some (.upsert r') := by
      intro r' hl
      have hv := hc.2 r env rfl
      rw [hk.shows.visible_eq, hl] at hv
      cases hv
    rw [rows_upsert hX hk hc.1 hs]
    exact hrows.upsert hnot
  | delete id =>
    refine ⟨_, (hk.delete hs).1, ?_⟩
    rw [rows_delete hs]
    exact hrows.delete id
  | flush env =>
    refine ⟨_, (hk.flush hX hc.1 hs).1, ?_⟩
    rw [rows_flush hX hk hc.1 hs]
    exact hrows
  | restart =>
    obtain ⟨ctx₁, h₁, hk', -, -⟩ := hk.restart hc.1
    have hrows' := RowsOf.restart hk hc.1 h₁
    simp only [shardStep, h₁] at hs
    cases hs
    exact ⟨last, hk', hrows'⟩

/-- After any run under the condition the index has each id that is shown once, with its record; so
an answer has no id twice and scores the vector of the current record, and a restart under the
condition changes no answer. -/
theorem index_mirrors_store {σ : Type} [LinearOrder σ] (S : Scoring σ) (hX : X.Lawful)
    (shard : Sharding.Shard) (ns : Namespace) (threshold : Nat) (ops : List ShardOp)
    (ctx₀ ctx : ShardContext FlatIndex) (h₀ : ShardContext.init X shard ns threshold ∅ = .ok ctx₀)
    (hr : run (shardStep X) ctx₀ ops = some ctx) (hc : Along (shardStep X) (MirrorOk X) ctx₀ ops) :
    Mirrors X ctx ∧
      (∀ query topK filterFn results, ctx.index.Answers S query topK filterFn results →
        (results.map IndexResult.id).Nodup ∧ ∀ x ∈ results, ∃ r, ctx.visible X x.id = .ok (some r) ∧
          x = FlatIndex.result S query filterFn (rowOf r)) ∧
      (RestartOk X ctx → ∃ ctx' : ShardContext FlatIndex, ctx.restart X = .ok ctx' ∧
        Mirrors X ctx' ∧
        ∀ query topK filterFn results,
          ctx'.index.Answers S query topK filterFn results ↔
            ctx.index.Answers S query topK filterFn results) := by
  cases h₀
  obtain ⟨last, hk, hrows⟩ :=
    invariant (I := fun ctx => ∃ last, Kept X ctx last ∧ RowsOf ctx.index.rows last)
    (fun _ _ _ => rowsOf_step hX)
    ⟨fun _ => none, kept_fresh shard ns threshold, rowsOf_nil⟩ hc hr
  have hm := hrows.mirrors hk
  refine ⟨hm, fun query topK filterFn results hans =>
    ⟨nodup_of_answers hm.nodup hans, fun x hx => ?_⟩, fun hre => ?_⟩
  · obtain ⟨row, hrow, rfl⟩ := mem_of_answers hans hx
    obtain ⟨r, hv, rfl⟩ := (hm.rows row).mp hrow
    exact ⟨r, hv, rfl⟩
  · obtain ⟨ctx', h', hk', -, -⟩ := hk.restart hre
    have hrows' := RowsOf.restart hk hre h'
    exact ⟨ctx', h', hrows'.mirrors hk', fun query topK filterFn results =>
      answers_perm (hrows'.ext hrows)⟩

section

private def flatShard : Sharding.Shard := ⟨"shard-0", "docs", "node-1", .active, 0, 50000000, [], 0⟩
private def flatNamespace : Namespace := ⟨"docs", 1, .cosine, .flat, 1⟩
private def zeroScoring : Scoring Int := ⟨fun _ _ => 0, -1, fun s => s < 0⟩

private def flatUpsert (id : UUID) (metadata : List (String × Json)) : ShardOp :=
  .upsert (unitRecord id metadata) ⟨1, 1, none⟩

private def flatRun (ops : List ShardOp) : Option (ShardContext FlatIndex) :=
  run (shardStep fieldwise) (.fresh flatShard flatNamespace 100000) ops

private def noneShown : Except Exc (Option VectorRecord) → Bool
  | .ok none => true
  | _ => false

private def noneBefore (ctx : ShardContext FlatIndex) : ShardOp → Bool
  | .upsert r _ => noneShown (ctx.visible fieldwise (idOf r))
  | _ => true

private def MirrorOkInMemory (ctx : ShardContext FlatIndex) (op : ShardOp) : Prop :=
  ShardOkInMemory ctx op ∧ noneBefore ctx op

private instance (ctx : ShardContext FlatIndex) (op : ShardOp) :
    Decidable (MirrorOkInMemory ctx op) :=
  inferInstanceAs (Decidable (ShardOkInMemory ctx op ∧ noneBefore ctx op = true))

private theorem mirrorOk_of_inMemory (ctx : ShardContext FlatIndex) (op : ShardOp)
    (h : MirrorOkInMemory ctx op) :
    MirrorOk fieldwise ctx op := by
  refine ⟨shardOk_of_inMemory ctx op h.1, fun r env he => ?_⟩
  subst he
  have hn : noneShown (ctx.visible fieldwise (idOf r)) := h.2
  unfold noneShown at hn
  split at hn
  · assumption
  · cases hn

/-- An id is written, deleted and written again, and another one is written. -/
theorem index_mirrors_store_reinsert : ∃ ctx : ShardContext FlatIndex,
    flatRun [flatUpsert zeroId [], .delete zeroId.text, flatUpsert zeroId [("k", .null)],
      flatUpsert oneId []] = some ctx ∧
      Mirrors fieldwise ctx :=
  ⟨_, rfl, (index_mirrors_store zeroScoring fieldwise_lawful flatShard flatNamespace 100000
    [flatUpsert zeroId [], .delete zeroId.text, flatUpsert zeroId [("k", .null)],
      flatUpsert oneId []] _ _ rfl rfl
    (.mono mirrorOk_of_inMemory (by decide +kernel))).1⟩

private def otherVector : VectorRecord :=
  unitRecordAt (.finite 2) (sha256Vector fieldwise [.finite 2]) zeroId []

/-- The second upsert replaces the record, but the index has both vectors, and a search returns the
id twice. -/
theorem update_keeps_old_row : ∃ ctx : ShardContext FlatIndex,
    flatRun [flatUpsert zeroId [], .upsert otherVector ⟨1, 1, none⟩] = some ctx ∧
      ctx.visible fieldwise zeroId.text = .ok (some otherVector) ∧
      ctx.index.Answers zeroScoring [.finite 1] 10 none
        [⟨zeroId.text, 0, [.finite 1], []⟩, ⟨zeroId.text, 0, [.finite 2], []⟩] :=
  ⟨_, rfl, rfl, [⟨zeroId.text, 0, [.finite 1], []⟩, ⟨zeroId.text, 0, [.finite 2], []⟩],
    [], .refl _, rfl, fun _ _ _ h => absurd h List.not_mem_nil, by decide, rfl⟩

end

end Vsector.Ingest
