import Vsector.Proof.Ingest.FilterDelete
import Vsector.Proof.Ingest.Restart

/-!
# The count of a shard

`vector_count` goes up with every upsert and with every record that a restart
recovers, and never down. In a run whose memtable flushes write readable files
of their own it is the number of the ids that are shown exactly as long as no
upsert is of an id that is shown, no deletion is of one, and no restart begins
with a count other than 0 (`count_is_visible_iff`).
-/

namespace Vsector.Storage

open Framework Models

variable {X : Externals} {s : SegmentStore}

/-- Every file of the store can be read, and has no id twice. -/
structure Readable (X : Externals) (s : SegmentStore) : Prop where
  cold : s.cold = ∅
  hot : ∀ name lines, s.hot.get? name = some lines →
    ∃ records, (lines.mapM fun line => line.bind X.modelValidateJson) = some records ∧
      (records.map idOf).Nodup

theorem Readable.scan (h : Readable X s) {t : SSTable} (ht : (s.file t).isSome) :
    ∃ records, s.scan X t = .ok records ∧ (records.map idOf).Nodup := by
  obtain ⟨lines, hl⟩ := Option.isSome_iff_exists.mp ht
  rw [SegmentStore.scan, hl]
  cases htier : t.tier with
  | hot =>
    simp only [SegmentStore.file, htier] at hl
    obtain ⟨records, hrec, hn⟩ := h.hot t.name lines hl
    exact ⟨records, by simp only [hrec], hn⟩
  | cold =>
    simp only [SegmentStore.file, htier, h.cold] at hl
    cases hl

/-- A new store over the files reads them. -/
theorem Readable.init (h : Readable X s) (threshold : Nat) :
    ∃ tables, Reads X (.init threshold s.hot s.cold) tables := by
  have hfiles : ∀ t ∈ (SegmentStore.init threshold s.hot s.cold).sstables,
      ((SegmentStore.init threshold s.hot s.cold).file t).isSome := by
    intro t ht
    simp only [SegmentStore.init, List.mem_append, List.mem_map, List.mem_insertionSort] at ht
    rcases ht with ⟨name, hname, rfl⟩ | ⟨name, hname, rfl⟩
    · exact Dict.mem_keys.mp hname
    · exact Dict.mem_keys.mp hname
  have hr : Readable X (SegmentStore.init threshold s.hot s.cold) := ⟨h.cold, h.hot⟩
  have hlist : ∀ ts :
      List SSTable, (∀ t ∈ ts, ((SegmentStore.init threshold s.hot s.cold).file t).isSome) →
      ∃ tables, List.Forall₂ (fun t records => (SegmentStore.init threshold s.hot s.cold).scan X t =
        .ok records) ts tables ∧
        ∀ records ∈ tables, (records.map idOf).Nodup := by
    intro ts hts
    induction ts with
    | nil => exact ⟨[], .nil, fun _ h => absurd h List.not_mem_nil⟩
    | cons t ts ih =>
      obtain ⟨records, hscan, hn⟩ := hr.scan (hts t List.mem_cons_self)
      obtain ⟨tables, hall, hnodup⟩ := ih fun t' ht' => hts t' (List.mem_cons_of_mem _ ht')
      exact ⟨records :: tables, .cons hscan hall, List.forall_mem_cons.mpr ⟨hn, hnodup⟩⟩
  obtain ⟨tables, hscan, hnodup⟩ := hlist _ fun t ht => hfiles t (List.mem_reverse.mp ht)
  exact ⟨tables, hscan, hnodup, hfiles, fun _ _ h => by cases h⟩

theorem Readable.flush (hX : X.Lawful) (h : Readable X s)
    (hk : ∀ id r, s.memtable.data.get? id = some r → idOf r = id) {env : FlushEnv}
    (hf : s.memtable.count ≠ 0 → CanFlush s env) : Readable X (s.flush X env).1 := by
  by_cases hc : s.memtable.count = 0
  · rw [SegmentStore.flush, if_pos hc]
    exact h
  · obtain ⟨hfin, -, hfault⟩ := hf hc
    rw [SegmentStore.flush, if_neg hc]
    simp only [hfault]
    refine ⟨h.cold, fun name lines hl => ?_⟩
    simp only [Dict.get?_set] at hl
    split at hl
    · cases hl
      exact ⟨s.memtable.data.values, mapM_dump hX hfin, Layers.nodup_values hk⟩
    · exact h.hot name lines hl

end Vsector.Storage

namespace Vsector.Ingest

open Framework Models Storage Sharding Index Query ShardContext

variable {X : Externals} {ι : Type} [BaseIndex ι]

/-! ## Runs of a shard and its store -/

/-- A shard's context, and the count that the shard store's file has for it. -/
structure CountedShard (ι : Type) where
  ctx : ShardContext ι
  stored : Nat

/-- What happens to a shard; `persist` is a write of the metadata, which stores all counts. -/
inductive CountOp where
  | upsert (record : VectorRecord) (env : FlushEnv)
  | delete (id : String)
  | deleteMatching (filter : Filter)
  | flush (env : FlushEnv)
  | persist
  | restart

/-- The shard after an operation; `none` where it raises. A restart recovers the shard with the
stored count. -/
def countStep (X : Externals) (s : CountedShard ι) : CountOp → Option (CountedShard ι)
  | .upsert record env =>
    (shardStep X s.ctx (.upsert record env)).map fun ctx => { s with ctx := ctx }
  | .delete id => (shardStep X s.ctx (.delete id)).map fun ctx => { s with ctx := ctx }
  | .deleteMatching filter =>
    match s.ctx.deleteMatching X filter with
    | ((ctx, _), .ok ()) => some { s with ctx := ctx.flushWal }
    | (_, .error _) => none
  | .flush env => (shardStep X s.ctx (.flush env)).map fun ctx => { s with ctx := ctx }
  | .persist => some { s with stored := s.ctx.shard.vectorCount }
  | .restart =>
    (shardStep X { s.ctx with shard := { s.ctx.shard with vectorCount := s.stored } } .restart).map
      fun ctx => { s with ctx := ctx }

/-- A new shard, whose directories are empty, in a store that has just written it. -/
def CountedShard.fresh (shard : Shard) (ns : Namespace) (threshold : Nat) : CountedShard ι :=
  ⟨.fresh shard ns threshold, shard.vectorCount⟩

/-- The count of the shard is the number of the ids that are shown. -/
def Counted (X : Externals) (ctx : ShardContext ι) : Prop :=
  ∃ ids : Finset String, (∀ id, id ∈ ids ↔ ∃ r, ctx.visible X id = .ok (some r)) ∧
    ctx.shard.vectorCount = ids.card

/-- Nothing is shown for an id. -/
def Unseen (X : Externals) (ctx : ShardContext ι) (id : String) : Prop :=
  ctx.visible X id = .ok none

/-- The condition on an operation. -/
def CountOk (X : Externals) (s : CountedShard ι) : CountOp → Prop
  | .upsert record _ => Unseen X s.ctx (idOf record)
  | .delete id => Unseen X s.ctx id
  | .deleteMatching filter => ∀ records, s.ctx.segments.scanAll X = .ok records →
    ∀ r ∈ matched X filter records, Unseen X s.ctx (idOf r)
  | .flush _ => True
  | .persist => True
  | .restart => s.stored = 0

instance (ctx : ShardContext ι) (id : String) : Decidable (Unseen X ctx id) :=
  decidable_of_iff (∃ found ∈ (ctx.visible X id).toOption, found.isNone) <| by
    simp only [mem_toOption, Option.isNone_iff_eq_none, exists_eq_right, Unseen]

instance (s : CountedShard ι) : ∀ op, Decidable (CountOk X s op)
  | .upsert record _ => inferInstanceAs (Decidable (Unseen X s.ctx (idOf record)))
  | .delete id => inferInstanceAs (Decidable (Unseen X s.ctx id))
  | .deleteMatching filter =>
    decidable_of_iff (∀ records ∈ (s.ctx.segments.scanAll X).toOption,
      ∀ r ∈ matched X filter records, Unseen X s.ctx (idOf r)) <| by
      simp only [mem_toOption, CountOk]
  | .flush _ | .persist => .isTrue trivial
  | .restart => inferInstanceAs (Decidable (s.stored = 0))

/-- A record has the dimension of the namespace, and a memtable flush writes finite floats to a new
file. -/
def WriteOk (s : CountedShard ι) : CountOp → Prop
  | .upsert record env => record.dimension = s.ctx.ns.dimension ∧
    ((s.ctx.segments.memtable.put record).shouldFlush →
      CanFlush { s.ctx.segments with memtable := s.ctx.segments.memtable.put record } env)
  | .delete _ => True
  | .deleteMatching _ => True
  | .flush env => s.ctx.segments.memtable.count ≠ 0 → CanFlush s.ctx.segments env
  | .persist => True
  | .restart => True

instance (s : CountedShard ι) : ∀ op, Decidable (WriteOk s op)
  | .upsert record env => inferInstanceAs (Decidable (record.dimension = s.ctx.ns.dimension ∧
      ((s.ctx.segments.memtable.put record).shouldFlush → CanFlush _ env)))
  | .flush env => inferInstanceAs (Decidable
      (s.ctx.segments.memtable.count ≠ 0 → CanFlush s.ctx.segments env))
  | .delete _ | .deleteMatching _ | .persist | .restart => .isTrue trivial

/-! ## The invariant -/

variable [LawfulIndex ι] {ctx ctx' : ShardContext ι} {last : String → Option Op}
  {s t : CountedShard ι}

/-- The ids that the last operations leave a record with. -/
def ShownIds (last : String → Option Op) (ids : Finset String) : Prop :=
  ∀ id, id ∈ ids ↔ ∃ r, last id = some (.upsert r)

theorem recordOf_eq_some {op : Option Op} {r : VectorRecord} :
    recordOf op = some r ↔ op = some (.upsert r) := by
  rcases op with _ | ⟨r' | id⟩ <;> simp [recordOf]

/-- A context that can be read, shown by its last operations, and the ids that are shown. -/
structure Stands (X : Externals) (ctx : ShardContext ι) (last : String → Option Op)
    (ids : Finset String) : Prop where
  shows : Shows X ctx last
  files : Readable X ctx.segments
  shown : ShownIds last ids

theorem Stands.counted_iff {ids : Finset String} (h : Stands X ctx last ids) :
    Counted X ctx ↔ ctx.shard.vectorCount = ids.card := by
  have hids : ∀ id, id ∈ ids ↔ ∃ r, ctx.visible X id = .ok (some r) := by
    intro id
    rw [h.shown, h.shows.visible_eq]
    refine exists_congr fun r => ?_
    rw [Except.ok.injEq, recordOf_eq_some]
  constructor
  · rintro ⟨ids', hids', hcount⟩
    have he : ids' = ids := Finset.ext fun id => (hids' id).trans (hids id).symm
    rw [hcount, he]
  · exact fun hcount => ⟨ids, hids, hcount⟩

theorem Stands.unseen_iff {ids : Finset String} (h : Stands X ctx last ids) (id : String) :
    Unseen X ctx id ↔ id ∉ ids := by
  rw [h.shown, Unseen, h.shows.visible_eq, Except.ok.injEq,
    Option.eq_none_iff_forall_ne_some, not_exists]
  exact forall_congr' fun r => not_congr recordOf_eq_some

/-! ## Steps -/

theorem ShownIds.upsert {ids : Finset String} (h : ShownIds last ids) (r : VectorRecord) :
    ShownIds (write last (.upsert r)) (insert (idOf r) ids) := by
  intro id
  rw [Finset.mem_insert, h, write_apply, Op.id]
  by_cases hid : id = idOf r
  · rw [if_pos hid]
    exact iff_of_true (.inl hid) ⟨r, rfl⟩
  · rw [if_neg hid]
    exact or_iff_right hid

theorem ShownIds.deletes {ids : Finset String} (h : ShownIds last ids) (gone : List String) :
    ShownIds (fun id => if id ∈ gone then some (.delete id)
      else last id) (ids \ gone.toFinset) := by
  intro id
  rw [Finset.mem_sdiff, List.mem_toFinset, h]
  dsimp only
  by_cases hid : id ∈ gone
  · rw [if_pos hid]
    refine iff_of_false (fun hn => hn.2 hid) ?_
    rintro ⟨r, hr⟩
    cases hr
  · rw [if_neg hid]
    exact and_iff_left hid

theorem Stands.upsert (hX : X.Lawful) {ids : Finset String} (h : Stands X ctx last ids)
    {r : VectorRecord} {env : FlushEnv} (hd : r.dimension = ctx.ns.dimension)
    (hf : (ctx.segments.memtable.put r).shouldFlush →
      CanFlush { ctx.segments with memtable := ctx.segments.memtable.put r } env)
    (hs : shardStep X ctx (.upsert r env) = some ctx') :
    Stands X ctx' (write last (.upsert r)) (insert (idOf r) ids) ∧
    ctx'.shard.vectorCount = ctx.shard.vectorCount + 1 := by
  obtain ⟨ctx₁, h₁, hsh, hseg, -, -, -, -, hshard⟩ :=
    upsert_ok hX h.shows (some (X.modelDumpJson r)) hd hf
  simp only [shardStep, h₁] at hs
  cases hs
  refine ⟨⟨hsh.congr rfl rfl rfl rfl, ?_, h.shown.upsert r⟩, congrArg Shard.vectorCount hshard⟩
  show Readable X ctx₁.segments
  have hput : Readable X { ctx.segments with memtable := ctx.segments.memtable.put r } :=
    ⟨h.files.cold, h.files.hot⟩
  obtain ⟨tables, hr, -⟩ := h.shows.tables
  rw [hseg, SegmentStore.put]
  dsimp only
  split
  · rename_i hfull
    exact hput.flush hX (hr.put r).keyed fun _ => hf hfull
  · exact hput

theorem Stands.delete {ids : Finset String} (h : Stands X ctx last ids) {id : String}
    (hs : shardStep X ctx (.delete id) = some ctx') :
    Stands X ctx' (fun a => if a ∈ [id] then some (.delete a) else last a) (ids \ [id].toFinset) ∧
      ctx'.shard = ctx.shard := by
  obtain ⟨ctx₁, h₁, hsh, hseg, -, -, hshard, -⟩ := delete_ok h.shows id
  simp only [shardStep, h₁] at hs
  cases hs
  have hlast : (fun a => if a ∈ [id] then some (.delete a) else last a) =
      write last (.delete id) := by
    funext a
    rw [write_apply, Op.id]
    by_cases ha : a = id <;> simp [ha]
  refine ⟨⟨hlast ▸ hsh.congr rfl rfl rfl rfl, ?_, h.shown.deletes [id]⟩, hshard⟩
  show Readable X ctx₁.segments
  rw [hseg]
  exact ⟨h.files.cold, h.files.hot⟩

omit [LawfulIndex ι] in
theorem segments_filterDeletes (ids : List String) : (filterDeletes ctx ids).segments =
    { ctx.segments with memtable := (filterDeletes ctx ids).segments.memtable } ∧
      (filterDeletes ctx ids).shard = ctx.shard := by
  induction ids generalizing ctx with
  | nil => exact ⟨rfl, rfl⟩
  | cons id ids ih =>
    exact @ih (ctx.applyFilterDelete id)

theorem Stands.filterDeletes {ids : Finset String} (h : Stands X ctx last ids)
    (gone : List String) :
    Stands X (filterDeletes ctx gone) (fun id => if id ∈ gone then some (.delete id)
      else last id) (ids \ gone.toFinset) := by
  refine ⟨h.shows.filterDeletes gone, ?_, h.shown.deletes gone⟩
  rw [(segments_filterDeletes gone).1]
  exact ⟨h.files.cold, h.files.hot⟩

theorem Stands.flush (hX : X.Lawful) {ids : Finset String} (h : Stands X ctx last ids)
    {env : FlushEnv} (hf : ctx.segments.memtable.count ≠ 0 → CanFlush ctx.segments env)
    (hs : shardStep X ctx (.flush env) = some ctx') :
    Stands X ctx' last ids ∧ ctx'.shard = ctx.shard := by
  obtain ⟨ctx₁, h₁, hsh, he⟩ := flushMemtable_ok hX h.shows hf
  simp only [shardStep, h₁] at hs
  cases hs
  subst he
  obtain ⟨tables, hr, -⟩ := h.shows.tables
  exact ⟨⟨hsh, h.files.flush hX hr.keyed hf, h.shown⟩, rfl⟩

/-! ## Restarts -/

/-- The recovery loop counts the records it is given. -/
theorem indexRecords_eq {rs : List VectorRecord} (h : rs.foldlM indexRecord ctx = .ok ctx') :
    ctx'.shard.vectorCount = ctx.shard.vectorCount + rs.length ∧ ctx'.segments = ctx.segments ∧
      ctx'.tombstones = ctx.tombstones ∧ ctx'.ns = ctx.ns ∧
      LawfulIndex.dimension ctx'.index = LawfulIndex.dimension ctx.index := by
  induction rs generalizing ctx with
  | nil =>
    cases h
    exact ⟨rfl, rfl, rfl, rfl, rfl⟩
  | cons r rs ih =>
    rw [List.foldlM_cons, indexRecord] at h
    rcases hadd : BaseIndex.add ctx.index r.id.text r.vector r.metadata with e | index
    · rw [hadd] at h
      cases h
    · rw [hadd] at h
      obtain ⟨hcount, hseg, htomb, hns, hdim⟩ := ih h
      refine ⟨?_, hseg, htomb, hns, hdim.trans (LawfulIndex.dimension_add _ _ _ _ _ hadd)⟩
      rw [hcount, List.length_cons]
      dsimp only
      omega

/-- An id has a record after a replay where the log does not delete it and the prepared store
serves it. -/
theorem current_isSome_iff (op : Option Op) (durable : Option VectorRecord) :
    (current op durable).isSome ↔
      isDelete op = false ∧ (restored (current op durable) durable).isSome := by
  have hput : ∀ r, (restored (some r) durable).isSome := by
    intro r
    unfold restored
    cases durable with
    | none => rfl
    | some c =>
      dsimp only
      split <;> rfl
  rcases op with _ | ⟨r | id⟩
  · cases durable with
    | none => exact iff_of_false Bool.false_ne_true fun h => Bool.false_ne_true h.2
    | some c => exact iff_of_true rfl ⟨rfl, hput c⟩
  · exact iff_of_true rfl ⟨rfl, hput r⟩
  · exact iff_of_false Bool.false_ne_true fun h => Bool.noConfusion h.1

theorem mem_ids_iff {records : List VectorRecord} {id : String} :
    id ∈ records.map idOf ↔ (Layers.find idOf records id).isSome := by
  rw [List.mem_map, Layers.find, List.find?_isSome]
  simp

/-- A restart shows the records it has recovered, and adds their number to the count it began
with. -/
theorem Stands.restart {ids : Finset String} (h : Stands X ctx last ids)
    (hs : shardStep X ctx .restart = some ctx') :
    ∃ last' ids', Stands X ctx' last' ids' ∧
      ctx'.shard.vectorCount = ctx.shard.vectorCount + ids'.card := by
  obtain ⟨tables, hr⟩ := h.files.init ctx.segments.memtable.flushThreshold
  obtain ⟨m, result, hrec, hR⟩ := recover_ok hr rfl (Log.init ctx.root.wal)
  obtain ⟨ctx₁, hinit, hctx⟩ : ∃ ctx₁, ctx.restart X = .ok ctx₁ ∧ ctx₁ = ctx' := by
    rw [shardStep] at hs
    rcases hre : ctx.restart X with e | ctx₁
    · rw [hre] at hs
      cases hs
    · rw [hre] at hs
      exact ⟨ctx₁, rfl, Option.some.inj hs⟩
  subst hctx
  have hroot : recover X (.init ctx.root.wal)
      (.init ctx.segments.memtable.flushThreshold ctx.root.hot ctx.root.cold) = _ := hrec
  rw [ShardContext.restart, ShardContext.init, hroot] at hinit
  obtain ⟨hcount, hseg, htomb, hns, hdim⟩ := indexRecords_eq hinit
  dsimp only at hcount hseg htomb hns hdim
  -- What an id is left with: its record as it is served, or a tombstone.
  let entries := (Log.init ctx.root.wal).flush.durable
  let cur := fun id => current (lastOp X entries id) (Layers.newest idOf tables id)
  let last' : String → Option Op := fun id =>
    if isDelete (lastOp X entries id) then some (.delete id)
      else (restored (cur id) (Layers.newest idOf tables id)).map .upsert
  refine ⟨last', (result.records.map idOf).toFinset,
    ⟨⟨?_, tables, ?_, fun id => ?_⟩, ?_, fun id => ?_⟩, ?_⟩
  · rw [hdim, hns, LawfulIndex.dimension_create]
  · rw [hseg]
    exact hR.reads
  · rw [hseg, htomb, hR.served]
    have hdel := hR.deleted id
    rw [← PySet.has_ofList] at hdel
    by_cases hd : isDelete (lastOp X entries id)
    · have hl : last' id = some (.delete id) := if_pos hd
      rw [hl]
      exact hdel.mpr hd
    · have hl : last' id = (restored (cur id) (Layers.newest idOf tables id)).map .upsert :=
        if_neg hd
      rw [hl]
      cases hc : restored (cur id) (Layers.newest idOf tables id) with
      | none => exact rfl
      | some r => exact ⟨rfl, Bool.eq_false_iff.mpr fun hmem => hd (hdel.mp hmem)⟩
  · rw [hseg]
    exact ⟨h.files.cold, h.files.hot⟩
  · rw [List.mem_toFinset, mem_ids_iff, hR.records, current_isSome_iff]
    by_cases hd : isDelete (lastOp X entries id)
    · refine iff_of_false (fun hn => Bool.false_ne_true (hn.1.symm.trans hd)) ?_
      rintro ⟨r, hr⟩
      rw [show last' id = _ from if_pos hd] at hr
      cases hr
    · rw [show last' id = _ from if_neg hd, and_iff_right (Bool.eq_false_iff.mpr hd),
        Option.isSome_iff_exists]
      refine exists_congr fun r => ?_
      rw [Option.map_eq_some_iff]
      constructor
      · intro hcur
        exact ⟨r, hcur, rfl⟩
      · rintro ⟨r', hcur, he⟩
        exact Op.upsert.inj he ▸ hcur
  · rw [hcount, List.toFinset_card_of_nodup hR.nodup, List.length_map]

/-! ## Runs -/

theorem card_insert_iff {ids : Finset String} {id : String} :
    ids.card + 1 = (insert id ids).card ↔ id ∉ ids := by
  by_cases h : id ∈ ids
  · rw [Finset.insert_eq_of_mem h]
    exact iff_of_false (by omega) (not_not.mpr h)
  · rw [Finset.card_insert_of_notMem h]
    exact iff_of_true rfl h

theorem card_sdiff_iff {ids : Finset String} {gone : List String} :
    ids.card = (ids \ gone.toFinset).card ↔ ∀ id ∈ gone, id ∉ ids := by
  constructor
  · intro h id hgone hid
    have he := Finset.eq_of_subset_of_card_le
      (Finset.sdiff_subset (s := ids) (t := gone.toFinset)) h.le
    rw [← he, Finset.mem_sdiff] at hid
    exact hid.2 (List.mem_toFinset.mpr hgone)
  · intro h
    rw [Finset.sdiff_eq_self_of_disjoint (Finset.disjoint_left.mpr fun id hid hgone =>
      h id (List.mem_toFinset.mp hgone) hid)]

/-- The context stands, and its count is right. -/
structure CountStands (X : Externals) (s : CountedShard ι) : Prop where
  stands : ∃ last ids, Stands X s.ctx last ids
  counted : Counted X s.ctx

/-- A step leaves a context that stands, whose count is right exactly if the step meets the
condition. -/
theorem counted_step_iff (hX : X.Lawful) (h : CountStands X s) {op : CountOp} (hw : WriteOk s op)
    (hs : countStep X s op = some t) :
    (∃ last ids, Stands X t.ctx last ids) ∧ (Counted X t.ctx ↔ CountOk X s op) := by
  obtain ⟨last, ids, hst⟩ := h.stands
  have hcount := hst.counted_iff.mp h.counted
  cases op with
  | upsert r env =>
    obtain ⟨ctx, hctx, rfl⟩ := Option.map_eq_some_iff.mp hs
    obtain ⟨hst', hcount'⟩ := hst.upsert hX hw.1 hw.2 hctx
    refine ⟨⟨_, _, hst'⟩, ?_⟩
    rw [hst'.counted_iff, hcount', hcount, card_insert_iff]
    exact (hst.unseen_iff _).symm
  | delete id =>
    obtain ⟨ctx, hctx, rfl⟩ := Option.map_eq_some_iff.mp hs
    obtain ⟨hst', hshard⟩ := hst.delete hctx
    refine ⟨⟨_, _, hst'⟩, ?_⟩
    rw [hst'.counted_iff, hshard, hcount, card_sdiff_iff, List.forall_mem_singleton]
    exact (hst.unseen_iff id).symm
  | deleteMatching filter =>
    rw [countStep] at hs
    rcases hd : s.ctx.deleteMatching X filter with ⟨⟨ctx, n⟩, e | ⟨⟩⟩
    · rw [hd] at hs
      cases hs
    · rw [hd] at hs
      cases hs
      obtain ⟨records, hscan, -, hctx⟩ := deleteMatching_eq_ok hd
      obtain ⟨rfl, -⟩ := Prod.mk.inj hctx
      have hst' := hst.filterDeletes ((matched X filter records).map idOf)
      have hwal : Stands X (filterDeletes s.ctx ((matched X filter records).map idOf)).flushWal
          _ _ :=
        ⟨hst'.shows.congr rfl rfl rfl rfl, hst'.files, hst'.shown⟩
      refine ⟨⟨_, _, hwal⟩, hwal.counted_iff.trans ?_⟩
      have hshard : (filterDeletes s.ctx ((matched X filter records).map idOf)).flushWal.shard =
          s.ctx.shard :=
        (segments_filterDeletes _).2
      rw [hshard, hcount, card_sdiff_iff, List.forall_mem_map]
      simp only [CountOk, hscan, Except.ok.injEq, forall_eq', hst.unseen_iff]
  | flush env =>
    obtain ⟨ctx, hctx, rfl⟩ := Option.map_eq_some_iff.mp hs
    obtain ⟨hst', hshard⟩ := hst.flush hX hw hctx
    refine ⟨⟨_, _, hst'⟩, iff_of_true ?_ trivial⟩
    rw [hst'.counted_iff, hshard, hcount]
  | persist =>
    cases hs
    exact ⟨h.stands, iff_of_true h.counted trivial⟩
  | restart =>
    obtain ⟨ctx, hctx, rfl⟩ := Option.map_eq_some_iff.mp hs
    have hstored : Stands X { s.ctx with
        shard := { s.ctx.shard with vectorCount := s.stored } } last ids :=
      ⟨hst.shows.congr rfl rfl rfl rfl, hst.files, hst.shown⟩
    obtain ⟨last', ids', hst', hcount'⟩ := hstored.restart hctx
    refine ⟨⟨_, _, hst'⟩, ?_⟩
    rw [hst'.counted_iff, hcount']
    exact Nat.add_eq_right

theorem countStands_fresh (shard : Shard) (ns : Namespace) (threshold : Nat)
    (h : shard.vectorCount = 0) :
    CountStands X (.fresh shard ns threshold : CountedShard ι) := by
  have hst : Stands X (.fresh shard ns threshold : ShardContext ι) (fun _ => none) ∅ :=
    ⟨shows_fresh shard ns threshold, ⟨rfl, fun _ _ h => by cases h⟩, fun id => by simp⟩
  exact ⟨⟨_, _, hst⟩, hst.counted_iff.mpr h⟩

/-- In a run of a new shard the count is the number of the ids that are shown after every step
exactly if every step meets the condition. -/
theorem count_is_visible_iff (hX : X.Lawful) (shard : Shard) (ns : Namespace) (threshold : Nat)
    (ops : List CountOp) (hshard : shard.vectorCount = 0)
    (hr : run (countStep X) (.fresh shard ns threshold : CountedShard ι) ops = some s)
    (hw : Along (countStep X) WriteOk (.fresh shard ns threshold : CountedShard ι) ops) :
    Along (countStep X) (fun s op => ∀ t, countStep X s op = some t → Counted X t.ctx)
        (.fresh shard ns threshold : CountedShard ι) ops ↔
      Along (countStep X) (CountOk X) (.fresh shard ns threshold : CountedShard ι) ops := by
  refine Along.iff_of_invariant (I := CountStands X) (fun s op h hc => ?_)
    (fun s op t h hc hok hs => ?_)
    (countStands_fresh shard ns threshold hshard) (hw.and (along_isSome hr))
  · obtain ⟨t, ht⟩ := Option.isSome_iff_exists.mp hc.2
    have hiff := (counted_step_iff hX h hc.1 ht).2
    refine ⟨fun hall => hiff.mp (hall t ht), fun hok u hu => ?_⟩
    rw [ht] at hu
    cases hu
    exact hiff.mpr hok
  · obtain ⟨hst, hiff⟩ := counted_step_iff hX h hc.1 hs
    exact ⟨hst, hiff.mpr hok⟩

section

private def countedShard : Shard := ⟨"shard-0", "docs", "node-1", .active, 0, 50000000, [], 0⟩
private def countedNamespace : Namespace := ⟨"docs", 1, .cosine, .flat, 1⟩
private def countedUpsert (id : UUID) (metadata : List (String × Json)) : CountOp :=
  .upsert (unitRecord id metadata) ⟨1, 1, none⟩

private def countedStart : CountedShard FlatIndex := .fresh countedShard countedNamespace 100000

/-- Two records are written and an id that has none is deleted; the shard restarts before its count
is stored. -/
theorem count_is_visible_restart :
    Along (countStep fieldwise) (fun s op => ∀ t, countStep fieldwise s op = some t →
      Counted fieldwise t.ctx) countedStart
      [countedUpsert zeroId [], countedUpsert oneId [], .delete "a", .restart] :=
  (count_is_visible_iff fieldwise_lawful countedShard countedNamespace 100000
    [countedUpsert zeroId [], countedUpsert oneId [], .delete "a", .restart] rfl rfl
    (by decide +kernel)).mpr (by decide +kernel)

/-- The second upsert is an update: the count is 2, and one id is shown. -/
theorem update_counts_twice : ∃ s : CountedShard FlatIndex,
    run (countStep fieldwise) countedStart [countedUpsert zeroId [],
      countedUpsert zeroId [("k", .null)]] = some s ∧
      s.ctx.shard.vectorCount = 2 ∧ ¬ Counted fieldwise s.ctx := by
  obtain ⟨s₁, s₂, h₁, h₂, hcount, hseen, hw⟩ : ∃ s₁ s₂,
      countStep fieldwise countedStart (countedUpsert zeroId []) = some s₁ ∧
      countStep fieldwise s₁ (countedUpsert zeroId [("k", .null)]) = some s₂ ∧
      s₂.ctx.shard.vectorCount = 2 ∧
      s₁.ctx.visible fieldwise zeroId.text = .ok (some (unitRecord zeroId [])) ∧
      WriteOk s₁ (countedUpsert zeroId [("k", .null)]) :=
        ⟨_, _, rfl, rfl, rfl, rfl, by decide +kernel⟩
  have hw₁ : WriteOk countedStart (countedUpsert zeroId []) := by decide +kernel
  have hok₁ : CountOk fieldwise countedStart (countedUpsert zeroId []) := by decide +kernel
  obtain ⟨hst, hiff⟩ := counted_step_iff fieldwise_lawful
    (countStands_fresh countedShard countedNamespace 100000 rfl) hw₁ h₁
  obtain ⟨-, hiff₂⟩ := counted_step_iff fieldwise_lawful ⟨hst, hiff.mpr hok₁⟩ hw h₂
  refine ⟨s₂, run_cons_eq_some.mpr ⟨s₁, h₁, run_cons_eq_some.mpr ⟨s₂, h₂, rfl⟩⟩,
    hcount, fun hc => ?_⟩
  have hun : s₁.ctx.visible fieldwise zeroId.text = .ok none := hiff₂.mp hc
  rw [hseen] at hun
  cases hun

end

end Vsector.Ingest
