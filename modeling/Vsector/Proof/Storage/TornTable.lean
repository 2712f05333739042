import Vsector.Impl.Storage.TableFile
import Vsector.Proof.Storage.LastOperation
import Vsector.Proof.Storage.Tiering
import Vsector.Proof.Models.JsonBytes

/-!
# A crash in a memtable flush

An SSTable is written straight to its final name, and `SSTable.scan` reads
every line of it. Where the crash leaves whole lines the log has their
records anyway, and recovery finds what it would have found before the flush;
where it leaves a part of a line, `recover` raises (`torn_flush_iff`,
`torn_line_raises`).
-/

namespace Vsector.Storage

open Framework Models

variable {X : Externals} {J : JsonLines}

/-! ## The file -/

theorem JsonLines.Lawful.format (hJ : J.Lawful X) : J.format.Lawful where
  newline := rfl
  encode r b hb := by
    obtain ⟨hn, hr⟩ := hJ.no_newline r b hb
    simp [JsonLines.format, hn, hr]
  blank := rfl
  not_blank r k hk := by
    obtain ⟨bytes, hbytes⟩ := List.head?_eq_some_iff.mp (hJ.head r)
    obtain ⟨n, rfl⟩ : ∃ n, k = n + 1 := ⟨k - 1, by omega⟩
    have hbrace : JsonLines.isSpace 123 = false := by decide
    simp only [JsonLines.format, hbytes, List.take_succ_cons, List.all_cons, hbrace, Bool.false_and]

/-- The file that a flush of `records` has written after `k` bytes. -/
abbrev cutLines (J : JsonLines) (records : List VectorRecord) (k : Nat) : List Text :=
  J.tableLines ((J.tableBytes records).take k)

/-- The `k` bytes end at the end of a line, and the records up to there can be read back. -/
def CleanCut (X : Externals) (J : JsonLines) (records : List VectorRecord) (k : Nat) : Prop :=
  ∃ n ≤ records.length, J.format.EndsLine records k n ∧
    ∀ r ∈ records.take n, (X.modelValidateJson (X.modelDumpJson r)).isSome

theorem cutLines_of_endsLine (hJ : J.Lawful X) {records : List VectorRecord} {k n : Nat}
    (hn : n ≤ records.length) (hk : J.format.EndsLine records k n) :
    cutLines J records k = (records.take n).map fun r => some (X.modelDumpJson r) := by
  rw [cutLines, JsonLines.tableLines, JsonLines.tableBytes,
    LineFormat.lines_of_endsLine hJ.format _ _ _ hn hk, List.map_map]
  exact List.map_congr_left fun r _ => hJ.loads_dump r

/-- A cut elsewhere leaves a line that is no JSON. -/
theorem cutLines_cases (hJ : J.Lawful X) (records : List VectorRecord) (k : Nat) :
    (∃ n ≤ records.length, J.format.EndsLine records k n) ∨ none ∈ cutLines J records k := by
  rcases LineFormat.lines_cases hJ.format records k with h | ⟨n, r, j, -, hj, hlt, hl⟩
  · exact .inl h
  · refine .inr ?_
    rw [cutLines, JsonLines.tableLines, JsonLines.tableBytes, hl, List.map_append,
      List.map_singleton]
    have hnone : J.loads ((J.format.encode r).take j) = none := hJ.loads_take r j hj hlt
    rw [hnone]
    exact List.mem_append_right _ List.mem_cons_self

theorem mapM_eq_some {lines : List Text} {records : List VectorRecord}
    (h : (lines.mapM fun line => line.bind X.modelValidateJson) = some records) :
    (∀ line ∈ lines, (line.bind X.modelValidateJson).isSome) ∧
      ∀ r ∈ records, ∃ line ∈ lines, line.bind X.modelValidateJson = some r := by
  induction lines generalizing records with
  | nil =>
    rw [List.mapM_nil] at h
    cases h
    exact ⟨fun _ hl => absurd hl List.not_mem_nil, fun _ hr => absurd hr List.not_mem_nil⟩
  | cons line lines ih =>
    rw [List.mapM_cons] at h
    cases hl : line.bind X.modelValidateJson with
    | none => rw [hl] at h; cases h
    | some r =>
      rw [hl] at h
      cases hls : lines.mapM fun line => line.bind X.modelValidateJson with
      | none => rw [hls] at h; cases h
      | some rs =>
        rw [hls] at h
        cases h
        obtain ⟨hsome, hmem⟩ := ih hls
        refine ⟨List.forall_mem_cons.mpr ⟨by rw [hl]; rfl, hsome⟩,
          List.forall_mem_cons.mpr ⟨?_, fun r' hr' => ?_⟩⟩
        · exact ⟨line, List.mem_cons_self, hl⟩
        · obtain ⟨l, hl, hr⟩ := hmem r' hr'
          exact ⟨l, List.mem_cons_of_mem _ hl, hr⟩

theorem mapM_of_isSome {lines : List Text}
    (h : ∀ line ∈ lines, (line.bind X.modelValidateJson).isSome) :
    ∃ records, (lines.mapM fun line => line.bind X.modelValidateJson) = some records := by
  induction lines with
  | nil => exact ⟨[], rfl⟩
  | cons line lines ih =>
    obtain ⟨r, hr⟩ := Option.isSome_iff_exists.mp (h line List.mem_cons_self)
    obtain ⟨rs, hrs⟩ := ih fun l hl => h l (List.mem_cons_of_mem _ hl)
    exact ⟨r :: rs, by rw [List.mapM_cons, hr, hrs]; rfl⟩

/-- The file can be read exactly after a clean cut. -/
theorem cutLines_reads (hJ : J.Lawful X) {records : List VectorRecord} {k : Nat} :
    (∃ rs, ((cutLines J records k).mapM fun line => line.bind X.modelValidateJson) = some rs) ↔
      CleanCut X J records k := by
  constructor
  · rintro ⟨rs, hrs⟩
    have hline := (mapM_eq_some hrs).1
    rcases cutLines_cases hJ records k with ⟨n, hn, hk⟩ | hnone
    · refine ⟨n, hn, hk, fun r hr => ?_⟩
      rw [cutLines_of_endsLine hJ hn hk] at hline
      exact hline _ (List.mem_map_of_mem hr)
    · exact absurd (hline _ hnone) Bool.false_ne_true
  · rintro ⟨n, hn, hk, hr⟩
    refine mapM_of_isSome fun line hl => ?_
    rw [cutLines_of_endsLine hJ hn hk] at hl
    obtain ⟨r, hmem, rfl⟩ := List.mem_map.mp hl
    exact hr r hmem

/-! ## The other tables -/

/-- What reading some tables succeeds with. -/
theorem foldlM_scan {s : SegmentStore} {ts : List SSTable} {d d' : Dict String VectorRecord} :
    ts.foldlM (fun latest t => (s.scan X t).map (SegmentStore.setRecords latest)) d = .ok d' ↔
      (∀ t ∈ ts, ∃ records, s.scan X t = .ok records) ∧
        d' = ts.foldl (fun latest t => SegmentStore.setRecords latest (tableOf X s t)) d := by
  induction ts generalizing d with
  | nil =>
    rw [List.foldlM_nil, List.foldl_nil]
    exact ⟨fun h => ⟨fun _ ht => absurd ht List.not_mem_nil, by cases h; rfl⟩,
      fun h => by rw [h.2]; rfl⟩
  | cons t ts ih =>
    rw [List.foldlM_cons, List.foldl_cons]
    cases hs : s.scan X t with
    | error e =>
      constructor
      · intro h; cases h
      · rintro ⟨h, -⟩
        obtain ⟨records, hr⟩ := h t List.mem_cons_self
        rw [hs] at hr
        cases hr
    | ok records =>
      have ht : tableOf X s t = records := by rw [tableOf, hs]; rfl
      rw [ht]
      refine ih.trans (and_congr_left fun _ =>
        ⟨fun h u hu => ?_, fun h u hu => h u (List.mem_cons_of_mem _ hu)⟩)
      rcases List.mem_cons.mp hu with rfl | hu
      · exact ⟨records, hs⟩
      · exact h u hu

theorem get?_setRecords_congr {d d' : Dict String VectorRecord} {id : String}
    (h : d.get? id = d'.get? id) (records : List VectorRecord) :
    (SegmentStore.setRecords d records).get? id = (SegmentStore.setRecords d' records).get? id := by
  induction records generalizing d d' with
  | nil => exact h
  | cons r records ih =>
    refine ih ?_
    rw [Dict.get?_set, Dict.get?_set, h]

theorem get?_setRecords_of_ne {d : Dict String VectorRecord} {id : String}
    {records : List VectorRecord} (h : ∀ r ∈ records, idOf r ≠ id) :
    (SegmentStore.setRecords d records).get? id = d.get? id := by
  induction records generalizing d with
  | nil => rfl
  | cons r records ih =>
    have hr : (SegmentStore.setRecords (d.set r.id.text r) records).get? id =
        (d.set r.id.text r).get? id :=
      ih fun r' hr' => h r' (List.mem_cons_of_mem _ hr')
    exact hr.trans (Dict.get?_set_ne _ _ (h r List.mem_cons_self).symm)

/-- Tables without an id can be left out when looking for it. -/
theorem get?_foldl_filter {f : SSTable → List VectorRecord} {id : String} {p : SSTable → Bool}
    {ts : List SSTable} (h : ∀ t ∈ ts, p t = false → ∀ r ∈ f t, idOf r ≠ id)
    {d d' : Dict String VectorRecord} (hd : d.get? id = d'.get? id) :
    (ts.foldl (fun latest t => SegmentStore.setRecords latest (f t)) d).get? id =
      ((ts.filter p).foldl (fun latest t => SegmentStore.setRecords latest (f t)) d').get? id := by
  induction ts generalizing d d' with
  | nil => exact hd
  | cons t ts ih =>
    have hts : ∀ u ∈ ts, p u = false → ∀ r ∈ f u, idOf r ≠ id :=
      fun u hu => h u (List.mem_cons_of_mem _ hu)
    cases hp : p t with
    | true =>
      rw [List.filter_cons_of_pos hp, List.foldl_cons, List.foldl_cons]
      exact ih hts (get?_setRecords_congr hd _)
    | false =>
      rw [List.filter_cons_of_neg (by rw [hp]; exact Bool.false_ne_true), List.foldl_cons]
      exact ih hts ((get?_setRecords_of_ne (h t List.mem_cons_self hp)).trans hd)

/-- One more file in a directory leaves the order of the others. -/
theorem sort_keys_filter (files : Dict String (List Text)) (name : String) (lines : List Text) :
    ((files.set name lines).keys.insertionSort (· ≤ ·)).filter (· ≠ name) =
      (files.keys.insertionSort (· ≤ ·)).filter (· ≠ name) := by
  have hkeys : (files.set name lines).keys.filter (· ≠ name) = files.keys.filter (· ≠ name) := by
    cases hn : files.get? name with
    | none => rw [Dict.keys_set_of_none hn, List.filter_append]; simp
    | some old => rw [Dict.keys_set_of_some (by rw [hn]; rfl)]
  have hperm : (((files.set name lines).keys.insertionSort (· ≤ ·)).filter (· ≠ name)).Perm
      ((files.keys.insertionSort (· ≤ ·)).filter (· ≠ name)) :=
    ((List.perm_insertionSort _ _).filter _).trans
      (hkeys ▸ ((List.perm_insertionSort (· ≤ ·) files.keys).filter _).symm)
  exact hperm.eq_of_pairwise' ((List.pairwise_insertionSort _ _).sublist List.filter_sublist)
    ((List.pairwise_insertionSort _ _).sublist List.filter_sublist)

/-! ## Recovery -/

/-- The process dies in `SegmentStore.flush`, with `k` bytes of the file written. -/
def Store.crashInFlush (J : JsonLines) (s : Store) (ts pid k : Nat) : Store :=
  { s with segments := s.segments.crashInFlush J ts pid k }

/-- Two recoveries found the same records, in some order, and the same deleted ids. -/
def SameRecovery (a b : RecoveryResult) : Prop :=
  a.records.Perm b.records ∧ a.deletedIds = b.deletedIds

/-- The records of the memtable have their entries in the segment files of the log; the records of
the hot SSTables, as they are read, an entry about their id. -/
structure AllInWal (X : Externals) (s : Store) : Prop where
  memtable : ∀ r ∈ s.segments.memtable.scan, some (X.modelDumpJson r) ∈ s.wal.durable
  hot : ∀ name lines records, s.segments.hot.get? name = some lines →
    (lines.mapM fun line => line.bind X.modelValidateJson) = some records →
    ∀ r ∈ records, (lastOp X s.wal.durable (idOf r)).isSome

theorem lastOp_isSome {entries : List Text} {payload : Text} (h : payload ∈ entries) {op : Op}
    (hp : parsePayload X payload = some op) : (lastOp X entries op.id).isSome := by
  induction entries using List.reverseRecOn with
  | nil => cases h
  | append_singleton entries e ih =>
    rw [lastOp_append]
    rcases List.mem_append.mp h with h | h
    · have ih := ih h
      split
      · split
        · rfl
        · exact ih
      · exact ih
    · rw [List.mem_singleton.mp h] at hp
      simp [hp]

/-- The tombstones of a replay do not depend on the records it starts from. -/
theorem tombstones_congr (entries : List Text) (s s' : Replay) (h : s.tombstones = s'.tombstones) :
    (entries.foldl (Replay.entry X) s).tombstones =
      (entries.foldl (Replay.entry X) s').tombstones := by
  induction entries generalizing s s' with
  | nil => exact h
  | cons e entries ih =>
    refine ih _ _ ?_
    simp only [Replay.entry]
    cases parsePayload X e with
    | none => exact h
    | some op => cases op <;> simp only [Replay.apply, h]

/-- Recovery over two stores whose tables differ in ids with an entry in the log only. -/
theorem recover_congr {wal wal' : Log Text} {s s' s₁ : SegmentStore} {base : RecoveryResult}
    {d' : Dict String VectorRecord} (hbase : recover X wal s = .ok (wal', s₁, base))
    (hd' : s'.durableRecordsById X = .ok d')
    (hget : ∀ d, s.durableRecordsById X = .ok d → ∀ id, lastOp X wal.flush.durable id = none →
      d'.get? id = d.get? id) :
    ∃ wal' s₁ result, recover X wal s' = .ok (wal', s₁, result) ∧ SameRecovery result base := by
  cases hd : s.durableRecordsById X with
  | error e => rw [recover, hd] at hbase; cases hbase
  | ok d =>
    rw [recover, hd] at hbase
    cases hbase
    rw [recover, hd']
    refine ⟨_, _, _, rfl, ?_, ?_⟩
    · have hrec : ∀ id, (wal.flush.durable.foldl (Replay.entry X) ⟨d', ∅⟩).records.get? id =
          (wal.flush.durable.foldl (Replay.entry X) ⟨d, ∅⟩).records.get? id := by
        intro id
        rw [(replay_ok d' _ id).1, (replay_ok d _ id).1]
        cases hl : lastOp X wal.flush.durable id with
        | none => rw [hget d hd id hl]
        | some op => cases op <;> rfl
      exact Dict.perm_values hrec
    · have ht := tombstones_congr (X := X) wal.flush.durable ⟨d', ∅⟩ ⟨d, ∅⟩ rfl
      simp only [ht]

variable {s : Store} {ts pid k : Nat}

/-- The record of a whole line has an entry in the log. -/
theorem AllInWal.lastOp (hX : X.Lawful) (hJ : J.Lawful X) (h : AllInWal X s)
    {records : List VectorRecord}
    (hr : ((cutLines J s.segments.memtable.scan k).mapM fun line => line.bind X.modelValidateJson) =
      some records) :
    ∀ r ∈ records, (lastOp X s.wal.durable (idOf r)).isSome := by
  intro r hmem
  obtain ⟨n, hn, hk, -⟩ := (cutLines_reads hJ).mp ⟨records, hr⟩
  obtain ⟨line, hline, hl⟩ := (mapM_eq_some hr).2 r hmem
  rw [cutLines_of_endsLine hJ hn hk] at hline
  obtain ⟨r₀, hr₀, rfl⟩ := List.mem_map.mp hline
  have hv : X.modelValidate (X.modelDumpJson r₀) = some r := by
    rw [← hJ.validateJson]
    exact hl
  have hp : parsePayload X (some (X.modelDumpJson r₀)) = some (.upsert r) := by
    simp [parsePayload, hX.dump_obj, hX.dump_op, hv]
  exact lastOp_isSome (h.memtable r₀ (List.mem_of_mem_take hr₀)) hp

/-- A record that a hot SSTable is read to have has an entry in the log. -/
theorem AllInWal.of_tableOf (h : AllInWal X s) {threshold : Nat} {name : String} {r : VectorRecord}
    (hr : r ∈ tableOf X (.init threshold s.segments.hot s.segments.cold) ⟨.hot, name⟩) :
    (Storage.lastOp X s.wal.durable (idOf r)).isSome := by
  rw [tableOf, SegmentStore.scan] at hr
  split at hr
  · cases hr
  · rename_i lines hl
    split at hr
    · rename_i records hm
      exact h.hot name lines records hl hm r hr
    · cases hr

section

variable {hot cold : Dict String (List Text)} {threshold : Nat} {name : String} {lines : List Text}

theorem init_file_of_ne {t : SSTable} (h : t ≠ ⟨.hot, name⟩) :
    (SegmentStore.init threshold (hot.set name lines) cold).file t =
      (SegmentStore.init threshold hot cold).file t := by
  obtain ⟨tier, n⟩ := t
  cases tier with
  | hot =>
    refine Dict.get?_set_ne _ _ fun hn => h ?_
    exact congrArg (SSTable.mk .hot) hn
  | cold => rfl

theorem init_sstables_filter :
    (SegmentStore.init threshold (hot.set name lines) cold).sstables.filter (· ≠ ⟨.hot, name⟩) =
      (SegmentStore.init threshold hot cold).sstables.filter (· ≠ ⟨.hot, name⟩) := by
  have hhot : ∀ l : List String, (l.map (SSTable.mk .hot)).filter (· ≠ ⟨.hot, name⟩) =
      (l.filter (· ≠ name)).map (SSTable.mk .hot) := by
    intro l
    rw [List.filter_map]
    congr 1
    refine List.filter_congr fun n _ => ?_
    simp [Function.comp]
  simp only [SegmentStore.init, List.filter_append]
  rw [hhot, hhot, sort_keys_filter]

theorem mem_init_sstables :
    ⟨.hot, name⟩ ∈ (SegmentStore.init threshold (hot.set name lines) cold).sstables := by
  refine List.mem_append_left _
    (List.mem_map_of_mem ((List.mem_insertionSort _).mpr (Dict.mem_keys.mpr ?_)))
  rw [Dict.get?_set_self]
  rfl

theorem scan_init_new :
    (SegmentStore.init threshold (hot.set name lines) cold).scan X ⟨.hot, name⟩ =
    (lines.mapM fun line : Text => line.bind X.modelValidateJson).elim
      (.error .validationError) .ok := by
  have hfile : (SegmentStore.init threshold (hot.set name lines) cold).file
      ⟨.hot, name⟩ = some lines :=
    Dict.get?_set_self _ _ _
  rw [SegmentStore.scan, hfile]
  dsimp only
  cases lines.mapM fun line : Text => line.bind X.modelValidateJson with
  | none => rfl
  | some records => rfl

end

/-- A file that cannot be read makes `recover` raise. -/
theorem torn_line_raises (hJ : J.Lawful X) (s : Store) {k : Nat}
    (h : ¬ CleanCut X J s.segments.memtable.scan k) (ts pid threshold : Nat) :
    ∃ e, (s.crashInFlush J ts pid k).recover X threshold = .error e := by
  cases hr : (s.crashInFlush J ts pid k).recover X threshold with
  | error e => exact ⟨e, rfl⟩
  | ok result =>
    rw [Store.recover, recover] at hr
    split at hr
    · cases hr
    · rename_i d hd
      obtain ⟨records, hs⟩ := (foldlM_scan.mp hd).1 ⟨.hot, sstName ts pid⟩ mem_init_sstables
      rw [Store.crashInFlush, SegmentStore.crashInFlush, scan_init_new] at hs
      rcases hrs : (cutLines J s.segments.memtable.scan k).mapM
        (fun line => line.bind X.modelValidateJson) with _ | rs
      · rw [hrs] at hs
        cases hs
      · exact absurd ((cutLines_reads hJ).mp ⟨rs, hrs⟩) h

/-- Where every write is in the log and recovery succeeds without the flush, a crash in the flush
changes nothing that recovery finds exactly where it cut the file at the end of a line, and the
records up to there can be read back. -/
theorem torn_flush_iff (hX : X.Lawful) (hJ : J.Lawful X) (s : Store) (h : AllInWal X s)
    (threshold ts pid k : Nat) (wal : Log Text) (segments : SegmentStore) (base : RecoveryResult)
    (hbase : s.recover X threshold = .ok (wal, segments, base)) :
    (∃ wal' segments' result, (s.crashInFlush J ts pid k).recover X threshold =
      .ok (wal', segments', result) ∧
        SameRecovery result base) ↔
      CleanCut X J s.segments.memtable.scan k := by
  constructor
  · rintro ⟨wal', segments', result, hr, -⟩
    by_contra hc
    obtain ⟨e, he⟩ := torn_line_raises hJ s hc ts pid threshold
    rw [he] at hr
    cases hr
  · intro hc
    obtain ⟨records, hrecords⟩ := (cutLines_reads hJ).mpr hc
    let before := SegmentStore.init threshold s.segments.hot s.segments.cold
    let after := SegmentStore.init threshold
      (s.segments.hot.set (sstName ts pid) (cutLines J s.segments.memtable.scan k))
      s.segments.cold
    let new : SSTable := ⟨.hot, sstName ts pid⟩
    have hnew : after.scan X new = .ok records := by
      rw [scan_init_new, hrecords]
      rfl
    have hold : ∀ t, t ≠ new → after.scan X t = before.scan X t :=
      fun t ht => scan_congr_file (init_file_of_ne ht)
    have hmem : ∀ t, t ≠ new → (t ∈ after.sstables ↔ t ∈ before.sstables) := by
      intro t ht
      have hf : after.sstables.filter (· ≠ new) = before.sstables.filter (· ≠ new) :=
        init_sstables_filter
      have hmem := congrArg (t ∈ ·) hf
      simpa [ht] using hmem
    have hscans : ∀ t ∈ after.sstables, ∃ records, after.scan X t = .ok records := by
      intro t ht
      by_cases hn : t = new
      · exact ⟨records, by rw [hn, hnew]⟩
      · rw [hold t hn]
        rw [Store.recover, recover] at hbase
        split at hbase
        · cases hbase
        · rename_i d hd
          exact (foldlM_scan.mp hd).1 t ((hmem t hn).mp ht)
    have hd' : after.durableRecordsById X =
        .ok (after.sstables.foldl (fun latest t =>
          SegmentStore.setRecords latest (tableOf X after t)) ∅) :=
      foldlM_scan.mpr ⟨hscans, rfl⟩
    refine recover_congr hbase hd' fun d hd id hid => ?_
    have hid : lastOp X (s.wal.durable ++ []) id = none := hid
    rw [List.append_nil] at hid
    rw [(foldlM_scan.mp hd).2]
    -- Neither file of that name has a record of an id that the log does not know.
    have hafter : ∀ t ∈ after.sstables, decide (t ≠ new) = false →
        ∀ r ∈ tableOf X after t, idOf r ≠ id := by
      intro t _ ht r hr he
      rw [not_not.mp (of_decide_eq_false ht), tableOf, hnew] at hr
      have hs := h.lastOp hX hJ hrecords r hr
      rw [he, hid] at hs
      cases hs
    have hbefore : ∀ t ∈ before.sstables, decide (t ≠ new) = false →
        ∀ r ∈ tableOf X before t, idOf r ≠ id := by
      intro t _ ht r hr he
      rw [not_not.mp (of_decide_eq_false ht)] at hr
      have hs := h.of_tableOf hr
      rw [he, hid] at hs
      cases hs
    rw [get?_foldl_filter hafter rfl, get?_foldl_filter hbefore rfl, init_sstables_filter]
    congr 1
    refine List.foldl_ext _ _ _ fun latest t ht => ?_
    have hne : t ≠ new := of_decide_eq_true (List.mem_filter.mp ht).2
    rw [tableOf, tableOf, hold t hne]

/-! ## Texts of records -/

open Classical in
/-- The object whose text the bytes are. -/
noncomputable def loadsObject (bytes : List UInt8) : Text :=
  if h : ∃ fields, bytes = Json.textBytes fractional ⟨false, false⟩ (.obj fields) then
    some (.obj h.choose) else none

/-- Records as the texts of their fields. -/
noncomputable def textLines : JsonLines where
  modelDumpBytes r := Json.textBytes fractional ⟨false, false⟩ (dumpRecord r)
  loads := loadsObject

theorem loadsObject_textBytes (fields : List (String × Json)) :
    loadsObject (Json.textBytes fractional ⟨false, false⟩ (.obj fields)) = some (.obj fields) := by
  have h : ∃ fields', Json.textBytes fractional ⟨false, false⟩ (.obj fields) =
      Json.textBytes fractional ⟨false, false⟩ (.obj fields') := ⟨fields, rfl⟩
  rw [loadsObject, dif_pos h]
  have hs : Json.textBytes fractional ⟨false, false⟩ (.obj fields) ++ [] =
      Json.textBytes fractional ⟨false, false⟩ (.obj h.choose) := by
    rw [List.append_nil]
    exact h.choose_spec
  rw [← (Json.textBytes_prefix fractional_floatRepr hs).1]

theorem textLines_lawful : textLines.Lawful fractional where
  loads_dump r := loadsObject_textBytes _
  loads_take r k _ hk := by
    refine dif_neg ?_
    rintro ⟨fields, hf⟩
    have happ : Json.textBytes fractional ⟨false, false⟩ (.obj fields) ++
        (textLines.modelDumpBytes r).drop k =
        textLines.modelDumpBytes r := by
      rw [← hf]
      exact List.take_append_drop k _
    have hdrop := (Json.textBytes_prefix fractional_floatRepr happ).2
    rw [List.drop_eq_nil_iff] at hdrop
    omega
  head r := Json.textBytes_head _
  no_newline r b hb := by
    have hp := Json.textBytes_printable fractional_floatRepr _ b hb
    refine ⟨fun h => ?_, fun h => ?_⟩ <;> rw [h] at hp <;> exact absurd hp (by decide)
  validateJson _ := rfl

section

/-- Two acknowledged upserts that are still in the memtable. -/
private def twoWrites : Store where
  wal := ⟨[some (dumpRecord (unitRecord zeroId [])), some (dumpRecord (unitRecord oneId []))], []⟩
  segments :=
    { SegmentStore.init 100000 ∅ ∅ with
      memtable := ((⟨100000, ∅⟩ : MemTable).put (unitRecord zeroId [])).put (unitRecord oneId []) }

private theorem twoWrites_allInWal : AllInWal fractional twoWrites where
  memtable r hr := by
    have hr : r ∈ [unitRecord zeroId [], unitRecord oneId []] := hr
    rcases List.mem_pair.mp hr with rfl | rfl
    · exact List.mem_cons_self
    · exact List.mem_cons_of_mem _ List.mem_cons_self
  hot _ _ _ h := by cases h

/-- The crash comes between the two lines. -/
theorem torn_flush_between_lines : ∃ wal segments base wal' segments' result,
    twoWrites.recover fractional 100000 = .ok (wal, segments, base) ∧
      (twoWrites.crashInFlush textLines 1 1
        (textLines.format.write [unitRecord zeroId []]).length).recover fractional
        100000 = .ok (wal', segments', result) ∧
      SameRecovery result base := by
  have hclean : CleanCut fractional textLines twoWrites.segments.memtable.scan
      (textLines.format.write [unitRecord zeroId []]).length := by
    refine ⟨1, by decide, .inl rfl, fun r hr => ?_⟩
    rw [show r = unitRecord zeroId [] from List.mem_singleton.mp hr]
    rfl
  obtain ⟨wal', segments', result, hr, hsame⟩ :=
    (torn_flush_iff fractional_lawful textLines_lawful twoWrites
    twoWrites_allInWal 100000 1 1 _ _ _ _ rfl).mpr hclean
  exact ⟨_, _, _, wal', segments', result, rfl, hr, hsame⟩

/-- A crash after the first byte of the file: recovery succeeded before the flush, and raises after
it. -/
theorem first_byte_raises : AllInWal fractional twoWrites ∧
    (∃ wal segments base, twoWrites.recover fractional 100000 = .ok (wal, segments, base)) ∧
    ∃ e, (twoWrites.crashInFlush textLines 1 1 1).recover fractional 100000 = .error e := by
  refine ⟨twoWrites_allInWal, ⟨_, _, _, rfl⟩,
    torn_line_raises textLines_lawful twoWrites ?_ 1 1 100000⟩
  rintro ⟨n, -, hk, -⟩
  obtain ⟨bytes, hbytes⟩ : ∃ bytes, textLines.format.encode (unitRecord zeroId []) = 123 ::
      34 :: bytes := ⟨_, rfl⟩
  have hlen : ∀ l, 3 ≤ (textLines.format.write (unitRecord zeroId [] :: l)).length := by
    intro l
    rw [LineFormat.length_write_cons, hbytes, List.length_cons, List.length_cons]
    omega
  have hscan : twoWrites.segments.memtable.scan = [unitRecord zeroId [], unitRecord oneId []] := rfl
  rw [hscan, LineFormat.EndsLine] at hk
  cases n with
  | zero =>
    rcases hk with hk | hk | ⟨hk, -⟩
    · exact absurd hk (by decide)
    · exact absurd hk (by decide)
    · exact absurd hk (by decide)
  | succ n =>
    rw [List.take_succ_cons] at hk
    have h := hlen ([unitRecord oneId []].take n)
    have hall := hlen [unitRecord oneId []]
    omega

end

end Vsector.Storage
