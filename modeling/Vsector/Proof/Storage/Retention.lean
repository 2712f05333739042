import Vsector.Impl.Storage.WalRetention
import Vsector.Proof.Storage.TornTable
import Vsector.Proof.Storage.WalFiles

/-!
# What retention removes

`gc` goes by the age of the segment files alone. What is left of the log are
the entries of the younger files, in their order (`readDir_gc`), and recovery
over them finds the same exactly if they say last about every id what all
files did, or nothing about one whose record the SSTables hold
(`gc_keeps_iff`).
-/

namespace Vsector.Storage

open Framework Models

variable {X : Externals} {J : JsonLines}

/-! ## The files that are left -/

theorem segmentName_injective : Function.Injective segmentName := by
  intro i j h
  have hid : ∀ n, Nat.ofDigitChars 10 (if n < 10 ^ 6 then fixedDigits 6 n
      else Nat.toDigits 10 n) 0 = n := by
    intro n
    split
    · rename_i hn
      exact ofDigitChars_fixedDigits hn
    · exact Nat.ofDigitChars_ten_toDigits
  have hdigits := List.append_cancel_right (List.append_cancel_left h)
  rw [← hid i, ← hid j, hdigits]

namespace WAL

variable {w : WAL} {mtime : Nat → ℚ} {time : ℚ} {retentionDays : Int}

/-- A file that `gc` removes. -/
def Expired (mtime : Nat → ℚ) (time : ℚ) (retentionDays : Int) (id : Nat) : Prop :=
  mtime id < time - retentionDays * 86400

instance (mtime : Nat → ℚ) (time : ℚ) (retentionDays : Int) (id : Nat) :
    Decidable (Expired mtime time retentionDays id) :=
  inferInstanceAs (Decidable (_ < _))

theorem get?_foldl_pop (p : Nat → Prop) [DecidablePred p] (ids : List Nat) (dir : Dict Nat Bytes)
    (id : Nat) :
    (ids.foldl (fun dir id => if p id then dir.pop id else dir) dir).get? id =
      if p id ∧ id ∈ ids then none else dir.get? id := by
  induction ids generalizing dir with
  | nil => rw [if_neg fun h => List.not_mem_nil h.2, List.foldl_nil]
  | cons a ids ih =>
    rw [List.foldl_cons, ih]
    by_cases hin : p id ∧ id ∈ ids
    · rw [if_pos hin, if_pos ⟨hin.1, List.mem_cons_of_mem _ hin.2⟩]
    · rw [if_neg hin]
      by_cases ha : p id ∧ id = a
      · obtain ⟨hp, rfl⟩ := ha
        rw [if_pos hp, Dict.get?_pop_self, if_pos ⟨hp, List.mem_cons_self⟩]
      · have hnot : ¬ (p id ∧ id ∈ a :: ids) := fun h =>
          (List.mem_cons.mp h.2).elim (fun he => ha ⟨h.1, he⟩) fun hm => hin ⟨h.1, hm⟩
        rw [if_neg hnot]
        split
        · rename_i hpa
          exact Dict.get?_pop_ne _ fun he => ha ⟨he ▸ hpa, he⟩
        · rfl

theorem get?_gc (id : Nat) : (w.gc mtime time retentionDays).dir.get? id =
    if Expired mtime time retentionDays id then none else w.dir.get? id := by
  refine (get?_foldl_pop (Expired mtime time retentionDays) w.dir.keys w.dir id).trans ?_
  by_cases hold : Expired mtime time retentionDays id
  · rw [if_pos hold]
    by_cases hmem : id ∈ w.dir.keys
    · rw [if_pos ⟨hold, hmem⟩]
    · rw [if_neg fun h => hmem h.2]
      exact Option.not_isSome_iff_eq_none.mp (mt Dict.mem_keys.mpr hmem)
  · rw [if_neg hold, if_neg fun h => hold h.1]

/-- Segment files in the order they are read. -/
def readOrder (dir : Dict Nat Bytes) : List Nat :=
  dir.keys.mergeSort fun a b => segmentName a ≤ segmentName b

/-- Files that are the files of another directory, without some. -/
theorem readOrder_filter {dir dir' : Dict Nat Bytes} {keep : Nat → Bool}
    (h : ∀ id, id ∈ dir'.keys ↔ keep id = true ∧ id ∈ dir.keys) :
    readOrder dir' = (readOrder dir).filter keep := by
  have hperm : (readOrder dir').Perm ((readOrder dir).filter keep) := by
    refine (List.mergeSort_perm _ _).trans (.trans ?_ ((List.mergeSort_perm _ _).symm.filter keep))
    refine (List.perm_ext_iff_of_nodup dir'.nodup_keys (dir.nodup_keys.filter keep)).mpr
      fun id => ?_
    rw [h, List.mem_filter, and_comm]
  refine hperm.eq_of_pairwise (fun a b _ _ hab hba => segmentName_injective (le_antisymm hab hba))
    (pairwise_sorted_names dir'.keys) ((pairwise_sorted_names dir.keys).sublist List.filter_sublist)

/-- The entries of the files that satisfy `keep`, in the order they are read. -/
def entriesIn (now : ℕ+) (dir : Dict Nat Bytes) (keep : Nat → Bool) : List WALEntry :=
  ((readOrder dir).filter keep).flatMap fun id => (segmentFormat now).parse ((dir.get? id).getD [])

theorem readDir_eq_entriesIn (now : ℕ+) (dir : Dict Nat Bytes) :
    readDir now dir = entriesIn now dir fun _ => true := by
  rw [entriesIn, List.filter_true]
  rfl

/-- Those of the younger files are left. -/
theorem readDir_gc (now : ℕ+) (w : WAL) (mtime : Nat → ℚ) (time : ℚ) (retentionDays : Int) :
    readDir now (w.gc mtime time retentionDays).dir =
      entriesIn now w.dir fun id => !decide (Expired mtime time retentionDays id) := by
  have horder : readOrder (w.gc mtime time retentionDays).dir =
      (readOrder w.dir).filter fun id => !decide (Expired mtime time retentionDays id) := by
    refine readOrder_filter fun id => ?_
    rw [Dict.mem_keys, Dict.mem_keys, get?_gc, Bool.not_eq_true', decide_eq_false_iff_not]
    split
    · rename_i hold
      exact iff_of_false (fun h => by cases h) fun h => h.1 hold
    · rename_i hyoung
      exact (and_iff_right hyoung).symm
  have hread : readDir now (w.gc mtime time retentionDays).dir =
      (readOrder (w.gc mtime time retentionDays).dir).flatMap
      fun id => (segmentFormat now).parse (((w.gc mtime time retentionDays).dir.get? id).getD []) :=
        rfl
  rw [hread, horder, entriesIn]
  refine List.flatMap_congr fun id hid => ?_
  have hyoung := (List.mem_filter.mp hid).2
  rw [Bool.not_eq_true', decide_eq_false_iff_not] at hyoung
  rw [get?_gc, if_neg hyoung]

theorem mem_entriesIn {now : ℕ+} {dir : Dict Nat Bytes} {keep : Nat → Bool} {e : WALEntry}
    (h : e ∈ entriesIn now dir keep) : e ∈ readDir now dir := by
  obtain ⟨id, hid, he⟩ := List.mem_flatMap.mp h
  exact List.mem_flatMap.mpr ⟨id, List.mem_of_mem_filter hid, he⟩

/-- A log that is opened on a directory reads what the directory holds: if its first file is new,
it is empty. -/
theorem readAll_init (now : ℕ+) (segmentBytes : Int) (dir : Dict Nat Bytes) :
    (init segmentBytes dir).readAll now = some (readDir now dir) := by
  let opened := dir.set 0 ((dir.get? 0).getD [])
  have hbytes : ∀ id, (opened.get? id).getD [] = (dir.get? id).getD [] := by
    intro id
    rw [Dict.get?_set]
    split
    · rename_i hid
      rw [hid]
      rfl
    · rfl
  have horder : readOrder dir = (readOrder opened).filter fun id => decide (id ∈ dir.keys) := by
    refine readOrder_filter fun id => ?_
    rw [decide_eq_true_iff, Dict.mem_keys, Dict.mem_keys, Dict.get?_set]
    split
    · exact (and_iff_left rfl).symm
    · exact (and_self_iff).symm
  have hnew : ∀ id, id ∉ dir.keys → (segmentFormat now).parse ((dir.get? id).getD []) = [] := by
    intro id hid
    rw [Option.not_isSome_iff_eq_none.mp (mt Dict.mem_keys.mpr hid)]
    exact FrameFormat.parse_nil _
  have hread : (init segmentBytes dir).readAll now = some ((readOrder opened).flatMap fun id =>
      (segmentFormat now).parse ((opened.get? id).getD [])) := rfl
  have hdir : readDir now dir = (readOrder dir).flatMap fun id =>
      (segmentFormat now).parse ((dir.get? id).getD []) := rfl
  rw [hread, hdir, horder]
  simp only [hbytes]
  congr 1
  induction readOrder opened with
  | nil => rfl
  | cons id ids ih =>
    rw [List.flatMap_cons, List.filter_cons]
    by_cases hid : id ∈ dir.keys
    · rw [if_pos (decide_eq_true hid), List.flatMap_cons, ih]
    · rw [if_neg (by rw [decide_eq_true_iff]; exact hid), hnew id hid, List.nil_append, ih]

end WAL

/-! ## What recovery finds -/

variable {s : SegmentStore} {d : Dict String VectorRecord}

/-- The SSTables' records are found under their own ids. -/
theorem keyed_durable (hd : s.durableRecordsById X = .ok d) :
    ∀ id r, d.get? id = some r → idOf r = id := by
  have hall : ∀ (ts : List SSTable) (d₀ : Dict String VectorRecord),
      (∀ id r, d₀.get? id = some r → idOf r = id) →
      ∀ d, ts.foldlM (fun latest t => (s.scan X t).map (SegmentStore.setRecords latest))
        d₀ = .ok d →
      ∀ id r, d.get? id = some r → idOf r = id := by
    intro ts
    induction ts with
    | nil =>
      intro d₀ h₀ d hd
      cases hd
      exact h₀
    | cons t ts ih =>
      intro d₀ h₀ d hd
      rw [List.foldlM_cons] at hd
      rcases hscan : s.scan X t with exc | records
      · rw [hscan] at hd
        cases hd
      · rw [hscan] at hd
        exact ih _ (Layers.keyed_setAll h₀ records) d hd
  exact hall s.sstables ∅ (fun _ _ h => by cases h) d hd

/-- What a recovery over a log of `entries` finds. -/
structure Finds (X : Externals) (d : Dict String VectorRecord) (entries : List Text)
    (result : RecoveryResult) : Prop where
  records : ∀ id, Layers.find idOf result.records id = current (lastOp X entries id) (d.get? id)
  nodup : (result.records.map idOf).Nodup
  deleted : ∀ id, id ∈ result.deletedIds ↔ isDelete (lastOp X entries id) = true
  sorted : result.deletedIds.Pairwise (· ≤ ·)
  distinct : result.deletedIds.Nodup

theorem recover_finds (hd : s.durableRecordsById X = .ok d) (entries : List Text) :
    ∃ result, (recover X (.init entries) s).map (fun recovered => recovered.2.2) = .ok result ∧
      Finds X d entries result := by
  let replay := entries.foldl (Replay.entry X) ⟨d, ∅⟩
  have hrec : ∀ id, replay.records.get? id = current (lastOp X entries id) (d.get? id) :=
    fun id => (replay_ok d _ id).1
  have hkey := replay_keyed (X := X) (keyed_durable hd) entries
  have hlog : (Log.init entries).flush.durable = entries := List.append_nil _
  refine ⟨_, by rw [recover, hd]; rfl, ?_⟩
  rw [hlog]
  refine ⟨fun id => ?_, Layers.nodup_values hkey, fun id => ?_, List.pairwise_insertionSort _ _, ?_⟩
  · exact (Layers.find_values hkey id).trans (hrec id)
  · rw [List.mem_insertionSort, ← PySet.has_iff_mem_keys, (replay_ok d _ id).2]
  · exact (List.perm_insertionSort _ _).nodup_iff.mpr (Dict.nodup_keys _)

theorem Finds.deleted_ne {entries : List Text} {result : RecoveryResult}
    (h : Finds X d entries result) : ∀ id ∈ result.deletedIds, id ≠ "" :=
  fun id hid => lastOp_delete_ne ((h.deleted id).mp hid)

/-- No record found has a tombstone. -/
theorem Finds.not_deleted {entries : List Text} {result : RecoveryResult}
    (h : Finds X d entries result) {r : VectorRecord} (hr : r ∈ result.records) :
    idOf r ∉ result.deletedIds := by
  intro hid
  have hfind := Layers.find_of_mem h.nodup hr
  rw [h.records] at hfind
  have hdelete := (h.deleted _).mp hid
  rcases hl : lastOp X entries (idOf r) with _ | r' | a
  · rw [hl] at hdelete
    cases hdelete
  · rw [hl] at hdelete
    cases hdelete
  · rw [hl] at hfind
    cases hfind

/-- Two recoveries over the same SSTables find the same where they find the same for every id. -/
theorem Finds.same_iff {entries entries' : List Text} {a b : RecoveryResult}
    (ha : Finds X d entries a) (hb : Finds X d entries' b) : SameRecovery a b ↔
      ∀ id, current (lastOp X entries id) (d.get? id) = current (lastOp X entries' id) (d.get? id) ∧
        isDelete (lastOp X entries id) = isDelete (lastOp X entries' id) := by
  have hrecords : a.records.Perm b.records ↔
      ∀ id, Layers.find idOf a.records id = Layers.find idOf b.records id :=
    Layers.perm_iff_find ha.nodup hb.nodup
  have hdeleted : a.deletedIds = b.deletedIds ↔ ∀ id, id ∈ a.deletedIds ↔ id ∈ b.deletedIds := by
    constructor
    · intro h id
      rw [h]
    · intro h
      exact ((List.perm_ext_iff_of_nodup ha.distinct hb.distinct).mpr h).eq_of_pairwise'
        ha.sorted hb.sorted
  rw [SameRecovery, hrecords, hdeleted, ← forall_and]
  refine forall_congr' fun id => ?_
  rw [ha.records, hb.records, ha.deleted, hb.deleted, ← Bool.eq_iff_iff]

/-! ## What retention keeps -/

/-- The documents of entries. -/
def payloads (J : JsonLines) (entries : List WALEntry) : List Text :=
  entries.map fun e => J.loads e.payload

theorem recoverDir_eq (now : ℕ+) (segmentBytes : Int) (dir : Dict Nat Bytes) (s : SegmentStore) :
    recoverDir X J now segmentBytes dir s =
      (recover X (.init (payloads J (WAL.readDir now dir))) s).map fun recovered =>
        recovered.2.2 := by
  rw [recoverDir, WAL.readAll_init]
  rfl

/-- The kept entries say last about an id what all entries do, or say nothing about it where the
last was of the record that the SSTables hold. -/
def Retained (X : Externals) (d : Dict String VectorRecord) (entries kept : List Text)
    (id : String) : Prop :=
  lastOp X kept id = lastOp X entries id ∨
    lastOp X kept id = none ∧ ∃ r, lastOp X entries id = some (.upsert r) ∧ d.get? id = some r

theorem lastOp_none_of_subset {entries kept : List Text} (hsub : kept ⊆ entries) {id : String}
    (h : lastOp X entries id = none) : lastOp X kept id = none := by
  by_contra hkept
  obtain ⟨op, hop⟩ := Option.ne_none_iff_exists'.mp hkept
  have hmem : op ∈ (kept.filterMap (parsePayload X)).reverse := Layers.mem_of_find hop
  obtain ⟨payload, hpayload, hparse⟩ := List.mem_filterMap.mp (List.mem_reverse.mp hmem)
  have hsome := lastOp_isSome (hsub hpayload) hparse
  rw [id_of_lastOp hop, h] at hsome
  cases hsome

theorem retained_iff {entries kept : List Text} (hsub : kept ⊆ entries) (id : String) :
    (current (lastOp X entries id) (d.get? id) = current (lastOp X kept id) (d.get? id) ∧
      isDelete (lastOp X entries id) = isDelete (lastOp X kept id)) ↔
        Retained X d entries kept id := by
  constructor
  · rintro ⟨hcurrent, hdelete⟩
    rcases hall : lastOp X entries id with _ | r | a
    · exact .inl (by rw [hall]; exact lastOp_none_of_subset hsub hall)
    · rw [hall] at hcurrent hdelete
      rcases hkept : lastOp X kept id with _ | r' | a
      · rw [hkept] at hcurrent
        exact .inr ⟨hkept, r, hall, hcurrent.symm⟩
      · rw [hkept] at hcurrent
        cases hcurrent
        exact .inl (hkept.trans hall.symm)
      · rw [hkept] at hdelete
        cases hdelete
    · rw [hall] at hdelete
      rcases hkept : lastOp X kept id with _ | r' | a'
      · rw [hkept] at hdelete
        cases hdelete
      · rw [hkept] at hdelete
        cases hdelete
      · have ha : a = id := id_of_lastOp hall
        have ha' : a' = id := id_of_lastOp hkept
        exact .inl (by rw [hkept, hall, ha, ha'])
  · rintro (hsame | ⟨hnone, r, hall, hd⟩)
    · rw [hsame]
      exact ⟨rfl, rfl⟩
    · rw [hnone, hall]
      exact ⟨hd.symm, rfl⟩

/-- Recovery has the same result, or raises in both cases. -/
def SameOutcome (before after : Except Exc RecoveryResult) : Prop :=
  before = after ∨ ∃ a b, before = .ok a ∧ after = .ok b ∧ SameRecovery a b

variable (X J) in
/-- `gc` changes nothing that recovery finds exactly if the younger files say enough about every
id. -/
theorem gc_keeps_iff (now : ℕ+) (w : WAL) (mtime : Nat → ℚ) (time : ℚ) (retentionDays : Int)
    (s : SegmentStore) :
    SameOutcome (recoverDir X J now w.segmentBytes w.dir s)
        (recoverDir X J now w.segmentBytes (w.gc mtime time retentionDays).dir s) ↔
      ∀ d, s.durableRecordsById X = .ok d →
        ∀ id, Retained X d (payloads J (WAL.entriesIn now w.dir fun _ => true))
        (payloads J (WAL.entriesIn now w.dir fun id =>
          !decide (WAL.Expired mtime time retentionDays id))) id := by
  rw [recoverDir_eq, recoverDir_eq, WAL.readDir_gc, WAL.readDir_eq_entriesIn]
  let entries := payloads J (WAL.entriesIn now w.dir fun _ => true)
  let kept := payloads J (WAL.entriesIn now w.dir fun id =>
    !decide (WAL.Expired mtime time retentionDays id))
  have hsub : kept ⊆ entries := by
    intro payload hpayload
    obtain ⟨e, he, rfl⟩ := List.mem_map.mp hpayload
    refine List.mem_map_of_mem ?_
    rw [← WAL.readDir_eq_entriesIn]
    exact WAL.mem_entriesIn he
  rcases hd : s.durableRecordsById X with exc | d
  · refine iff_of_true (.inl ?_) fun d h => by cases h
    rw [recover, recover, hd]
  · obtain ⟨a, ha, hfindsa⟩ := recover_finds hd entries
    obtain ⟨b, hb, hfindsb⟩ := recover_finds hd kept
    have hsame : SameOutcome (.ok a) (.ok b) ↔ SameRecovery a b := by
      constructor
      · rintro (heq | ⟨a', b', ha', hb', hsame⟩)
        · cases heq
          exact ⟨.refl _, rfl⟩
        · cases ha'
          cases hb'
          exact hsame
      · exact fun h => .inr ⟨a, b, rfl, rfl, h⟩
    refine (show _ ↔ SameOutcome (.ok a) (.ok b) from ?_).trans
      (hsame.trans ((hfindsa.same_iff hfindsb).trans ?_))
    · rw [← ha, ← hb]
    · rw [forall_congr' (retained_iff hsub)]
      constructor
      · rintro h d' hd'
        cases hd'
        exact h
      · exact fun h => h d rfl

section

/-- The log entry of a record. -/
private noncomputable def unflushed : WALEntry :=
  ⟨textLines.modelDumpBytes (unitRecord zeroId []), Nat.succPNat 0⟩

/-- A log with that entry. -/
private noncomputable def olderLog : WAL := (((WAL.init 1000 ∅).append unflushed).flush).1

private theorem unflushed_packs : unflushed.Packs := by decide +kernel

/-- The files of a new log with one entry. -/
private theorem dir_of_first {e : WALEntry} (hpacks : e.Packs)
    (hlength : ¬ (1000 : Int) < (0 : Nat) + e.data.length) :
    (((WAL.init 1000 ∅).append e).flush).1.dir = Dict.set ∅ 0 e.data := by
  have hsize : ¬ (WAL.init 1000 ∅).segmentBytes < (WAL.init 1000 ∅).segmentWritten +
      e.data.length := hlength
  have hwrite : (WAL.init 1000 ∅).writeEntry e = some
      { WAL.init 1000 ∅ with
        dir := Dict.set ∅ 0 e.data
        segmentWritten := 0 + e.data.length } := by
    rw [WAL.writeEntry, if_pos hpacks, WAL.rotateIfNeeded, if_neg hsize]
    rfl
  have hflush : ((WAL.init 1000 ∅).append e).flush = (WAL.init 1000 ∅).flushBatch [e] := rfl
  rw [hflush, WAL.flushBatch, hwrite]
  rfl

private theorem unflushed_length :
    ¬ (1000 : Int) < (0 : Nat) + unflushed.data.length := by decide +kernel

private theorem olderLog_dir : olderLog.dir = Dict.set ∅ 0 unflushed.data := by
  unfold olderLog
  exact dir_of_first unflushed_packs unflushed_length

private theorem olderLog_read : WAL.readDir 1 olderLog.dir = [unflushed] := by
  have hholds : Holds olderLog.dir [⟨[unflushed], []⟩] := by
    rw [olderLog_dir]
    refine ⟨fun i => ?_, fun s hs => ?_⟩
    · rw [Dict.get?_set]
      split
      · rename_i hi
        rw [hi]
        show some unflushed.data = some ([unflushed].flatMap WALEntry.data ++ [])
        rw [List.flatMap_singleton, List.append_nil]
      · rename_i hi
        rw [List.getElem?_eq_none (by rw [List.length_singleton]; omega)]
        rfl
    · rw [List.mem_singleton.mp hs]
      exact ⟨fun e he => by rw [List.mem_singleton.mp he]; exact unflushed_packs, .inl rfl⟩
  rw [hholds.readDir_eq (by decide)]
  rfl

/-- A record that was never flushed, written eight days ago: after `gc` it is gone. -/
theorem unflushed_record_expires :
    ¬ SameOutcome (recoverDir fractional textLines 1 1000 olderLog.dir (.init 10 ∅ ∅))
      (recoverDir fractional textLines 1 1000 (olderLog.gc (fun _ => 0) (8 * 86400) 7).dir
        (.init 10 ∅ ∅)) := by
  have hexpired : ∀ id, WAL.Expired (fun _ => 0) (8 * 86400) 7 id := fun id => by
    show (0 : ℚ) < 8 * 86400 - ((7 : Int) : ℚ) * 86400
    norm_num
  have hgone : WAL.readDir 1 (olderLog.gc (fun _ => 0) (8 * 86400) 7).dir = [] := by
    have hnone : (WAL.readOrder olderLog.dir).filter
        (fun id => !decide (WAL.Expired (fun _ => 0) (8 * 86400) 7 id)) = [] :=
      List.filter_eq_nil_iff.mpr fun id _ => by rw [decide_eq_true (hexpired id)]; decide
    rw [WAL.readDir_gc, WAL.entriesIn, hnone]
    rfl
  have hdurable : (SegmentStore.init 10 ∅ ∅).durableRecordsById fractional = .ok ∅ := rfl
  obtain ⟨a, ha, hfindsa⟩ := recover_finds hdurable (payloads textLines [unflushed])
  obtain ⟨b, hb, hfindsb⟩ := recover_finds hdurable (payloads textLines [])
  have hlast : lastOp fractional (payloads textLines [unflushed]) zeroId.text =
      some (.upsert (unitRecord zeroId [])) := by
    have hparse : parsePayload fractional (textLines.loads unflushed.payload) =
        some (.upsert (unitRecord zeroId [])) := by
      rw [show unflushed.payload = textLines.modelDumpBytes (unitRecord zeroId []) from rfl,
        textLines_lawful.loads_dump]
      exact parse_dump fractional_lawful (by decide)
    have happend := lastOp_append (X := fractional) []
      (textLines.loads unflushed.payload) zeroId.text
    rw [hparse] at happend
    exact happend
  intro h
  rw [recoverDir_eq, recoverDir_eq, olderLog_read, hgone, ha, hb] at h
  have hsame : SameRecovery a b := by
    rcases h with heq | ⟨a', b', ha', hb', hsame⟩
    · cases heq
      exact ⟨.refl _, rfl⟩
    · cases ha'
      cases hb'
      exact hsame
  have hid := ((hfindsa.same_iff hfindsb).mp hsame zeroId.text).1
  rw [hlast] at hid
  cases hid

end

end Vsector.Storage
