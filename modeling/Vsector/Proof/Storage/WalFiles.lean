import Vsector.Impl.Storage.Wal

/-!
# What the segment files of a log hold

A directory's segment files hold whole entries, each file followed perhaps by
what a crash left of one more (`Holds`). Reading it returns the whole
entries, file after file (`readDir_eq`); writing an entry to a file that
nothing was torn from appends it there (`writeEntry_ok`), which is the end of
the log where no file has a higher number (`entries_write_tail`).
-/

namespace Vsector.Storage

open Framework

/-! ## Entries are frames -/

theorem length_header (e : WALEntry) : e.header.length = headerSize := by
  simp [WALEntry.header, headerSize]

theorem isFrame_data {e : WALEntry} (h : e.Packs) (now : ℕ+) :
    (segmentFormat now).IsFrame e.data e := by
  have h256 : (256 : Nat) ^ 4 = 2 ^ 32 := by decide
  have hc : checksum e.payload < 256 ^ 4 := by rw [h256]; exact Nat.mod_lt _ (by decide)
  have e1 : e.header.take 4 = beBytes 4 e.payload.length := by
    simp [WALEntry.header]
  have e2 : (e.header.drop 4).take 4 = beBytes 4 (checksum e.payload) := by
    simp [WALEntry.header]
  have e3 : e.header.drop 8 = beBytes 8 e.timestamp := by
    simp [WALEntry.header, List.drop_append]
  refine ⟨e.header, e.payload, rfl, length_header e, ?_, ?_⟩
  · show beNat (e.header.take 4) = _
    rw [e1, beNat_beBytes (by rw [h256]; exact h.1)]
  · show (if checksum e.payload = beNat ((e.header.drop 4).take 4) then
      some (WALEntry.new now e.payload (beNat (e.header.drop 8))) else none) = some e
    rw [e2, beNat_beBytes hc, if_pos rfl, e3, beNat_beBytes (lt_of_lt_of_eq h.2 (by decide))]
    have ht : 0 < (e.timestamp : Nat) := e.timestamp.pos
    rw [WALEntry.new, dif_pos ht]
    rfl

/-! ## Names -/

theorem segmentName_lt {i j : Nat} (h : i < j) (hj : j < 10 ^ 6) :
    segmentName i < segmentName j := by
  unfold segmentName
  rw [if_pos (by omega), if_pos hj]
  exact append_lt_append_left _ (append_lt_append (by simp) (fixedDigits_lt h hj) _ _)

theorem segmentName_le {i j : Nat} (h : i ≤ j) (hj : j < 10 ^ 6) :
    segmentName i ≤ segmentName j := by
  rcases Nat.lt_or_eq_of_le h with h | rfl
  · exact le_of_lt (segmentName_lt h hj)
  · exact le_refl _

theorem segmentName_inj {i j : Nat} (hi : i < 10 ^ 6) (hj : j < 10 ^ 6)
    (h : segmentName i ≤ segmentName j) (h' : segmentName j ≤ segmentName i) : i = j := by
  rcases Nat.lt_trichotomy i j with hl | rfl | hl
  · exact absurd (segmentName_lt hl hj) (not_lt.mpr h')
  · rfl
  · exact absurd (segmentName_lt hl hi) (not_lt.mpr h)

/-! ## Directories -/

/-- What a segment file holds: whole entries and what a crash left of one more. -/
structure Segment where
  entries : List WALEntry
  torn : Bytes

namespace Segment

def bytes (s : Segment) : Bytes := s.entries.flatMap WALEntry.data ++ s.torn

structure Ok (s : Segment) : Prop where
  packs : ∀ e ∈ s.entries, e.Packs
  torn : s.torn = [] ∨ (segmentFormat 1).IsPartial s.torn

theorem Ok.parse {s : Segment} (h : s.Ok) (now : ℕ+) :
    (segmentFormat now).parse s.bytes = s.entries := by
  rw [bytes, FrameFormat.parse_frames fun e he => isFrame_data (h.packs e he) now]
  rcases h.torn with ht | ht
  · rw [ht, FrameFormat.parse_nil, List.append_nil]
  · rw [FrameFormat.parse_partial (F := segmentFormat now) ht, List.append_nil]

def write (e : WALEntry) (s : Segment) : Segment := { s with entries := s.entries ++ [e] }

theorem Ok.write {s : Segment} (h : s.Ok) {e : WALEntry} (he : e.Packs) : (s.write e).Ok :=
  ⟨fun e' h' => by
    rcases List.mem_append.mp h' with h' | h'
    · exact h.packs e' h'
    · rw [List.mem_singleton.mp h']; exact he, h.torn⟩

theorem bytes_write {s : Segment} (h : s.torn = []) (e : WALEntry) :
    (s.write e).bytes = s.bytes ++ e.data := by
  simp [bytes, Segment.write, h]

end Segment

theorem pairwise_sorted_names (ids : List Nat) :
    (ids.mergeSort fun a b => segmentName a ≤ segmentName b).Pairwise fun a b =>
      segmentName a ≤ segmentName b := by
  have hsorted := @List.pairwise_mergeSort _ (fun a b => decide (segmentName a ≤ segmentName b))
    (fun a b c hab hbc => by
      simp only [decide_eq_true_eq] at *
      exact le_trans hab hbc)
    (fun a b => by simpa using le_total (segmentName a) (segmentName b)) ids
  exact hsorted.imp fun h => by simpa using h

/-- The entries of segment files, in the order they are read. -/
def entriesOf (segs : List Segment) : List WALEntry := segs.flatMap Segment.entries

/-- The directory's files are `segs`, numbered from 0. -/
structure Holds (dir : Dict Nat Bytes) (segs : List Segment) : Prop where
  get : ∀ i, dir.get? i = segs[i]?.map Segment.bytes
  ok : ∀ s ∈ segs, s.Ok

namespace Holds

variable {dir : Dict Nat Bytes} {segs : List Segment}

theorem mem_keys (h : Holds dir segs) {i : Nat} : i ∈ dir.keys ↔ i < segs.length := by
  rw [Dict.mem_keys, h.get]
  simp

theorem keys_perm (h : Holds dir segs) : dir.keys.Perm (List.range segs.length) :=
  (List.perm_ext_iff_of_nodup dir.nodup_keys List.nodup_range).mpr fun i => by
    rw [h.mem_keys, List.mem_range]

/-- Sorting the files by name sorts them by number. -/
theorem sorted_keys (h : Holds dir segs) (hn : segs.length ≤ 10 ^ 6) :
    (dir.keys.mergeSort fun a b => segmentName a ≤ segmentName b) = List.range segs.length := by
  have hp := (List.mergeSort_perm dir.keys fun a b =>
    segmentName a ≤ segmentName b).trans h.keys_perm
  refine hp.eq_of_pairwise (fun a b ha hb hab hba => ?_) (pairwise_sorted_names dir.keys) ?_
  · have ha := List.mem_range.mp (hp.mem_iff.mp ha)
    have hb := List.mem_range.mp hb
    exact segmentName_inj (by omega) (by omega) hab hba
  · refine List.pairwise_lt_range.imp_of_mem fun ha hb hab => ?_
    have hb := List.mem_range.mp hb
    exact segmentName_le (by omega) (by omega)

theorem flatMap_parse (h : Holds dir segs) (now : ℕ+) : ((List.range segs.length).flatMap fun i =>
    (segmentFormat now).parse ((dir.get? i).getD [])) = entriesOf segs := by
  have : ∀ i ∈ List.range segs.length,
      (segmentFormat now).parse ((dir.get? i).getD []) =
        (segs[i]?.map Segment.entries).getD [] := by
    intro i hi
    have hi := List.mem_range.mp hi
    rw [h.get, List.getElem?_eq_getElem hi]
    exact (h.ok _ (List.getElem_mem hi)).parse now
  rw [List.flatMap_congr this, entriesOf]
  clear this h
  induction segs with
  | nil => rfl
  | cons s segs ih =>
    rw [List.length_cons, List.range_succ_eq_map, List.flatMap_cons, List.flatMap_cons,
      List.flatMap_map, ← ih]
    rfl

/-- Reading the directory returns the whole entries, file after file. -/
theorem readDir_eq (h : Holds dir segs) (hn : segs.length ≤ 10 ^ 6) (now : ℕ+) :
    WAL.readDir now dir = entriesOf segs := by
  rw [WAL.readDir, h.sorted_keys hn, h.flatMap_parse]

/-- Names of more than six digits do not sort by number, but no entry is lost to that. -/
theorem readDir_perm (h : Holds dir segs) (now : ℕ+) :
    (WAL.readDir now dir).Perm (entriesOf segs) := by
  rw [WAL.readDir, ← h.flatMap_parse now]
  exact ((List.mergeSort_perm _ _).trans h.keys_perm).flatMap_right _

end Holds

namespace WAL

/-- A segment file that is opened has what it had. -/
@[simp] theorem segment_openSegment (w : WAL) (id : Nat) :
    w.openSegment.segment id = w.segment id := by
  unfold openSegment segment
  dsimp only
  rw [Dict.get?_set]
  split
  · rename_i hid
    rw [hid]
    rfl
  · rfl

/-- The segment files after bytes are added to one. -/
theorem segment_add (w : WAL) (data : Bytes) (n id : Nat) :
    WAL.segment { w with
      dir := w.dir.set w.segmentId (w.segment w.segmentId ++ data), segmentWritten := n } id =
      w.segment id ++ if id = w.segmentId then data else [] := by
  rw [segment]
  dsimp only
  rw [Dict.get?_set]
  split
  · rename_i hid
    rw [hid]
    rfl
  · exact (List.append_nil _).symm

theorem readAll_of_flush {w : WAL} (h : w.flush.2 = true) (now : ℕ+) :
    w.readAll now = some (readDir now w.flush.1.dir) := by
  simp only [readAll, h, if_true]

theorem readDir_of_sorted {dir : Dict Nat Bytes}
    (h : dir.keys.Pairwise fun a b => decide (segmentName a ≤ segmentName b)) (now : ℕ+) :
    readDir now dir = dir.keys.flatMap fun id =>
      (segmentFormat now).parse ((dir.get? id).getD []) := by
  rw [readDir, List.mergeSort_of_pairwise h]

end WAL

/-! ## Opening and writing -/

/-- The files once file `t` is open: a new one is empty. -/
def openAt (t : Nat) (segs : List Segment) : List Segment :=
  if t < segs.length then segs else segs ++ [⟨[], []⟩]

theorem lt_length_openAt {t : Nat} {segs : List Segment} (h : t ≤ segs.length) :
    t < (openAt t segs).length := by
  unfold openAt
  split
  · assumption
  · rw [List.length_append, List.length_singleton]; omega

theorem length_le_openAt (t : Nat) (segs : List Segment) :
    segs.length ≤ (openAt t segs).length := by
  unfold openAt
  split <;> simp

@[simp] theorem entriesOf_openAt (t : Nat) (segs : List Segment) :
    entriesOf (openAt t segs) = entriesOf segs := by
  unfold openAt entriesOf
  split <;> simp

theorem Holds.openAt {dir : Dict Nat Bytes} {segs : List Segment} (h : Holds dir segs) {t : Nat}
    (ht : t ≤ segs.length) : Holds (dir.set t ((dir.get? t).getD [])) (openAt t segs) := by
  unfold Storage.openAt
  split
  · rename_i hl
    refine ⟨fun i => ?_, h.ok⟩
    rw [Dict.get?_set]
    split
    · rename_i hi; subst hi; rw [h.get, List.getElem?_eq_getElem hl]; rfl
    · exact h.get i
  · rename_i hl
    have ht : t = segs.length := by omega
    refine ⟨fun i => ?_, fun s hs => ?_⟩
    · rw [Dict.get?_set]
      split
      · rename_i hi; subst hi; subst ht; simp [h.get, Segment.bytes]
      · rename_i hi
        rw [h.get, List.getElem?_append]
        split
        · rfl
        · rw [List.getElem?_eq_none (by omega), List.getElem?_eq_none (by simp; omega)]
    · rcases List.mem_append.mp hs with hs | hs
      · exact h.ok s hs
      · rw [List.mem_singleton.mp hs]; exact ⟨by simp, .inl rfl⟩

/-- The files after `e` is written to file `t`. -/
def writeAt (t : Nat) (e : WALEntry) (segs : List Segment) : List Segment :=
  (openAt t segs).modify t (Segment.write e)

theorem entriesOf_modify_perm (e : WALEntry) : ∀ {t : Nat} {segs : List Segment}, t < segs.length →
    (entriesOf (segs.modify t (Segment.write e))).Perm (entriesOf segs ++ [e])
  | _, [], h => by simp at h
  | 0, s :: segs, _ => by
    simp only [List.modify_zero_cons, entriesOf, List.flatMap_cons, Segment.write,
      List.append_assoc]
    have hswap : ([e] ++ entriesOf segs).Perm (entriesOf segs ++ [e]) := List.perm_append_comm
    exact hswap.append_left s.entries
  | t + 1, s :: segs, h => by
    simp only [List.modify_succ_cons, entriesOf, List.flatMap_cons, List.append_assoc]
    exact (entriesOf_modify_perm e (by simpa using h)).append_left s.entries

theorem entriesOf_modify_last (e : WALEntry) :
    ∀ {t : Nat} {segs : List Segment}, t + 1 = segs.length →
    entriesOf (segs.modify t (Segment.write e)) = entriesOf segs ++ [e]
  | _, [], h => by simp at h
  | 0, [s], _ => by simp [entriesOf, Segment.write]
  | 0, _ :: _ :: _, h => by simp at h
  | t + 1, s :: segs, h => by
    have ht : t + 1 = segs.length := by simpa using h
    have ih := entriesOf_modify_last e ht
    simp only [entriesOf] at ih
    simp only [List.modify_succ_cons, entriesOf, List.flatMap_cons, List.append_assoc, ih]

theorem entries_write_perm {t : Nat} {segs : List Segment} (h : t ≤ segs.length) (e : WALEntry) :
    (entriesOf (writeAt t e segs)).Perm (entriesOf segs ++ [e]) := by
  have := entriesOf_modify_perm e (lt_length_openAt h)
  rwa [entriesOf_openAt] at this

/-- An entry written to the file with the highest number is the last one read. -/
theorem entries_write_tail {t : Nat} {segs : List Segment} (h : t ≤ segs.length)
    (hl : segs.length ≤ t + 1) (e : WALEntry) :
    entriesOf (writeAt t e segs) = entriesOf segs ++ [e] := by
  have hlen : t + 1 = (openAt t segs).length := by
    unfold openAt
    split
    · omega
    · rw [List.length_append, List.length_singleton]; omega
  have := entriesOf_modify_last e hlen
  rwa [entriesOf_openAt] at this

theorem Holds.modify {dir : Dict Nat Bytes} {segs : List Segment} (h : Holds dir segs) {t : Nat}
    (ht : t < segs.length) (hw : segs[t].torn = []) {e : WALEntry} (he : e.Packs) :
    Holds (dir.set t ((dir.get? t).getD [] ++ e.data)) (segs.modify t (Segment.write e)) := by
  refine ⟨fun i => ?_, fun s hs => ?_⟩
  · rw [Dict.get?_set, List.getElem?_modify]
    split
    · rename_i hi
      subst hi
      rw [h.get, List.getElem?_eq_getElem ht]
      simp [Segment.bytes_write hw]
    · rename_i hi
      rw [h.get]
      simp [Ne.symm hi]
  · obtain ⟨i, hi, rfl⟩ := List.getElem_of_mem hs
    rw [List.getElem_modify]
    rw [List.length_modify] at hi
    split
    · exact (h.ok _ (List.getElem_mem hi)).write he
    · exact h.ok _ (List.getElem_mem hi)

namespace WAL

/-- The segment file the next entry is written to. -/
def target (w : WAL) (e : WALEntry) : Nat := (w.rotateIfNeeded e.data.length).segmentId

theorem target_cases (w : WAL) (e : WALEntry) :
    w.target e = w.segmentId ∨ w.target e = w.segmentId + 1 := by
  unfold target rotateIfNeeded
  split
  · exact .inr rfl
  · exact .inl rfl

/-- The file an entry is written to is whole entries. -/
def Whole (w : WAL) (e : WALEntry) : Prop :=
  ∃ es : List WALEntry, (∀ e' ∈ es, e'.Packs) ∧ w.segment (w.target e) = es.flatMap WALEntry.data

/-- A log over files that hold `segs`, ready to be written to. -/
structure Ready (w : WAL) (segs : List Segment) : Prop where
  holds : Holds w.dir segs
  current : w.segmentId < segs.length
  fileOpen : w.fileOpen = true

theorem Ready.rotate {w : WAL} {segs : List Segment} (h : w.Ready segs) (n : Nat) :
    (w.rotateIfNeeded n).Ready (openAt (w.rotateIfNeeded n).segmentId segs) ∧
      (w.rotateIfNeeded n).buffer = w.buffer ∧ (w.rotateIfNeeded n).closed = w.closed ∧
      (w.rotateIfNeeded n).segmentId ≤ segs.length := by
  have hc := h.current
  unfold rotateIfNeeded
  split
  · exact ⟨⟨h.holds.openAt hc, lt_length_openAt hc, rfl⟩, rfl, rfl, hc⟩
  · have e : openAt w.segmentId segs = segs := if_pos hc
    rw [e]
    exact ⟨h, rfl, rfl, by omega⟩

/-- Writing an entry to a file nothing was torn from. -/
theorem writeEntry_ok {w : WAL} {segs : List Segment} (h : w.Ready segs) {e : WALEntry}
    (he : e.Packs) (hw : w.Whole e) :
    ∃ w', w.writeEntry e = some w' ∧ w'.Ready (writeAt (w.target e) e segs) ∧
      w'.buffer = w.buffer ∧ w'.closed = w.closed ∧ w'.segmentId = w.target e ∧
      w.target e ≤ segs.length := by
  obtain ⟨hr, hb, hcl, ht⟩ := h.rotate e.data.length
  change (w.rotateIfNeeded e.data.length).Ready (openAt (w.target e) segs) at hr
  change w.target e ≤ segs.length at ht
  have hlt := lt_length_openAt ht
  -- The file is whole entries, so nothing was torn from it.
  have hnt : (openAt (w.target e) segs)[w.target e].torn = [] := by
    obtain ⟨es, hes, hseg⟩ := hw
    have hok := hr.holds.ok _ (List.getElem_mem hlt)
    by_cases hl : w.target e < segs.length
    · have hs : (openAt (w.target e) segs)[w.target e] = segs[w.target e] := by
        simp only [openAt, if_pos hl]
      rw [hs] at hok ⊢
      rw [segment, h.holds.get, List.getElem?_eq_getElem hl] at hseg
      exact FrameFormat.eq_nil_of_frames (F := segmentFormat 1)
        (fun e' h' => isFrame_data (hok.packs e' h') 1)
          (fun e' h' => isFrame_data (hes e' h') 1) hok.torn hseg
    · have he : w.target e = segs.length := by omega
      simp [openAt, he]
  refine ⟨{ w.rotateIfNeeded e.data.length with
      dir := (w.rotateIfNeeded e.data.length).dir.set (w.target e)
        ((w.rotateIfNeeded e.data.length).segment (w.target e) ++ e.data)
      segmentWritten := (w.rotateIfNeeded e.data.length).segmentWritten + e.data.length },
    ?_, ⟨hr.holds.modify hlt hnt he, ?_, hr.fileOpen⟩, hb, hcl, rfl, ht⟩
  · simp only [writeEntry]
    rw [if_pos he, if_pos hr.fileOpen]
    rfl
  · rw [writeAt, List.length_modify]; exact hlt

end WAL

end Vsector.Storage
