import Vsector.Proof.Storage.WalFiles

/-!
# Truncated segments

`_flush_batch` writes a batch to the current segment file and those it
rotates to, each a run of the batch (`flushBatch_segments`). What `read_all`
makes of the first `k` bytes of such a run is its longest prefix that takes
no more than `k` bytes (`truncated_segment_exact`).
-/

namespace Vsector.Storage

open Framework

/-- `p` is the longest prefix of `es` whose encodings fit into `k` bytes. -/
structure LongestFit (es : List WALEntry) (k : Nat) (p : List WALEntry) : Prop where
  isPrefix : p <+: es
  length_le : (p.flatMap WALEntry.data).length ≤ k
  longest : ∀ q, q <+: es → (q.flatMap WALEntry.data).length ≤ k → q <+: p

theorem longestFit_parse {es : List WALEntry} (hes : ∀ e ∈ es, e.Packs) (now : ℕ+) (k : Nat) :
    LongestFit es k ((segmentFormat now).parse ((es.flatMap WALEntry.data).take k)) := by
  rw [FrameFormat.parse_take fun e he => isFrame_data (hes e he) now]
  exact ⟨FrameFormat.isPrefix_fits k es, FrameFormat.length_fits_le k es,
    fun _ => FrameFormat.prefix_fits⟩

namespace WAL

variable {w w' : WAL}

/-- What `_flush_batch` leaves: the entries in the order of the segments they were written to,
which begin at the current one, and each segment with its entries behind what it held. -/
structure Wrote (w : WAL) (batch : List WALEntry) (w' : WAL) (run : Nat → List WALEntry) :
    Prop where
  forward : w.segmentId ≤ w'.segmentId
  none_before : ∀ id, id < w.segmentId → run id = []
  none_after : ∀ id, w'.segmentId < id → run id = []
  batch_eq : (List.range' w.segmentId (w'.segmentId + 1 - w.segmentId)).flatMap run = batch
  segment_eq : ∀ id, w'.segment id = w.segment id ++ (run id).flatMap WALEntry.data

theorem segment_rotateIfNeeded (w : WAL) (size id : Nat) :
    (w.rotateIfNeeded size).segment id = w.segment id := by
  unfold rotateIfNeeded
  split
  · exact segment_openSegment _ id
  · rfl

theorem writeEntry_segments {e : WALEntry} (hopen : w.fileOpen = true) (he : e.Packs) :
    ∃ w', w.writeEntry e = some w' ∧ w'.fileOpen = true ∧ w'.segmentId = w.target e ∧
      ∀ id, w'.segment id = w.segment id ++ if id = w.target e then e.data else [] := by
  have hfile : (w.rotateIfNeeded e.data.length).fileOpen = true := by
    unfold rotateIfNeeded
    split
    · rfl
    · exact hopen
  let w₁ := w.rotateIfNeeded e.data.length
  let w₂ : WAL :=
    { w₁ with
      dir := w₁.dir.set w₁.segmentId (w₁.segment w₁.segmentId ++ e.data)
      segmentWritten := w₁.segmentWritten + e.data.length }
  have hwrite : w.writeEntry e = some w₂ := by
    rw [writeEntry, if_pos he]
    exact if_pos hfile
  refine ⟨w₂, hwrite, hfile, rfl, fun id => ?_⟩
  rw [← segment_rotateIfNeeded w e.data.length id]
  exact segment_add w₁ e.data _ id

/-- One entry, and then a batch. -/
theorem Wrote.cons {e : WALEntry} {batch : List WALEntry} {w₁ : WAL} {run : Nat → List WALEntry}
    (hid : w₁.segmentId = w.target e)
    (hseg : ∀ id, w₁.segment id = w.segment id ++ if id = w.target e then e.data else [])
    (h : Wrote w₁ batch w' run) :
    Wrote w (e :: batch) w' fun id => if id = w.target e then e :: run id else run id := by
  have htarget := target_cases w e
  have hle : w.segmentId ≤ w.target e := by omega
  have hforward := h.forward
  rw [hid] at hforward
  refine ⟨hle.trans hforward, fun id hlt => ?_, fun id hgt => ?_, ?_, fun id => ?_⟩
  · rw [if_neg (by omega)]
    exact h.none_before id (by omega)
  · rw [if_neg (by omega)]
    exact h.none_after id hgt
  · -- behind the segment of `e` the runs are those of the batch
    have hrest : (List.range' (w.target e) (w'.segmentId + 1 - w.target e)).flatMap
        (fun id => if id = w.target e then e :: run id else run id) = e :: batch := by
      have hsize : w'.segmentId + 1 - w.target e = (w'.segmentId - w.target e) + 1 := by omega
      have hbatch := h.batch_eq
      rw [hid, hsize, List.range'_succ, List.flatMap_cons] at hbatch
      rw [hsize, List.range'_succ, List.flatMap_cons, if_pos rfl, List.cons_append, ← hbatch]
      refine congrArg (fun l => e :: (run (w.target e) ++ l))
        (List.flatMap_congr fun id hmem => if_neg ?_)
      have hgt := (List.mem_range'_1.mp hmem).1
      omega
    rcases htarget with ht | ht
    · rw [ht] at hrest ⊢
      exact hrest
    · have hsize : w'.segmentId + 1 - w.segmentId = (w'.segmentId + 1 - w.target e) + 1 := by omega
      rw [hsize, List.range'_succ, List.flatMap_cons, if_neg (by omega), h.none_before _ (by omega),
        List.nil_append, ← ht]
      exact hrest
  · rw [h.segment_eq, hseg, List.append_assoc]
    split
    · rw [List.flatMap_cons]
    · rw [List.nil_append]

theorem Wrote.subset {batch : List WALEntry} {run : Nat → List WALEntry} (h : Wrote w batch w' run)
    (id : Nat) :
    run id ⊆ batch := by
  intro e he
  have hlow : w.segmentId ≤ id := by
    by_contra hlt
    rw [h.none_before id (by omega)] at he
    cases he
  have hhigh : id ≤ w'.segmentId := by
    by_contra hgt
    rw [h.none_after id (by omega)] at he
    cases he
  rw [← h.batch_eq]
  exact List.mem_flatMap.mpr ⟨id, List.mem_range'_1.mpr (by omega), he⟩

theorem flushBatch_segments {batch : List WALEntry} (hopen : w.fileOpen = true)
    (hbatch : ∀ e ∈ batch, e.Packs) :
    ∃ w' run, w.flushBatch batch = (w', true) ∧ Wrote w batch w' run := by
  induction batch generalizing w with
  | nil =>
    refine ⟨w, fun _ => [], rfl, le_refl _, fun _ _ => rfl, fun _ _ => rfl, ?_,
      fun _ => (List.append_nil _).symm⟩
    exact List.flatMap_eq_nil_iff.mpr fun _ _ => rfl
  | cons e batch ih =>
    obtain ⟨w₁, hwrite, hopen₁, hid, hseg⟩ :=
      writeEntry_segments hopen (hbatch e List.mem_cons_self)
    obtain ⟨w', run, hflush, hwrote⟩ := ih hopen₁ fun e he => hbatch e (List.mem_cons_of_mem _ he)
    refine ⟨w', _, ?_, hwrote.cons hid hseg⟩
    rw [flushBatch, hwrite]
    exact hflush

/-- No segment is opened where the batch fits into the current one. -/
theorem flushBatch_one_segment {batch : List WALEntry}
    (hroom : (w.segmentWritten : Int) + (batch.flatMap WALEntry.data).length ≤ w.segmentBytes) :
    (w.flushBatch batch).1.segmentId = w.segmentId := by
  induction batch generalizing w with
  | nil => rfl
  | cons e batch ih =>
    rw [List.flatMap_cons, List.length_append] at hroom
    have hsame : w.rotateIfNeeded e.data.length = w := if_neg (by omega)
    rw [flushBatch, writeEntry]
    split
    · rename_i w₁ hwrite
      split at hwrite
      · dsimp only at hwrite
        rw [hsame] at hwrite
        split at hwrite
        · cases hwrite
          refine ih ?_
          dsimp only
          omega
        · cases hwrite
      · cases hwrite
    · rfl

/-- The segments that a batch is written to hold it run by run, one where it fits, and the first
`k` bytes of a run are read as its longest prefix that fits into them. -/
theorem truncated_segment_exact (now : ℕ+) (w : WAL) (batch : List WALEntry)
    (hopen : w.fileOpen = true)
    (hbatch : ∀ e ∈ batch, e.payload.length < 2 ^ 32 ∧ (e.timestamp : Nat) < 2 ^ 64) :
    ∃ w' run, w.flushBatch batch = (w', true) ∧
      (List.range' w.segmentId (w'.segmentId + 1 - w.segmentId)).flatMap run = batch ∧
      ((w.segmentWritten : Int) + (batch.flatMap WALEntry.data).length ≤ w.segmentBytes →
        run w.segmentId = batch) ∧
      ∀ id, w'.segment id = w.segment id ++ (run id).flatMap WALEntry.data ∧
        ∀ k, LongestFit (run id) k
          ((segmentFormat now).parse (((run id).flatMap WALEntry.data).take k)) := by
  obtain ⟨w', run, hflush, hwrote⟩ := flushBatch_segments hopen hbatch
  refine ⟨w', run, hflush, hwrote.batch_eq, fun hroom => ?_, fun id =>
    ⟨hwrote.segment_eq id, longestFit_parse ?_ now⟩⟩
  · have hid := flushBatch_one_segment hroom
    have hrun := hwrote.batch_eq
    rw [hflush] at hid
    rw [hid, Nat.add_sub_cancel_left, List.range'_one, List.flatMap_singleton] at hrun
    exact hrun
  · exact fun e he => hbatch e (hwrote.subset id he)

private def twoEntries : List WALEntry := [⟨[1, 2], 7⟩, ⟨[], 8⟩]

theorem truncated_segment_two : ∃ w' : WAL, (WAL.init 4096 ∅).flushBatch twoEntries = (w', true) ∧
    ∀ k, LongestFit twoEntries k ((segmentFormat 1).parse ((w'.segment 0).take k)) := by
  have hpacks : ∀ e ∈ twoEntries, e.payload.length < 2 ^ 32 ∧ (e.timestamp : Nat) < 2 ^ 64 :=
    by decide +kernel
  obtain ⟨w', run, hflush, -, hone, hruns⟩ :=
    truncated_segment_exact 1 (WAL.init 4096 ∅) twoEntries rfl hpacks
  refine ⟨w', hflush, fun k => ?_⟩
  obtain ⟨hseg, hread⟩ := hruns 0
  have hrun : run 0 = twoEntries := hone (by decide +kernel)
  rw [hseg, hrun]
  have h := hread k
  rw [hrun] at h
  exact h

end WAL

end Vsector.Storage
