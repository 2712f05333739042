import Vsector.Impl.Storage.WalFaults
import Vsector.Proof.Storage.WalFiles

/-!
# Batches that fail

A batch is taken out of the buffer whole, and what `_flush_batch` has not
written when it raises is in neither place. So no entry is dropped only where
what raised was the write of the last one, with all of its bytes in the file
(`failed_write_keeps_iff`).
-/

namespace Vsector.Storage.WAL

open Framework

variable {w w' w₁ : WAL} {e : WALEntry} {es batch later : List WALEntry} {fault : Option FlushFault}

/-! ## Without faults -/

theorem writeEntryWith_none (w : WAL) (e : WALEntry) :
    w.writeEntryWith e none = ((w.writeEntry e).getD w, (w.writeEntry e).isSome) := by
  unfold writeEntryWith writeEntry rotateIfNeeded
  by_cases hpacks : e.Packs
  · rw [if_pos hpacks, if_pos hpacks]
    by_cases hrotate : w.segmentBytes < w.segmentWritten + e.data.length
    · rw [if_pos hrotate, if_pos hrotate]
      rfl
    · rw [if_neg hrotate, if_neg hrotate]
      dsimp only [writeData]
      cases hopen : w.fileOpen <;> rfl
  · rw [if_neg hpacks, if_neg hpacks]
    rfl

/-- A batch that meets no fault is the batch of `flushBatch`. -/
theorem flushBatchWith_none (w : WAL) (i : Nat) (batch : List WALEntry) :
    flushBatchWith none w i batch = w.flushBatch batch := by
  induction batch generalizing w i with
  | nil => rfl
  | cons e batch ih =>
    have hstep := writeEntryWith_none w e
    rw [flushBatchWith, flushBatch, FlushFault.at?, Option.bind_none, hstep]
    cases w.writeEntry e with
    | none => rfl
    | some w' => exact ih w' (i + 1)

/-! ## What is written -/

/-- The segment file that the entry goes to is open. -/
def CanOpen (w : WAL) (e : WALEntry) : Prop :=
  w.fileOpen = true ∨ w.segmentBytes < w.segmentWritten + e.data.length

instance (w : WAL) (e : WALEntry) : Decidable (w.CanOpen e) := inferInstanceAs (Decidable (_ ∨ _))

/-- How many bytes of an entry that is not written reach the file. -/
def reached (w : WAL) (e : WALEntry) (fault : Option EntryFault) : Nat :=
  if e.Packs ∧ w.CanOpen e then
    match fault with
    | some (.writing k) => k
    | some .opening | none => 0
  else 0

structure Written (w w' : WAL) (data : Bytes) : Prop where
  segment : ∀ id, w'.segment id = w.segment id ++ if id = w'.segmentId then data else []
  segmentId : w.segmentId ≤ w'.segmentId
  buffer : w'.buffer = w.buffer

theorem writeEntry_written (h : w.writeEntry e = some w') :
    Written w w' e.data ∧ w'.fileOpen = true ∧ e.Packs ∧ w.CanOpen e := by
  unfold writeEntry rotateIfNeeded at h
  split at h
  · rename_i hpacks
    dsimp only at h
    by_cases hrotate : w.segmentBytes < w.segmentWritten + e.data.length
    · rw [if_pos hrotate] at h
      cases h
      refine ⟨⟨fun id => ?_, Nat.le_succ _, rfl⟩, rfl, hpacks, .inr hrotate⟩
      rw [segment_add, segment_openSegment]
      rfl
    · rw [if_neg hrotate] at h
      split at h
      · rename_i hopen
        cases h
        exact ⟨⟨segment_add w e.data _, Nat.le_refl _, rfl⟩, hopen, hpacks, .inl hopen⟩
      · cases h
  · cases h

theorem reached_of_not (h : ¬ (e.Packs ∧ w.CanOpen e)) (fault : Option EntryFault) :
    w.reached e fault = 0 := if_neg h

theorem reached_writing (hpacks : e.Packs) (hopen : w.CanOpen e) (k : Nat) :
    w.reached e (some (.writing k)) = k :=
  if_pos ⟨hpacks, hopen⟩

theorem written_nothing (w : WAL) : Written w w [] :=
  ⟨fun id => by rw [ite_self, List.append_nil], Nat.le_refl _, rfl⟩

/-- An entry that is not written. -/
theorem writeEntryWith_false {fault : Option EntryFault}
    (h : w.writeEntryWith e fault = (w', false)) :
    Written w w' (e.data.take (w.reached e fault)) := by
  unfold writeEntryWith at h
  by_cases hpacks : e.Packs
  · rw [if_pos hpacks] at h
    by_cases hrotate : w.segmentBytes < w.segmentWritten + e.data.length
    · rw [if_pos hrotate] at h
      rcases fault with _ | _ | k
      · cases h
      · cases h
        have hnone : w.reached e (some .opening) = 0 := if_pos ⟨hpacks, .inr hrotate⟩
        refine ⟨fun id => ?_, Nat.le_succ _, rfl⟩
        rw [hnone, List.take_zero, ite_self, List.append_nil]
        rfl
      · cases h
        refine ⟨fun id => ?_, Nat.le_succ _, rfl⟩
        rw [reached_writing hpacks (.inr hrotate)]
        refine (segment_add (openSegment { w with segmentId := w.segmentId + 1 }) _ _ id).trans ?_
        rw [segment_openSegment]
        rfl
    · rw [if_neg hrotate] at h
      unfold writeData at h
      by_cases hopen : w.fileOpen = true
      · rw [if_pos hopen] at h
        rcases fault with _ | _ | k
        · cases h
        · cases h
        · cases h
          refine ⟨fun id => ?_, Nat.le_refl _, rfl⟩
          rw [reached_writing hpacks (.inl hopen)]
          exact segment_add w _ _ id
      · rw [if_neg hopen] at h
        cases h
        have hclosed : ¬ w.CanOpen e := not_or.mpr ⟨hopen, hrotate⟩
        rw [reached_of_not fun hr => hclosed hr.2, List.take_zero]
        exact written_nothing w
  · rw [if_neg hpacks] at h
    cases h
    rw [reached_of_not fun hr => hpacks hr.1, List.take_zero]
    exact written_nothing w

/-- An entry that is written has met no fault. -/
theorem writeEntryWith_true {fault : Option EntryFault}
    (h : w.writeEntryWith e fault = (w', true)) :
    w.writeEntry e = some w' := by
  unfold writeEntryWith at h
  unfold writeEntry rotateIfNeeded
  by_cases hpacks : e.Packs
  · rw [if_pos hpacks] at h ⊢
    dsimp only
    by_cases hrotate : w.segmentBytes < w.segmentWritten + e.data.length
    · rw [if_pos hrotate] at h ⊢
      rcases fault with _ | _ | k
      · cases h
        rfl
      · cases h
      · cases h
    · rw [if_neg hrotate] at h ⊢
      unfold writeData at h
      by_cases hopen : w.fileOpen = true
      · rw [if_pos hopen] at h ⊢
        rcases fault with _ | _ | k
        · cases h
          rfl
        · cases h
          rfl
        · cases h
      · rw [if_neg hopen] at h
        cases h
  · rw [if_neg hpacks] at h
    cases h

/-- A batch that raises has written its entries up to one. -/
theorem flushBatchWith_false {i : Nat} (h : flushBatchWith fault w i batch = (w', false)) :
    ∃ init e rest w₁, batch = init ++ e :: rest ∧ w.flushBatch init = (w₁, true) ∧
      w₁.writeEntryWith e (FlushFault.at? fault (i + init.length)) = (w', false) := by
  induction batch generalizing w i with
  | nil => cases h
  | cons e batch ih =>
    rw [flushBatchWith] at h
    rcases hstep : w.writeEntryWith e (FlushFault.at? fault i) with ⟨w₁, _ | _⟩
    · rw [hstep] at h
      cases h
      exact ⟨[], e, batch, w, rfl, rfl, hstep⟩
    · rw [hstep] at h
      obtain ⟨init, e', rest, w₂, rfl, hinit, hfail⟩ := ih h
      refine ⟨e :: init, e', rest, w₂, rfl, ?_, ?_⟩
      · rw [flushBatch, writeEntryWith_true hstep]
        exact hinit
      · rw [List.length_cons, Nat.add_comm init.length, ← Nat.add_assoc]
        exact hfail

/-! ## Where the entries are -/

/-- The entries that the segment files hold more than before. -/
structure Placed (w w' : WAL) (written : Nat → List WALEntry) (es : List WALEntry) : Prop where
  segment : ∀ id, w'.segment id = w.segment id ++ (written id).flatMap WALEntry.data
  all : ∀ n, w'.segmentId < n → ((List.range n).flatMap written).Perm es

theorem flatMap_range_single {n k : Nat} (h : k < n) (e : WALEntry) :
    (List.range n).flatMap (fun id => if id = k then [e] else []) = [e] := by
  induction n with
  | zero => omega
  | succ n ih =>
    rw [List.range_succ, List.flatMap_append, List.flatMap_singleton]
    rcases Nat.lt_or_ge k n with hlt | hge
    · rw [ih hlt, if_neg (by omega), List.append_nil]
    · have hnone : (List.range n).flatMap (fun id => if id = k then [e] else []) = [] := by
        rw [List.flatMap_eq_nil_iff]
        intro id hid
        have hlt := List.mem_range.mp hid
        rw [if_neg (by omega)]
      rw [hnone, if_pos (by omega), List.nil_append]

theorem Written.placed (h : Written w w' e.data) :
    Placed w w' (fun id => if id = w'.segmentId then [e] else []) [e] := by
  refine ⟨fun id => ?_, fun n hn => .of_eq (flatMap_range_single hn e)⟩
  rw [h.segment]
  split
  · rw [List.flatMap_singleton]
  · rfl

theorem placed_nil (w : WAL) : Placed w w (fun _ => []) [] :=
  ⟨fun _ => (List.append_nil _).symm,
    fun _ _ => .of_eq (List.flatMap_eq_nil_iff.mpr fun _ _ => rfl)⟩

theorem Placed.append {w₂ : WAL} {f g : Nat → List WALEntry} {es es' : List WALEntry}
    (h : Placed w w' f es) (h' : Placed w' w₂ g es') (hid : w'.segmentId ≤ w₂.segmentId) :
    Placed w w₂ (fun id => f id ++ g id) (es ++ es') := by
  refine ⟨fun id => ?_, fun n hn => ?_⟩
  · rw [h'.segment, h.segment, List.flatMap_append, List.append_assoc]
  · have hparts := (h.all n (by omega)).append (h'.all n hn)
    exact (List.flatMap_append_perm _ f g).symm.trans hparts

/-- A batch that is written whole. -/
theorem flushBatch_placed (h : w.flushBatch es = (w', true)) :
    (∃ written, Placed w w' written es) ∧ w.segmentId ≤ w'.segmentId ∧ w'.buffer = w.buffer ∧
    (∀ e ∈ es, e.Packs) ∧
      (∀ e ∈ es.head?, w.CanOpen e) ∧ (es ≠ [] → w'.fileOpen = true) := by
  induction es generalizing w with
  | nil =>
    cases h
    exact ⟨⟨_, placed_nil w'⟩, Nat.le_refl _, rfl, fun _ he => absurd he List.not_mem_nil,
      fun _ he => (by cases he), fun hne => absurd rfl hne⟩
  | cons e es ih =>
    rw [flushBatch] at h
    rcases hstep : w.writeEntry e with _ | w₁
    · rw [hstep] at h
      cases h
    · rw [hstep] at h
      obtain ⟨hwritten, hopen, hpacks, hcan⟩ := writeEntry_written hstep
      obtain ⟨⟨written, hplaced⟩, hid, hbuffer, hall, -, hlast⟩ := ih h
      refine ⟨⟨_, hwritten.placed.append hplaced hid⟩, hwritten.segmentId.trans hid,
        hbuffer.trans hwritten.buffer,
        List.forall_mem_cons.mpr ⟨hpacks, hall⟩, fun e' he' => ?_, fun _ => ?_⟩
      · cases he'
        exact hcan
      · cases es with
        | nil =>
          cases h
          exact hopen
        | cons e' es => exact hlast (List.cons_ne_nil _ _)

/-! ## How much is written -/

/-- The bytes of the first `n` segment files. -/
def size (n : Nat) (w : WAL) : Nat := ∑ id ∈ Finset.range n, (w.segment id).length

/-- The bytes of entries. -/
def dataLength (es : List WALEntry) : Nat := (es.flatMap WALEntry.data).length

theorem dataLength_append (es es' : List WALEntry) :
    dataLength (es ++ es') = dataLength es + dataLength es' := by
  rw [dataLength, List.flatMap_append, List.length_append]
  rfl

theorem dataLength_cons (e : WALEntry) (es : List WALEntry) :
    dataLength (e :: es) = e.data.length + dataLength es := by
  rw [dataLength, List.flatMap_cons, List.length_append]
  rfl

theorem dataLength_perm (h : es.Perm batch) : dataLength es = dataLength batch :=
  (h.flatMap_right _).length_eq

theorem length_data_pos (e : WALEntry) : 0 < e.data.length := by
  have hheader := length_header e
  rw [headerSize] at hheader
  rw [WALEntry.data, List.length_append]
  omega

theorem sum_dataLength (written : Nat → List WALEntry) (n : Nat) :
    ∑ id ∈ Finset.range n, ((written id).flatMap WALEntry.data).length =
      dataLength ((List.range n).flatMap written) := by
  induction n with
  | zero => rfl
  | succ n ih =>
    rw [Finset.sum_range_succ, ih, List.range_succ, List.flatMap_append, List.flatMap_singleton,
      dataLength_append]
    rfl

theorem size_append {added : Nat → Bytes} (h : ∀ id, w'.segment id = w.segment id ++ added id)
    (n : Nat) :
    size n w' = size n w + ∑ id ∈ Finset.range n, (added id).length := by
  rw [size, size, ← Finset.sum_add_distrib]
  refine Finset.sum_congr rfl fun id _ => ?_
  rw [h, List.length_append]

theorem Written.size_eq {data : Bytes} (h : Written w w' data) {n : Nat} (hn : w'.segmentId < n) :
    size n w' = size n w + data.length := by
  rw [size_append h.segment, Finset.sum_eq_single w'.segmentId]
  · rw [if_pos rfl]
  · intro id _ hid
    rw [if_neg hid]
    rfl
  · intro hid
    exact absurd (Finset.mem_range.mpr hn) hid

theorem Placed.size_eq {written : Nat → List WALEntry} (h : Placed w w' written es) {n : Nat}
    (hn : w'.segmentId < n) :
    size n w' = size n w + dataLength es := by
  rw [size_append h.segment, sum_dataLength, dataLength_perm (h.all n hn)]

/-! ## What is kept -/

/-- Every one of the entries is in one place: whole in what a segment file has more than before, or
in the buffer. What else was written of one is `torn`. -/
def KeepsEntries (before after : WAL) (entries : List WALEntry) : Prop :=
  ∃ (written : Nat → List WALEntry) (torn : Nat → Bytes),
    (∀ id, after.segment id = before.segment id ++
      ((written id).flatMap WALEntry.data ++ torn id)) ∧
      ((List.range (after.segmentId + 1)).flatMap written ++ after.buffer).Perm entries

/-- What raised was the write of the last entry of the batch, with all of its bytes in the file. -/
def AllReached (w : WAL) (fault : Option FlushFault) : Prop :=
  (∃ init e k, w.buffer = init ++ [e] ∧ fault = some ⟨init.length, .writing k⟩ ∧
    e.data.length ≤ k) ∧
    (∀ e ∈ w.buffer, e.Packs) ∧ ∀ e ∈ w.buffer.head?, w.CanOpen e

theorem at?_eq_some {i : Nat} {kind : EntryFault} (h : FlushFault.at? fault i = some kind) :
    fault = some ⟨i, kind⟩ := by
  rcases fault with _ | ⟨index, kind'⟩
  · cases h
  · rw [FlushFault.at?, Option.bind_some] at h
    split at h
    · rename_i hindex
      cases h
      rw [← hindex]
    · cases h

theorem at?_of_ne {i index : Nat} (kind : EntryFault) (h : index ≠ i) :
    FlushFault.at? (some ⟨index, kind⟩) i = none :=
  if_neg h

theorem reached_pos {fault : Option EntryFault} (h : 0 < w.reached e fault) :
    e.Packs ∧ w.CanOpen e ∧ fault = some (.writing (w.reached e fault)) := by
  by_cases hready : e.Packs ∧ w.CanOpen e
  · rcases fault with _ | _ | k
    · have hnone : w.reached e none = 0 := if_pos hready
      omega
    · have hnone : w.reached e (some .opening) = 0 := if_pos hready
      omega
    · rw [reached_writing hready.1 hready.2]
      exact ⟨hready.1, hready.2, rfl⟩
  · rw [reached_of_not hready] at h
    omega

/-- Without a fault an entry that packs is written, if its file is open. -/
theorem writeEntry_isSome (hpacks : e.Packs) (hcan : w.CanOpen e) :
    (w.writeEntry e).isSome = true := by
  unfold writeEntry rotateIfNeeded
  rw [if_pos hpacks]
  dsimp only
  by_cases hrotate : w.segmentBytes < w.segmentWritten + e.data.length
  · rw [if_pos hrotate]
    rfl
  · rw [if_neg hrotate, if_pos (hcan.resolve_right hrotate)]
    rfl

/-- After a flush that raises, all entries are in a segment file or the buffer, and none is there
twice, exactly if all bytes of the batch have been written. -/
theorem failed_write_keeps_iff (w : WAL) (later : List WALEntry) (fault : Option FlushFault)
    (hraised : (w.flushWith later fault).2 = false) :
    KeepsEntries w (w.flushWith later fault).1 (w.buffer ++ later) ↔ AllReached w fault := by
  rcases hflush : w.flushWith later fault with ⟨w', ok⟩
  rw [hflush] at hraised
  cases hraised
  obtain ⟨init, e, rest, w₁, hbuffer, hinit, hfail⟩ := flushBatchWith_false hflush
  obtain ⟨⟨written, hplaced⟩, hid, hlater, hpacks, hcan, hopen⟩ := flushBatch_placed hinit
  rw [Nat.zero_add] at hfail
  have hw := writeEntryWith_false hfail
  constructor
  · rintro ⟨found, torn, hsegment, hperm⟩
    rw [hw.buffer, hlater, List.perm_append_right_iff] at hperm
    -- the files have grown by no more than has been written
    have hleast : size (w'.segmentId + 1) w + dataLength w.buffer ≤ size (w'.segmentId + 1) w' := by
      rw [size_append hsegment, ← dataLength_perm hperm, ← sum_dataLength]
      refine Nat.add_le_add_left (Finset.sum_le_sum fun id _ => ?_) _
      rw [List.length_append]
      exact Nat.le_add_right _ _
    have hgrown : size (w'.segmentId + 1) w' = size (w'.segmentId + 1) w + dataLength init +
        (e.data.take (w₁.reached e (FlushFault.at? fault init.length))).length := by
      rw [hw.size_eq (Nat.lt_succ_self _), hplaced.size_eq (Nat.lt_succ_of_le hw.segmentId)]
      rfl
    have hparts : dataLength w.buffer = dataLength init + (e.data.length + dataLength rest) := by
      rw [hbuffer, dataLength_append, dataLength_cons]
    have hpos := length_data_pos e
    rw [List.length_take] at hgrown
    have hrest : rest = [] := by
      rcases rest with _ | ⟨e', rest⟩
      · rfl
      · have hpos' := length_data_pos e'
        rw [dataLength_cons e'] at hparts
        omega
    subst hrest
    have hreached : e.data.length ≤ w₁.reached e (FlushFault.at? fault init.length) := by omega
    obtain ⟨hpack, hready, hkind⟩ := reached_pos (Nat.lt_of_lt_of_le hpos hreached)
    refine ⟨⟨init, e, _, hbuffer, at?_eq_some hkind, hreached⟩, ?_, ?_⟩
    · rw [hbuffer, List.forall_mem_append, List.forall_mem_singleton]
      exact ⟨hpacks, hpack⟩
    · rw [hbuffer]
      intro e' he'
      rcases init with _ | ⟨e₀, init⟩
      · cases he'
        cases hinit
        exact hready
      · exact hcan e' he'
  · rintro ⟨⟨init', e', k, hlast, rfl, hk⟩, hall, hhead⟩
    have hready : w₁.CanOpen e := by
      rcases init with _ | ⟨e₀, init⟩
      · cases hinit
        exact hhead e (by rw [hbuffer]; rfl)
      · exact .inl (hopen (List.cons_ne_nil _ _))
    have hpack : e.Packs :=
      hall e (by rw [hbuffer]; exact List.mem_append_right _ List.mem_cons_self)
    -- what raises is the fault
    have hlength : init'.length = init.length := by
      by_contra hne
      rw [at?_of_ne _ hne, writeEntryWith_none] at hfail
      have hnone : (w₁.writeEntry e).isSome = false := congrArg Prod.snd hfail
      rw [writeEntry_isSome hpack hready] at hnone
      cases hnone
    obtain ⟨rfl, hsame⟩ := List.append_inj (hlast.symm.trans hbuffer) hlength
    cases hsame
    have hkind : FlushFault.at? (some ⟨init'.length, .writing k⟩) init'.length =
        some (.writing k) := if_pos rfl
    rw [hkind, reached_writing hpack hready, List.take_of_length_le hk] at hw
    obtain ⟨found, hplaced'⟩ : ∃ found, Placed { w with buffer := later } w' found (init' ++ [e]) :=
      ⟨_, hplaced.append hw.placed hw.segmentId⟩
    refine ⟨found, fun _ => [], fun id => ?_, ?_⟩
    · rw [List.append_nil]
      exact hplaced'.segment id
    · rw [hw.buffer, hlater, hlast]
      exact (hplaced'.all _ (Nat.lt_succ_self _)).append_right later

private def pendingTwo : WAL :=
  ((init 100 ∅).append ⟨[1], Nat.succPNat 0⟩).append ⟨[2], Nat.succPNat 1⟩

/-- Two entries, a third one appended meanwhile; the second write raises behind its last byte. -/
theorem last_write_raises_late : KeepsEntries pendingTwo
    (pendingTwo.flushWith [⟨[3], Nat.succPNat 2⟩] (some ⟨1, .writing 17⟩)).1
    (pendingTwo.buffer ++ [⟨[3], Nat.succPNat 2⟩]) := by
  refine (failed_write_keeps_iff pendingTwo [⟨[3], Nat.succPNat 2⟩] (some ⟨1, .writing 17⟩)
    (by decide +kernel)).mpr
    ⟨⟨[⟨[1], Nat.succPNat 0⟩], ⟨[2], Nat.succPNat 1⟩, 17, rfl, rfl, by decide⟩, by decide, ?_⟩
  intro e he
  cases he
  exact .inl rfl

/-- The first write raises before its first byte: both entries are gone. -/
theorem first_write_raises :
    ¬ KeepsEntries pendingTwo (pendingTwo.flushWith [] (some ⟨0, .writing 0⟩)).1
    (pendingTwo.buffer ++ []) := by
  rintro ⟨written, torn, hsegment, hperm⟩
  have hempty : [] = [] ++ ((written 0).flatMap WALEntry.data ++ torn 0) := hsegment 0
  rw [List.nil_append, eq_comm, List.append_eq_nil_iff, List.flatMap_eq_nil_iff] at hempty
  have hnone : written 0 = [] := by
    rcases h : written 0 with _ | ⟨e, es⟩
    · rfl
    · have hdata := hempty.1 e (h ▸ List.mem_cons_self)
      exact absurd (length_data_pos e) (by rw [hdata]; decide)
  have hlength : ((written 0 ++ []) ++ []).length = 2 := hperm.length_eq
  rw [hnone] at hlength
  cases hlength

end Vsector.Storage.WAL
