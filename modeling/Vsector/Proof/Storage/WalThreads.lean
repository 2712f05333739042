import Vsector.Framework.Run
import Vsector.Impl.Storage.WalThreads
import Vsector.Proof.Storage.WalTornTail

/-!
# When a returned flush is durable

Batches leave the buffer in the order of appending, but several actors write
them, and none waits for another. Where no critical section of a call, and
none that takes a batch, runs while a batch is in flight (`InTurn`), at most
one ever is: the segment files hold what was appended in order, and at the
return of a call everything appended before it (`flush_durable`). The code
itself sees to neither: `flush` finds the buffer empty and returns while the
group-commit thread has yet to write (`flush_returns_early`), and a later
batch overtakes an earlier one (`batches_overtake`).
-/

namespace Vsector.Storage.WalThreads

open Framework

/-! ## The condition -/

/-- Writing the batch does not raise: its entries pack, and the segment file is open, at the latest
once the first of them has rotated it. -/
def Writable (w : WAL) (batch : List WALEntry) : Prop :=
  (∀ e ∈ batch, e.Packs) ∧
    (w.fileOpen = true ∨ ∀ e ∈ batch.head?, w.segmentBytes < w.segmentWritten + e.data.length)

/-- What a call that is about to return began with. -/
def returning (s : State) (id : Nat) : Option Nat :=
  match s.calls.get? id with
  | some (.returning began) => some began
  | _ => none

/-- No batch is in flight. -/
def Quiet (s : State) : Prop := ∀ b ∈ s.batches, b.status ≠ .inFlight

/-- Before a step: a call enters its critical section, and the group-commit thread takes a batch,
while none is in flight; and the writes do not raise. -/
def InTurn (s : State) : Label → Prop
  | .take .flusher => s.wal.buffer = [] ∨ Quiet s
  | .take (.caller _) => Quiet s
  | .write a => ∀ i ∈ held s a, ∀ b ∈ s.batches[i]?, Writable s.wal b.entries
  | .append _ | .call _ _ | .setClosed _ | .check | .closeFile _ | .ret _ => True

instance (s : State) : Decidable (Quiet s) := inferInstanceAs (Decidable (∀ _ ∈ _, _))

instance (w : WAL) (batch : List WALEntry) : Decidable (Writable w batch) :=
  inferInstanceAs (Decidable (_ ∧ _))

instance (s : State) : ∀ l, Decidable (InTurn s l)
  | .take .flusher | .take (.caller _) | .write _ => by unfold InTurn; infer_instance
  | .append _ | .call _ _ | .setClosed _ | .check | .closeFile _ | .ret _ => .isTrue trivial

/-! ## Batches -/

/-- The entries of the batches that are written. -/
def writtenEntries (batches : List Batch) : List WALEntry :=
  batches.flatMap fun b => if b.status = .written then b.entries else []

/-- Writing a batch changes no entries. -/
theorem flatMap_entries_modify (batches : List Batch) (i : Nat) :
    (batches.modify i fun b => { b with status := .written }).flatMap Batch.entries =
      batches.flatMap Batch.entries := by
  rw [List.flatMap_def, List.flatMap_def]
  congr 1
  refine List.ext_getElem? fun j => ?_
  simp only [List.getElem?_map, List.getElem?_modify]
  cases batches[j]? with
  | none => rfl
  | some b => simp only [Option.map_eq_map, Option.map_some]; split <;> rfl

theorem writtenEntries_of_written {batches : List Batch} (h : ∀ b ∈ batches, b.status = .written) :
    writtenEntries batches = batches.flatMap Batch.entries :=
  List.flatMap_congr fun b hb => if_pos (h b hb)

theorem writtenEntries_append (batches batches' : List Batch) :
    writtenEntries (batches ++ batches') = writtenEntries batches ++ writtenEntries batches' :=
  List.flatMap_append

/-- Every batch is written, but for the last one, which may be in flight. -/
def AllButLast (batches : List Batch) : Prop :=
  ∀ i b, batches[i]? = some b →
    b.status = .written ∨ b.status = .inFlight ∧ i + 1 = batches.length

/-- The batch in flight, and those before it. -/
theorem AllButLast.split {batches : List Batch} (h : AllButLast batches) {i : Nat} {b : Batch}
    (hb : batches[i]? = some b) (hs : b.status = .inFlight) :
    ∃ front, batches = front ++ [b] ∧ front.length = i ∧ ∀ b ∈ front, b.status = .written := by
  obtain ⟨front, back, rfl, hbatches, -⟩ := exists_split hb
  have hlast : front.length + 1 = batches.length := by
    rcases h _ b hb with hw | ⟨-, hl⟩
    · rw [hs] at hw
      cases hw
    · exact hl
  have hback : back = [] := by
    have hl := congrArg List.length hbatches
    simp only [List.length_append, List.length_cons] at hl
    exact List.length_eq_zero_iff.mp (by omega)
  subst hback
  refine ⟨front, hbatches, rfl, fun b' hb' => ?_⟩
  obtain ⟨j, hj, rfl⟩ := List.getElem_of_mem hb'
  have hget : batches[j]? = some front[j] := by simp [hbatches, List.getElem?_append_left hj, hj]
  rcases h j _ hget with hw | ⟨-, hl⟩
  · exact hw
  · omega

theorem AllButLast.of_quiet {batches : List Batch} (h : AllButLast batches)
    (hq : ∀ b ∈ batches, b.status ≠ .inFlight) : ∀ b ∈ batches, b.status = .written :=
  fun b hb => by
  obtain ⟨i, hi, rfl⟩ := List.getElem_of_mem hb
  rcases h i _ (List.getElem?_eq_getElem hi) with hw | ⟨hs, -⟩
  · exact hw
  · exact absurd hs (hq _ hb)

theorem AllButLast.prefix {batches : List Batch} (h : AllButLast batches) :
    writtenEntries batches <+: batches.flatMap Batch.entries := by
  by_cases hq : ∀ b ∈ batches, b.status ≠ .inFlight
  · rw [writtenEntries_of_written (h.of_quiet hq)]
  · obtain ⟨b, hb, hs⟩ : ∃ b ∈ batches, b.status = .inFlight := by simpa using hq
    obtain ⟨i, hi⟩ := List.getElem?_of_mem hb
    obtain ⟨front, hbatches, -, hfront⟩ := h.split hi hs
    rw [hbatches, writtenEntries_append, writtenEntries_of_written hfront, List.flatMap_append]
    exact (List.prefix_append_right_inj _).mpr (by simp [writtenEntries, hs])

/-- Once the batch in flight is written, all are. -/
theorem AllButLast.written {batches : List Batch} (h : AllButLast batches) {i : Nat} {b : Batch}
    (hb : batches[i]? = some b) (hs : b.status = .inFlight) :
    (∀ b ∈ batches.modify i fun b => { b with status := .written }, b.status = .written) ∧
      batches.flatMap Batch.entries = writtenEntries batches ++ b.entries := by
  obtain ⟨front, rfl, rfl, hfront⟩ := h.split hb hs
  constructor
  · intro b' hb'
    obtain ⟨j, hj, rfl⟩ := List.getElem_of_mem hb'
    rw [List.getElem_modify]
    split
    · rfl
    · rename_i hne
      have hj' : j < front.length := by
        simp only [List.length_modify, List.length_append, List.length_singleton] at hj
        omega
      rw [List.getElem_append_left hj']
      exact hfront _ (List.getElem_mem hj')
  · have hlast : writtenEntries [b] = [] := by simp [writtenEntries, hs]
    rw [writtenEntries_append, writtenEntries_of_written hfront, hlast, List.append_nil,
      List.flatMap_append, List.flatMap_singleton]

/-! ## The log -/

/-- What has been appended is in the batches and in the buffer, and the segment files hold the
batches that are written. -/
structure Logged (s : State) : Prop where
  appended : s.appended = s.batches.flatMap Batch.entries ++ s.wal.buffer
  turn : AllButLast s.batches
  files : ∃ segs, WAL.Ready { s.wal with fileOpen := true } segs ∧
    (WAL.Untorn segs ∧ segs.length = s.wal.segmentId + 1) ∧
    entriesOf segs = writtenEntries s.batches

theorem Logged.fileEntries_eq {s : State} (h : Logged s) :
    fileEntries s = writtenEntries s.batches := by
  obtain ⟨segs, hr, ⟨-, hl⟩, he⟩ := h.files
  rw [← he, fileEntries, ← hl]
  exact hr.holds.flatMap_parse 1

/-- Rotating opens a file, whether or not one was open. -/
theorem flushBatch_of_rotates {w w' : WAL} {e : WALEntry} {batch : List WALEntry}
    (h : w.segmentBytes < w.segmentWritten + e.data.length)
    (hf : WAL.flushBatch { w with fileOpen := true } (e :: batch) = (w', true)) :
    w.flushBatch (e :: batch) = (w', true) := by
  have hw : w.writeEntry e = WAL.writeEntry { w with fileOpen := true } e := by
    simp only [WAL.writeEntry, WAL.rotateIfNeeded, if_pos h]
    rfl
  simp only [WAL.flushBatch, hw] at hf ⊢
  split at hf
  · exact hf
  · cases hf

theorem flushBatch_writable {w : WAL} {segs : List Segment} {batch : List WALEntry}
    (hr : WAL.Ready { w with fileOpen := true } segs)
    (hn : WAL.Untorn segs ∧ segs.length = w.segmentId + 1) (hw : Writable w batch) :
    ∃ w' segs', w.flushBatch batch = (w', true) ∧ w'.buffer = w.buffer ∧
      WAL.Ready { w' with fileOpen := true } segs' ∧
      (WAL.Untorn segs' ∧ segs'.length = w'.segmentId + 1) ∧
      entriesOf segs' = entriesOf segs ++ batch := by
  cases batch with
  | nil => exact ⟨w, segs, rfl, rfl, hr, hn, (List.append_nil _).symm⟩
  | cons e batch =>
    obtain ⟨w', segs', hf, hr', hn', hb, -, -, he⟩ :=
      WAL.flushBatch_ok WAL.first_rule hr hn (WAL.along_packs hw.1)
    refine ⟨w', segs', ?_, hb, ⟨hr'.holds, hr'.current, rfl⟩, hn', he⟩
    rcases hw.2 with ho | ho
    · cases w; cases ho; exact hf
    · exact flushBatch_of_rotates (ho e rfl) hf

/-- A write puts the batch at the end of the files. -/
theorem Logged.writeBatch {s : State} (h : Logged s) {i : Nat} {b : Batch}
    (hb : s.batches[i]? = some b) (hs : b.status = .inFlight) (hw : Writable s.wal b.entries) :
    ∃ w', WalThreads.writeBatch s i = ({ s with
      wal := w', batches := s.batches.modify i fun b => { b with status := .written } }, true) ∧
      Logged { s with
        wal := w', batches := s.batches.modify i fun b => { b with status := .written } } := by
  obtain ⟨segs, hr, hn, he⟩ := h.files
  obtain ⟨w', segs', hf, hbuf, hr', hn', he'⟩ := flushBatch_writable hr hn hw
  have hents := flatMap_entries_modify s.batches i
  obtain ⟨hall, hwritten⟩ := h.turn.written hb hs
  refine ⟨w', ?_, ?_, fun j b' hb' => .inl (hall b' (List.mem_of_getElem? hb')),
    segs', hr', hn', ?_⟩
  · simp only [WalThreads.writeBatch, hb, Option.map_some, Option.getD_some, hf, if_true]
  · simp only [hents, hbuf]; exact h.appended
  · rw [he', he, writtenEntries_of_written hall, hents, hwritten]

/-! ## The calls -/

/-- What a call began with has been appended, once its critical section is over, taken, and once it
has no batch to write, written. -/
def PcOk (s : State) : Pc → Prop
  | .closing began | .locking _ began => began ≤ s.appended.length
  | .writing _ began _ => began ≤ (s.batches.flatMap Batch.entries).length
  | .closingFile began | .returning began => began ≤ (writtenEntries s.batches).length

structure Calls (s : State) : Prop where
  pc : ∀ id pc, s.calls.get? id = some pc → PcOk s pc
  held : ∀ a i, held s a = some i → ∃ b, s.batches[i]? = some b ∧ b.status = .inFlight
  /-- No two actors hold the same batch. -/
  inj : ∀ a a' i, WalThreads.held s a = some i → WalThreads.held s a' = some i → a = a'

/-- A step that takes no batch and writes none. -/
theorem Calls.keep {s s' : State} (h : Calls s) (hb : s'.batches = s.batches)
    (ha : s.appended.length ≤ s'.appended.length)
    (hheld : ∀ a i, WalThreads.held s' a = some i → WalThreads.held s a = some i)
    (hpc : ∀ id pc, s'.calls.get? id = some pc → s.calls.get? id = some pc ∨ PcOk s' pc) :
    Calls s' where
  pc id pc hid := by
    rcases hpc id pc hid with h' | h'
    · have := h.pc id pc h'
      cases pc <;> simp only [PcOk, hb] at this ⊢ <;> omega
    · exact h'
  held a i ha := by rw [hb]; exact h.held a i (hheld a i ha)
  inj a a' i h₁ h₂ := h.inj a a' i (hheld a i h₁) (hheld a' i h₂)

/-- An actor's step that takes the buffer as a new batch. -/
theorem Calls.take {s s' : State} (h : Calls s) {a : Actor} {b : Batch} (hs : b.status = .inFlight)
    (hb : s'.batches = s.batches ++ [b]) (ha : s'.appended = s.appended)
    (hheld : ∀ a' i, WalThreads.held s' a' = some i → a' = a ∧ i = s.batches.length ∨
      WalThreads.held s a' = some i)
    (hpc : ∀ id pc, s'.calls.get? id = some pc → s.calls.get? id = some pc ∨ PcOk s' pc) :
    Calls s' := by
  have hlt : ∀ {a i}, WalThreads.held s a = some i → i < s.batches.length := fun h' => by
    obtain ⟨b, hb, -⟩ := h.held _ _ h'
    exact (List.getElem?_eq_some_iff.mp hb).1
  refine ⟨fun id pc hid => ?_, fun a' i h' => ?_, fun a₁ a₂ i h₁ h₂ => ?_⟩
  · rcases hpc id pc hid with h' | h'
    · have := h.pc id pc h'
      cases pc <;> simp only [PcOk, hb, ha, List.flatMap_append, writtenEntries_append,
        List.length_append] at this ⊢ <;> omega
    · exact h'
  · rw [hb]
    rcases hheld a' i h' with ⟨-, rfl⟩ | h'
    · exact ⟨b, by simp, hs⟩
    · obtain ⟨b', hb', hs'⟩ := h.held a' i h'
      exact ⟨b', by rw [List.getElem?_append_left (hlt h')]; exact hb', hs'⟩
  · rcases hheld a₁ i h₁ with ⟨rfl, rfl⟩ | h₁ <;> rcases hheld a₂ _ h₂ with ⟨rfl, e⟩ | h₂
    · rfl
    · exact absurd (hlt h₂) (Nat.lt_irrefl _)
    · rw [e] at h₁; exact absurd (hlt h₁) (Nat.lt_irrefl _)
    · exact h.inj a₁ a₂ i h₁ h₂

/-- An actor's step that writes its batch. -/
theorem Calls.write {s s' : State} (h : Calls s) {a : Actor} {i : Nat}
    (hi : WalThreads.held s a = some i)
    (hb : s'.batches = s.batches.modify i fun b => { b with status := .written })
    (hall : writtenEntries s'.batches = s.batches.flatMap Batch.entries)
    (hl : (writtenEntries s.batches).length ≤ (s.batches.flatMap Batch.entries).length)
    (ha : s'.appended = s.appended)
    (hheld : ∀ a' j, WalThreads.held s' a' = some j → a' ≠ a ∧ WalThreads.held s a' = some j)
    (hpc : ∀ id pc, s'.calls.get? id = some pc → s.calls.get? id = some pc ∨ PcOk s' pc) :
    Calls s' := by
  refine ⟨fun id pc hid => ?_, fun a' j h' => ?_, fun a₁ a₂ j h₁ h₂ => ?_⟩
  · rcases hpc id pc hid with h' | h'
    · have := h.pc id pc h'
      have hents : s'.batches.flatMap Batch.entries = s.batches.flatMap Batch.entries := by
        rw [hb, flatMap_entries_modify]
      cases pc <;> simp only [PcOk, hents, hall, ha] at this ⊢ <;> omega
    · exact h'
  · obtain ⟨hne, h'⟩ := hheld a' j h'
    obtain ⟨b, hb', hs⟩ := h.held a' j h'
    have hij : i ≠ j := by
      rintro rfl
      exact hne (h.inj a' a i h' hi)
    refine ⟨b, ?_, hs⟩
    rw [hb, List.getElem?_modify, hb', Option.map_eq_map, Option.map_some, if_neg hij]
  · exact h.inj a₁ a₂ j (hheld a₁ j h₁).2 (hheld a₂ j h₂).2

/-! ## Who holds what after a step -/

section

variable {s s' : State}

theorem held_set {a : Actor} {i : Nat} (h : held s' a = some i) {id : Nat} {pc : Pc}
    (hc : s'.calls = s.calls.set id pc) (hf : s'.flusher = s.flusher) :
    a = .caller id ∧ pc.batch = some i ∨ a ≠ .caller id ∧ held s a = some i := by
  cases a with
  | flusher => exact .inr ⟨fun h => Actor.noConfusion h, by rw [held, ← hf]; exact h⟩
  | caller j =>
    rw [held, hc, Dict.get?_set] at h
    split at h
    · rename_i hj; exact .inl ⟨by rw [hj], h⟩
    · rename_i hj; exact .inr ⟨fun h => hj (Actor.caller.inj h), h⟩

theorem held_flusher {a : Actor} {i : Nat} (h : held s' a = some i) (hc : s'.calls = s.calls) :
    a = .flusher ∧ s'.flusher.batch = some i ∨ a ≠ .flusher ∧ held s a = some i := by
  cases a with
  | flusher => exact .inl ⟨rfl, h⟩
  | caller j => exact .inr ⟨fun h => Actor.noConfusion h, by rw [held, ← hc]; exact h⟩

theorem pc_set {id : Nat} (pc : Pc) (hc : s'.calls = s.calls.set id pc) {P : Pc → Prop}
    (hp : P pc) :
    ∀ id' pc', s'.calls.get? id' = some pc' → s.calls.get? id' = some pc' ∨ P pc' := by
  intro id' pc' h
  rw [hc, Dict.get?_set] at h
  split at h
  · cases h; exact .inr hp
  · exact .inl h

/-- A call moves on without taking or writing a batch. -/
theorem Calls.setCall (h : Calls s) (s' : State) {id : Nat} {pc : Pc}
    (hc : s'.calls = s.calls.set id pc) (hf : s'.flusher = s.flusher) (hb : s'.batches = s.batches)
    (ha : s'.appended = s.appended) (hn : pc.batch = none) (hp : PcOk s' pc) : Calls s' := by
  refine h.keep hb (by rw [ha]) (fun a i h' => ?_) (pc_set _ hc hp)
  rcases held_set h' hc hf with ⟨-, h'⟩ | ⟨-, h'⟩
  · rw [hn] at h'; cases h'
  · exact h'

/-- The group-commit thread moves on without taking or writing a batch. -/
theorem Calls.setFlusher (h : Calls s) (s' : State) (hc : s'.calls = s.calls)
    (hb : s'.batches = s.batches) (ha : s'.appended = s.appended) (hn : s'.flusher.batch = none) :
    Calls s' := by
  refine h.keep hb (by rw [ha]) (fun a i h' => ?_) (fun _ _ h => .inl (by rw [← hc]; exact h))
  rcases held_flusher h' hc with ⟨-, h'⟩ | ⟨-, h'⟩
  · rw [hn] at h'; cases h'
  · exact h'

theorem Calls.popCall (h : Calls s) (s' : State) {id : Nat} (hc : s'.calls = s.calls.pop id)
    (hf : s'.flusher = s.flusher) (hb : s'.batches = s.batches) (ha : s'.appended = s.appended) :
    Calls s' := by
  refine h.keep hb (by rw [ha]) (fun a i h' => ?_) (fun id' pc' h' => ?_)
  · cases a with
    | flusher => rw [WalThreads.held, ← hf]; exact h'
    | caller j =>
      rw [WalThreads.held, hc, Dict.get?_pop] at h'
      split at h'
      · cases h'
      · exact h'
  · rw [hc, Dict.get?_pop] at h'
    split at h'
    · cases h'
    · exact .inl h'

end

/-! ## Steps -/

structure Inv (s : State) : Prop where
  logged : Logged s
  calls : Calls s

theorem inv_init (segmentBytes : Int) : Inv (init segmentBytes) := by
  have hr : WAL.Ready { (init segmentBytes).wal with fileOpen := true } (openAt 0 []) :=
    WAL.ready_empty segmentBytes
  refine ⟨⟨rfl, fun i b hb => ?_, _, hr, ⟨by simp [WAL.Untorn, openAt], rfl⟩, rfl⟩, ?_⟩
  · cases hb
  · refine ⟨fun _ _ h => ?_, fun a _ h => ?_, fun a _ _ h => ?_⟩
    · cases h
    · cases a <;> cases h
    · cases a <;> cases h

/-- Taking the buffer while no batch is in flight keeps the log. -/
theorem Logged.takeBatch {s : State} (h : Logged s) (hq : Quiet s) :
    Logged (WalThreads.takeBatch s) := by
  obtain ⟨segs, hr, hn, he⟩ := h.files
  refine ⟨?_, fun i b hb => ?_, segs, ⟨hr.holds, hr.current, rfl⟩, hn, ?_⟩
  · simp [WalThreads.takeBatch, h.appended]
  · simp only [WalThreads.takeBatch] at hb ⊢
    rw [List.getElem?_append] at hb
    split at hb
    · exact .inl (h.turn.of_quiet hq b (List.mem_of_getElem? hb))
    · rename_i hi
      have hlt := (List.getElem?_eq_some_iff.mp hb).1
      rw [List.length_singleton] at hlt
      rw [List.mem_singleton.mp (List.mem_of_getElem? hb), List.length_append,
        List.length_singleton]
      exact .inr ⟨rfl, by omega⟩
  · rw [he]
    simp [WalThreads.takeBatch, writtenEntries]

/-- The parts of the state the log consists of. -/
theorem Logged.congr {s : State} (h : Logged s) (s' : State) (ha : s'.appended = s.appended)
    (hb : s'.batches = s.batches) (hbuf : s'.wal.buffer = s.wal.buffer)
    (hd : s'.wal.dir = s.wal.dir) (hid : s'.wal.segmentId = s.wal.segmentId) : Logged s' := by
  obtain ⟨segs, hr, hn, he⟩ := h.files
  refine ⟨by rw [ha, hb, hbuf]; exact h.appended, by rw [hb]; exact h.turn, segs, ⟨?_,
    ?_, rfl⟩, ?_, ?_⟩
  · show Holds s'.wal.dir segs
    rw [hd]; exact hr.holds
  · show s'.wal.segmentId < segs.length
    rw [hid]; exact hr.current
  · rw [hid]; exact hn
  · rw [hb]; exact he

theorem Logged.taken {s : State} (h : Logged s) (hb : s.wal.buffer = []) :
    s.appended.length = (s.batches.flatMap Batch.entries).length := by
  rw [h.appended, hb, List.append_nil]

theorem inv_take {s t : State} {a : Actor} (h : Inv s) (hc : InTurn s (.take a))
    (hs : step s (.take a) = some t) : Inv t := by
  cases a with
  | flusher =>
    simp only [step] at hs
    split at hs
    · split at hs
      · cases hs
        exact ⟨h.logged.congr _ rfl rfl rfl rfl rfl, h.calls.setFlusher _ rfl rfl rfl rfl⟩
      · rename_i hb
        cases hs
        have hq : Quiet s := hc.resolve_left hb
        refine ⟨(h.logged.takeBatch hq).congr _ rfl rfl rfl rfl rfl,
          h.calls.take (a := .flusher) (b := ⟨s.wal.buffer, .inFlight⟩) rfl rfl rfl
            (fun a i h' => ?_) fun _ _ h => .inl h⟩
        rcases held_flusher (s := s) h' rfl with ⟨ha, h'⟩ | ⟨-, h'⟩
        · cases h'; exact .inl ⟨ha, rfl⟩
        · exact .inr h'
    · cases hs
  | caller id =>
    simp only [step] at hs
    split at hs
    · rename_i call began hpc
      have hn : began ≤ s.appended.length := h.calls.pc id _ hpc
      split at hs
      · rename_i hb
        cases hs
        -- The buffer is empty and no batch is in flight, so all that was appended is written.
        rw [h.logged.taken hb, ← writtenEntries_of_written (h.logged.turn.of_quiet hc)] at hn
        refine ⟨h.logged.congr _ rfl rfl rfl rfl rfl, h.calls.setCall _ rfl rfl rfl rfl ?_ ?_⟩
        · cases call <;> rfl
        · cases call <;> exact hn
      · cases hs
        refine ⟨(h.logged.takeBatch hc).congr _ rfl rfl rfl rfl rfl,
          h.calls.take (a := .caller id) (b := ⟨s.wal.buffer, .inFlight⟩) rfl rfl rfl
            (fun a i h' => ?_) ?_⟩
        · rcases held_set (s := s) h' rfl rfl with ⟨ha, h'⟩ | ⟨-, h'⟩
          · cases h'; exact .inl ⟨ha, rfl⟩
          · exact .inr h'
        · have ht : s.appended.length = ((takeBatch s).batches.flatMap Batch.entries).length :=
            (h.logged.takeBatch hc).taken rfl
          rw [ht] at hn
          exact pc_set (.writing call began s.batches.length) rfl hn
    · cases hs

theorem inv_write {s t : State} {a : Actor} (h : Inv s) (hc : InTurn s (.write a))
    (hs : step s (.write a) = some t) : Inv t := by
  cases a with
  | flusher =>
    simp only [step] at hs
    split at hs
    · rename_i i hpc
      have hi : held s .flusher = some i := by rw [held, hpc]; rfl
      obtain ⟨b, hb, hst⟩ := h.calls.held _ _ hi
      obtain ⟨w', hw, hl⟩ := h.logged.writeBatch hb hst (hc i hi b hb)
      rw [hw] at hs
      cases hs
      have hall := writtenEntries_of_written (h.logged.turn.written hb hst).1
      rw [flatMap_entries_modify] at hall
      refine ⟨hl.congr _ rfl rfl rfl rfl rfl, h.calls.write hi rfl hall
        h.logged.turn.prefix.length_le rfl (fun a j h' => ?_) fun _ _ h => .inl h⟩
      rcases held_flusher (s := s) h' rfl with ⟨-, h'⟩ | h'
      · cases h'
      · exact h'
    · cases hs
  | caller id =>
    simp only [step] at hs
    split at hs
    · rename_i call began i hpc
      have hi : held s (.caller id) = some i := by rw [held, hpc]; rfl
      have hn : began ≤ (s.batches.flatMap Batch.entries).length := h.calls.pc id _ hpc
      obtain ⟨b, hb, hst⟩ := h.calls.held _ _ hi
      obtain ⟨w', hw, hl⟩ := h.logged.writeBatch hb hst (hc i hi b hb)
      rw [hw] at hs
      cases hs
      have hall := writtenEntries_of_written (h.logged.turn.written hb hst).1
      rw [flatMap_entries_modify] at hall
      refine ⟨hl.congr _ rfl rfl rfl rfl rfl, h.calls.write hi rfl hall
        h.logged.turn.prefix.length_le rfl (fun a j h' => ?_) ?_⟩
      · rcases held_set (s := s) h' rfl rfl with ⟨-, h'⟩ | h'
        · cases call <;> cases h'
        · exact h'
      · rw [← hall] at hn
        exact pc_set _ rfl (by cases call <;> exact hn)
    · cases hs

/-- Every step in turn keeps the log and the calls. -/
theorem inv_step {s t : State} {l : Label} (h : Inv s) (hc : InTurn s l) (hs : step s l = some t) :
    Inv t := by
  cases l with
  | append e =>
    cases hs
    obtain ⟨segs, hr, hn, he⟩ := h.logged.files
    refine ⟨⟨?_, h.logged.turn, segs, ⟨hr.holds, hr.current, rfl⟩, hn, he⟩, ?_⟩
    · show s.appended ++ [e] = _ ++ (s.wal.buffer ++ [e])
      rw [h.logged.appended, List.append_assoc]
    · exact h.calls.keep rfl (by simp) (fun a _ h => by cases a <;> exact h) fun _ _ h => .inl h
  | call id call =>
    simp only [step] at hs
    split at hs
    · cases hs
      refine ⟨h.logged.congr _ rfl rfl rfl rfl rfl, h.calls.setCall _ rfl rfl rfl rfl ?_ ?_⟩
      · cases call <;> rfl
      · cases call <;> exact Nat.le_refl _
    · cases hs
  | setClosed id =>
    simp only [step] at hs
    split at hs
    · rename_i began hpc
      cases hs
      exact ⟨h.logged.congr _ rfl rfl rfl rfl rfl,
        h.calls.setCall _ rfl rfl rfl rfl rfl (h.calls.pc id _ hpc)⟩
    · cases hs
  | check =>
    simp only [step] at hs
    split at hs
    · cases hs
      refine ⟨h.logged.congr _ rfl rfl rfl rfl rfl, h.calls.setFlusher _ rfl rfl rfl ?_⟩
      dsimp only
      split <;> rfl
    · cases hs
  | take a => exact inv_take h hc hs
  | write a => exact inv_write h hc hs
  | closeFile id =>
    simp only [step] at hs
    split at hs
    · rename_i began hpc
      cases hs
      exact ⟨h.logged.congr _ rfl rfl rfl rfl rfl,
        h.calls.setCall _ rfl rfl rfl rfl rfl (h.calls.pc id _ hpc)⟩
    · cases hs
  | ret id =>
    simp only [step] at hs
    split at hs
    · cases hs
      exact ⟨h.logged.congr _ rfl rfl rfl rfl rfl, h.calls.popCall _ rfl rfl rfl rfl⟩
    · cases hs

/-- In every run in turn the segment files hold what was appended, in order and from the first
entry on, and where a call returns, at least all that was appended before it. -/
theorem flush_durable (segmentBytes : Int) (ls : List Label) (s : State)
    (hr : run step (init segmentBytes) ls = some s)
    (hc : Along step InTurn (init segmentBytes) ls) :
    fileEntries s <+: s.appended ∧
      ∀ id began, returning s id = some began → s.appended.take began <+: fileEntries s := by
  have h : Inv s := invariant (fun _ _ _ => inv_step) (inv_init segmentBytes) hc hr
  have hfiles : fileEntries s <+: s.appended := by
    rw [h.logged.fileEntries_eq, h.logged.appended]
    exact h.logged.turn.prefix.trans (List.prefix_append _ _)
  refine ⟨hfiles, fun id began hret => ?_⟩
  have hn : began ≤ (fileEntries s).length := by
    rw [h.logged.fileEntries_eq]
    simp only [returning] at hret
    split at hret
    · rename_i hpc; cases hret; exact h.calls.pc id _ hpc
    · cases hret
  exact List.prefix_of_prefix_length_le (List.take_prefix _ _) hfiles (by
    rw [List.length_take]
    omega)

section

private def early : WALEntry := ⟨[1], Nat.succPNat 0⟩
private def late : WALEntry := ⟨[2], Nat.succPNat 1⟩

/-- The group-commit thread writes before the call enters its critical section. -/
theorem flush_durable_after_commit : ∃ s, run step (init 100)
    [.append early, .check, .take .flusher, .call 0 .flush, .write .flusher,
      .take (.caller 0)] = some s ∧
      returning s 0 = some 1 ∧ [early] <+: fileEntries s := by
  refine ⟨_, rfl, rfl, ?_⟩
  exact (flush_durable 100 [.append early, .check, .take .flusher, .call 0 .flush, .write .flusher,
    .take (.caller 0)] _ rfl (by decide +kernel)).2 0 1 rfl

/-- The group-commit thread has taken the entry and not written it: `flush` finds nothing to write
and returns. -/
theorem flush_returns_early : ∃ s t, run step (init 100)
    [.append early, .check, .take .flusher, .call 0 .flush, .take (.caller 0)] = some s ∧
      step s (.ret 0) = some t ∧ returning s 0 = some 1 ∧ s.appended.take 1 = [early] ∧
      fileEntries s = [] := by
  exact ⟨_, _, rfl, rfl, rfl, rfl, by decide +kernel⟩

/-- `flush` writes its batch before the group-commit thread writes the one it took earlier. -/
theorem batches_overtake : ∃ s, run step (init 100)
    [.append early, .check, .take .flusher, .append late, .call 0 .flush, .take (.caller 0),
      .write (.caller 0), .write .flusher] = some s ∧
      s.appended = [early, late] ∧ fileEntries s = [late, early] := by
  exact ⟨_, rfl, rfl, by decide +kernel⟩

end

end Vsector.Storage.WalThreads
