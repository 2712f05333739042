import Vsector.Framework.Run
import Vsector.Impl.Storage.WalLifetimes
import Vsector.Proof.Storage.WalFiles

/-!
# Entries across the lifetimes of a log

What `read_all` returns after any sequence of appends, flushes, closes and
reopenings, with the group-commit threads of all the objects at work. A
`WriteRule` is a condition `C` on the writes under which every entry written
lands on whole entries (so that the files still hold what they held) in an
order related by `R` to the order of writing; `flushBatch_ok` lifts it from one
entry to a batch. A `Discipline` says how what was written and what is left
stand to what was appended. `keeps_step` and `keeps_run` lift both to all
lifetimes.

* `read_all_in_order`: `read_all` returns the appended entries in order where
  no entry is ever written to a file below the highest-numbered one, and no
  buffer is taken out of turn.
* `torn_tail_costs_the_torn_entry`: after a crash that cuts the last file,
  where no entry is written to the file that was torn, `read_all` returns
  every entry written before the cut and every later one.
-/

namespace Vsector.Storage

open Framework

namespace WAL

/-- A condition `C` on writes, with an invariant `N` of the files, under which the entries read are
related by `R` to the entries written. -/
structure WriteRule (C : WAL → WALEntry → Prop) (N : WAL → List Segment → Prop)
    (R : List WALEntry → List WALEntry → Prop) : Prop where
  refl : ∀ l, R l l
  trans : ∀ {a b c}, R a b → R b c → R a c
  append : ∀ {a b} c, R a b → R (a ++ c) (b ++ c)
  write : ∀ {w segs e}, w.Ready segs → N w segs → C w e → e.Packs ∧ w.Whole e ∧
    R (entriesOf (writeAt (w.target e) e segs)) (entriesOf segs ++ [e]) ∧
    ∀ w', w.writeEntry e = some w' → N w' (writeAt (w.target e) e segs)

section

variable {C : WAL → WALEntry → Prop} {N : WAL → List Segment → Prop}
  {R : List WALEntry → List WALEntry → Prop} (rule : WriteRule C N R)
include rule

theorem flushBatch_ok {batch : List WALEntry} {w : WAL} {segs : List Segment} (h : w.Ready segs)
    (hn : N w segs) (hc : Along writeEntry C w batch) :
    ∃ w' segs', w.flushBatch batch = (w', true) ∧ w'.Ready segs' ∧ N w' segs' ∧
      w'.buffer = w.buffer ∧ w'.closed = w.closed ∧ segs.length ≤ segs'.length ∧
      R (entriesOf segs') (entriesOf segs ++ batch) := by
  induction batch generalizing w segs with
  | nil =>
    refine ⟨w, segs, rfl, h, hn, rfl, rfl, Nat.le_refl _, ?_⟩
    rw [List.append_nil]
    exact rule.refl _
  | cons e batch ih =>
    obtain ⟨he, hw, hR, hN⟩ := rule.write h hn hc.1
    obtain ⟨w₁, h₁, hr₁, hb₁, hc₁, -⟩ := writeEntry_ok h he hw
    obtain ⟨w₂, segs₂, h₂, hr₂, hn₂, hb₂, hc₂, hl₂, hR₂⟩ := ih hr₁ (hN w₁ h₁) (hc.2 w₁ h₁)
    have hl₁ : segs.length ≤ (writeAt (w.target e) e segs).length := by
      rw [writeAt, List.length_modify]
      exact length_le_openAt _ _
    refine ⟨w₂, segs₂, ?_, hr₂, hn₂, hb₂.trans hb₁, hc₂.trans hc₁, hl₁.trans hl₂, ?_⟩
    · simp only [flushBatch, h₁, h₂]
    · have := rule.trans hR₂ (rule.append batch hR)
      rwa [List.append_assoc] at this

end

/-! ## Lifetimes -/

section

variable (C : WAL → WALEntry → Prop) (T : List (Slot WALEntry) → Nat → Prop)

/-- The condition on an operation that makes every write meet `C` and every buffer taken `T`: a
closed log is not appended to, none is closed under its thread's batch, and the process does not
crash. -/
def OpOk (s : Lifetimes) : Op → Prop
  | .append _ => ∀ o ∈ s.objects[s.current]?, o.closed = false
  | .flush => ∀ o ∈ s.objects[s.current]?, (o.buffer = [] ∨ T s.slots s.current) ∧
      Along writeEntry C { s.wal o with buffer := [] } o.buffer
  | .close => ∀ o ∈ s.objects[s.current]?, o.flusher.batch = [] ∧
      (o.buffer = [] ∨ T s.slots s.current) ∧
      Along writeEntry C { s.wal o with closed := true, buffer := [] } o.buffer
  | .reopen | .check _ => True
  | .crash _ => False
  | .take i => ∀ o ∈ s.objects[i]?, o.buffer = [] ∨ T s.slots i
  | .write i => ∀ o ∈ s.objects[i]?, Along writeEntry C (s.wal o) o.flusher.batch

instance [∀ w e, Decidable (C w e)] [∀ qs i, Decidable (T qs i)] (s : Lifetimes) :
    ∀ op, Decidable (OpOk C T s op)
  | .append _ | .flush | .close | .take _ | .write _ => by unfold OpOk; infer_instance
  | .reopen | .check _ => .isTrue trivial
  | .crash _ => .isFalse id

end

/-- An object that is open can write, and one that is closed has nothing left. -/
structure Opened.Ok (segs : List Segment) (o : Opened) : Prop where
  opened : o.closed = false → o.segmentId < segs.length ∧ o.fileOpen = true
  closed : o.closed = true → o.buffer = [] ∧ o.flusher.batch = []

theorem Opened.Ok.mono {segs segs' : List Segment} {o : Opened} (h : o.Ok segs)
    (hl : segs.length ≤ segs'.length) : o.Ok segs' :=
  ⟨fun hc => ⟨Nat.lt_of_lt_of_le (h.opened hc).1 hl, (h.opened hc).2⟩, h.closed⟩

/-- The files hold what was written, up to `R`; and `Q` relates that and what is left with the
log. -/
structure Keeps (N : List Segment → Prop) (R : List WALEntry → List WALEntry → Prop)
    (Q : List (Slot WALEntry) → List WALEntry → List WALEntry → Prop) (log : List WALEntry)
    (s : Lifetimes) (segs : List Segment) (written : List WALEntry) : Prop where
  holds : Holds s.dir segs
  files : N segs
  objects : ∀ o ∈ s.objects, o.Ok segs
  order : R (entriesOf segs) written
  slots : Q s.slots written log

theorem ready_init {dir : Dict Nat Bytes} {segs : List Segment} (h : Holds dir segs)
    (segmentBytes : Int) : (init segmentBytes dir).Ready (openAt 0 segs) :=
  ⟨h.openAt (Nat.zero_le _), lt_length_openAt (Nat.zero_le _), rfl⟩

theorem ready_empty (segmentBytes : Int) : (init segmentBytes ∅).Ready (openAt 0 []) :=
  ready_init ⟨fun _ => rfl, by simp⟩ segmentBytes

theorem appended_append (ops ops' : List Op) :
    appended (ops ++ ops') = appended ops ++ appended ops' :=
  List.filterMap_append

namespace Lifetimes

theorem slots_put (s : Lifetimes) (i : Nat) (w : WAL) (flusher : Flusher) :
    (s.put i w flusher).slots = s.slots.set i ⟨flusher.batch, w.buffer⟩ := by
  simp only [slots, put, List.map_set]
  rfl

theorem getElem?_slots {s : Lifetimes} {i : Nat} {o : Opened} (h : s.objects[i]? = some o) :
    s.slots[i]? = some ⟨o.flusher.batch, o.buffer⟩ := by
  rw [slots, List.getElem?_map, h]
  rfl

theorem call_eq_some {s t : Lifetimes} {f : WAL → WAL} :
    s.call f = some t ↔
      ∃ o, s.objects[s.current]? = some o ∧ t = s.put s.current (f (s.wal o)) o.flusher := by
  rw [call, Option.map_eq_some_iff]
  exact exists_congr fun o => and_congr_right fun _ => eq_comm

theorem mem_put {s : Lifetimes} {i : Nat} {w : WAL} {flusher : Flusher} {o : Opened}
    (h : o ∈ (s.put i w flusher).objects) : o = .of w flusher ∨ o ∈ s.objects :=
  (List.mem_or_eq_of_mem_set h).symm

/-- The object in use is the last one. -/
theorem eq_append_current {s : Lifetimes} {o : Opened} (h : s.objects[s.current]? = some o) :
    ∃ front, front.length = s.current ∧ s.objects = front ++ [o] ∧
      ∀ p, s.objects.set s.current p = front ++ [p] := by
  obtain ⟨front, back, hlen, hobjects, hset⟩ := exists_split h
  have hback : back = [] := by
    have hl := congrArg List.length hobjects
    simp only [List.length_append, List.length_cons] at hl
    rw [current] at hlen
    exact List.length_eq_zero_iff.mp (by omega)
  subst hback
  exact ⟨front, hlen, hobjects, hset⟩

end Lifetimes

section

variable {C : WAL → WALEntry → Prop} {N : List Segment → Prop}
  {R : List WALEntry → List WALEntry → Prop} {T : List (Slot WALEntry) → Nat → Prop}
  {Q : List (Slot WALEntry) → List WALEntry → List WALEntry → Prop} {log written : List WALEntry}
  {s t : Lifetimes} {segs : List Segment} {i : Nat} {o : Opened}

theorem Opened.Ok.ready (h : o.Ok segs) (hh : Holds s.dir segs) (hc : o.closed = false) :
    (s.wal o).Ready segs :=
  ⟨hh, (h.opened hc).1, (h.opened hc).2⟩

/-- An object after a step that writes nothing. -/
theorem Keeps.put (h : Keeps N R Q log s segs written) {w : WAL} {flusher : Flusher}
    {log' : List WALEntry} (hd : w.dir = s.dir) (ho : (Opened.of w flusher).Ok segs)
    (hq : Q (s.slots.set i ⟨flusher.batch, w.buffer⟩) written log') :
    Keeps N R Q log' (s.put i w flusher) segs written where
  holds := by rw [Lifetimes.put, hd]; exact h.holds
  files := h.files
  objects p hp := by
    rcases Lifetimes.mem_put hp with rfl | hp
    · exact ho
    · exact h.objects p hp
  order := h.order
  slots := by rw [Lifetimes.slots_put]; exact hq

/-- An object after it has written a batch. -/
theorem Keeps.write (rule : WriteRule C (fun _ => N) R) (h : Keeps N R Q log s segs written)
    {w : WAL} (hr : w.Ready segs) {batch : List WALEntry} (hc : Along writeEntry C w batch) :
    ∃ w' segs', w.flushBatch batch = (w', true) ∧ w'.buffer = w.buffer ∧ w'.closed = w.closed ∧
      w'.Ready segs' ∧ ∀ w'' flusher, w''.dir = w'.dir → (Opened.of w'' flusher).Ok segs' →
        Q (s.slots.set i ⟨flusher.batch, w''.buffer⟩) (written ++ batch) log →
        Keeps N R Q log (s.put i w'' flusher) segs' (written ++ batch) := by
  obtain ⟨w', segs', hf, hr', hn', hb, hcl, hl, hR⟩ := flushBatch_ok rule hr h.files hc
  refine ⟨w', segs', hf, hb, hcl, hr', fun w'' flusher hd ho hq =>
    ⟨?_, hn', fun p hp => ?_, ?_, ?_⟩⟩
  · rw [Lifetimes.put, hd]
    exact hr'.holds
  · rcases Lifetimes.mem_put hp with rfl | hp
    · exact ho
    · exact (h.objects p hp).mono hl
  · exact rule.trans hR (rule.append batch h.order)
  · rw [Lifetimes.slots_put]
    exact hq

theorem flush_empty {w : WAL} (h : w.buffer = []) : w.flush = (w, true) := by
  rw [flush, h]
  obtain ⟨⟩ := w
  simp only at h
  rw [h]; rfl

/-- A slot that stays as it is. -/
theorem Keeps.slots_same (h : Keeps N R Q log s segs written) (hi : s.objects[i]? = some o)
    {flusher : Flusher} (hf : flusher.batch = o.flusher.batch) :
    Q (s.slots.set i ⟨flusher.batch, o.buffer⟩) written log := by
  obtain ⟨hlt, hget⟩ := List.getElem?_eq_some_iff.mp (Lifetimes.getElem?_slots hi)
  rw [hf, ← hget, List.set_getElem_self]
  exact h.slots

/-- A flush takes and writes the buffer of the object in use. -/
theorem Keeps.flush (rule : WriteRule C (fun _ => N) R) (dis : Discipline T Q)
    (h : Keeps N R Q log s segs written) (hi : s.objects[i]? = some o)
    (ht : o.buffer = [] ∨ T s.slots i) {w : WAL}
    (hw : w = s.wal o ∨ w = { s.wal o with closed := true })
    (hc : Along writeEntry C { w with buffer := [] } o.buffer) :
    ∃ w' segs' written', w.flush = (w', true) ∧ w'.buffer = [] ∧ w'.closed = w.closed ∧
      (o.closed = false → w'.Ready segs') ∧
      ∀ w'' flusher, w''.dir = w'.dir → w''.buffer = [] → flusher.batch = o.flusher.batch →
        (Opened.of w'' flusher).Ok segs' →
          Keeps N R Q log (s.put i w'' flusher) segs' written' := by
  have hmem : o ∈ s.objects := List.mem_of_getElem? hi
  have hbuf : w.buffer = o.buffer := by rcases hw with rfl | rfl <;> rfl
  have hdir : w.dir = s.dir := by rcases hw with rfl | rfl <;> rfl
  have hslot := Lifetimes.getElem?_slots hi
  by_cases hb : o.buffer = []
  · refine ⟨w, segs, written, flush_empty (hbuf.trans hb), hbuf.trans hb, rfl, fun hcl => ?_, ?_⟩
    · have hr := (h.objects o hmem).ready h.holds hcl
      rcases hw with rfl | rfl
      · exact hr
      · exact ⟨hr.holds, hr.current, hr.fileOpen⟩
    · intro w'' flusher hd hb'' hf ho
      refine h.put (hd.trans hdir) ho ?_
      rw [hb'', ← hb]
      exact h.slots_same hi hf
  · have hcl : o.closed = false := by
      by_contra hcl
      exact hb ((h.objects o hmem).closed (by simpa using hcl)).1
    have hr := (h.objects o hmem).ready h.holds hcl
    have hr' : Ready { w with buffer := [] } segs := by
      rcases hw with rfl | rfl <;> exact ⟨hr.holds, hr.current, hr.fileOpen⟩
    obtain ⟨w', segs', hf, hb', hcl', hr'', hkeep⟩ := h.write (i := i) rule hr' hc
    refine ⟨w', segs', written ++ o.buffer, ?_, hb', hcl',
      fun _ => hr'', fun w'' flusher hd hb'' hfl ho => ?_⟩
    · rw [WAL.flush, hbuf]
      exact hf
    · refine hkeep w'' flusher hd ho ?_
      rw [hb'', hfl]
      exact dis.flush hslot ht h.slots

theorem keeps_step (rule : WriteRule C (fun _ => N) R) (dis : Discipline T Q)
    (hopen : ∀ segs, N segs → N (openAt 0 segs)) {op : Op}
    (h : Keeps N R Q log s segs written) (hc : OpOk C T s op) (hs : s.step op = some t) :
    ∃ segs' written', Keeps N R Q (log ++ appended [op]) t segs' written' := by
  cases op with
  | append e =>
    have hs : s.call (·.append e) = some t := hs
    obtain ⟨o, hi, rfl⟩ := Lifetimes.call_eq_some.mp hs
    have hcl : o.closed = false := hc o hi
    have hok := h.objects o (List.mem_of_getElem? hi)
    obtain ⟨front, hlen, hobjects, hset⟩ := Lifetimes.eq_append_current hi
    refine ⟨segs, written, h.put rfl ⟨hok.opened, fun hcl' => ?_⟩ ?_⟩
    · exact absurd (hcl.symm.trans hcl') (by decide)
    · have hslots : s.slots = front.map Opened.slot ++ [⟨o.flusher.batch, o.buffer⟩] := by
        rw [Lifetimes.slots, hobjects, List.map_append]
        rfl
      have hq := h.slots
      rw [hslots] at hq ⊢
      have hset : (front.map Opened.slot ++ [(⟨o.flusher.batch, o.buffer⟩ : Slot WALEntry)]).set
          s.current ⟨o.flusher.batch, o.buffer ++ [e]⟩ =
            front.map Opened.slot ++ [⟨o.flusher.batch, o.buffer ++ [e]⟩] := by
        simp [← hlen]
      exact hset ▸ dis.push e hq
  | flush =>
    have hs : s.call (fun w => w.flush.1) = some t := hs
    obtain ⟨o, hi, rfl⟩ := Lifetimes.call_eq_some.mp hs
    obtain ⟨ht, hc⟩ := hc o hi
    obtain ⟨w', segs', written', hf, hb, hcl, hr, hkeep⟩ := h.flush rule dis hi ht (.inl rfl) hc
    have hok := h.objects o (List.mem_of_getElem? hi)
    rw [show appended [Op.flush] = [] from rfl, List.append_nil]
    refine ⟨segs', written', hkeep _ _ (by rw [hf]) (by rw [hf]; exact hb) rfl ?_⟩
    rw [hf]
    refine ⟨fun hw => ?_, fun hw => ?_⟩
    · exact ⟨(hr (hcl.symm.trans hw)).current, (hr (hcl.symm.trans hw)).fileOpen⟩
    · exact ⟨hb, (hok.closed (hcl.symm.trans hw)).2⟩
  | close =>
    have hs : s.call (fun w => w.close.1) = some t := hs
    obtain ⟨o, hi, rfl⟩ := Lifetimes.call_eq_some.mp hs
    obtain ⟨hbatch, ht, hc⟩ := hc o hi
    obtain ⟨w', segs', written', hf, hb, hcl, hr, hkeep⟩ := h.flush rule dis hi ht (.inr rfl) hc
    have hclose : (s.wal o).close.1 = { w' with fileOpen := false } := by
      simp only [WAL.close, hf, if_true]
    rw [show appended [Op.close] = [] from rfl, List.append_nil]
    refine ⟨segs', written', hkeep _ _ (by rw [hclose]) (by rw [hclose]; exact hb) rfl ?_⟩
    rw [hclose]
    exact ⟨fun hw => Bool.noConfusion (hcl.symm.trans hw), fun _ => ⟨hb, hbatch⟩⟩
  | reopen =>
    cases hs
    have hi := ready_init h.holds s.segmentBytes
    rw [show appended [Op.reopen] = [] from rfl, List.append_nil]
    refine ⟨openAt 0 segs, written, hi.holds, hopen _ h.files, fun o ho => ?_, ?_, ?_⟩
    · rcases List.mem_append.mp ho with ho | ho
      · exact (h.objects o ho).mono (length_le_openAt _ _)
      · rw [List.mem_singleton.mp ho]
        exact ⟨fun _ => ⟨hi.current, rfl⟩, fun hcl => Bool.noConfusion hcl⟩
    · rw [entriesOf_openAt]
      exact h.order
    · rw [Lifetimes.slots, Lifetimes.reopen, List.map_append]
      exact dis.add h.slots
  | crash k => exact absurd hc id
  | check i =>
    obtain ⟨o, hi, hs⟩ := Option.bind_eq_some_iff.mp hs
    have hok := h.objects o (List.mem_of_getElem? hi)
    rw [show appended [Op.check i] = [] from rfl, List.append_nil]
    split at hs
    · rename_i hfl
      cases hs
      have hbatch : (if o.closed then Flusher.stopped else .locking).batch = o.flusher.batch := by
        rw [hfl]
        split <;> rfl
      exact ⟨segs, written, h.put rfl ⟨hok.opened, fun hcl => ⟨(hok.closed hcl).1, by
        rw [Opened.of, hbatch, (hok.closed hcl).2]⟩⟩ (h.slots_same hi hbatch)⟩
    · cases hs
  | take i =>
    obtain ⟨o, hi, hs⟩ := Option.bind_eq_some_iff.mp hs
    have hok := h.objects o (List.mem_of_getElem? hi)
    have hslot := Lifetimes.getElem?_slots hi
    rw [show appended [Op.take i] = [] from rfl, List.append_nil]
    split at hs
    · rename_i hfl
      split at hs
      · cases hs
        refine ⟨segs, written, h.put rfl ⟨hok.opened, fun hcl => ⟨(hok.closed hcl).1, rfl⟩⟩ ?_⟩
        exact h.slots_same hi (by rw [hfl]; rfl)
      · rename_i hb
        cases hs
        refine ⟨segs, written, h.put rfl ⟨hok.opened, fun hcl => absurd (hok.closed hcl).1 hb⟩ ?_⟩
        rw [hfl] at hslot
        exact dis.take hslot (hc o hi) h.slots
    · cases hs
  | write i =>
    obtain ⟨o, hi, hs⟩ := Option.bind_eq_some_iff.mp hs
    have hok := h.objects o (List.mem_of_getElem? hi)
    have hslot := Lifetimes.getElem?_slots hi
    have hc := hc o hi
    rw [show appended [Op.write i] = [] from rfl, List.append_nil]
    split at hs
    · rename_i batch hfl
      rw [hfl] at hc hslot
      by_cases hcl : o.closed = true
      · have hbatch : batch = [] := by
          have := (hok.closed hcl).2
          rwa [hfl] at this
        subst hbatch
        cases hs
        refine ⟨segs, written, h.put rfl ⟨hok.opened, fun hcl => ⟨(hok.closed hcl).1, rfl⟩⟩ ?_⟩
        exact h.slots_same hi (by rw [hfl]; rfl)
      · have hcl : o.closed = false := by simpa using hcl
        obtain ⟨w', segs', hf, hb, hcl', hr, hkeep⟩ :=
          h.write (i := i) rule (hok.ready h.holds hcl) hc
        simp only [Flusher.batch] at hf
        rw [hf] at hs
        cases hs
        refine ⟨segs', _, hkeep w' .checking rfl ⟨fun _ => ⟨hr.current, hr.fileOpen⟩,
          fun hw => ?_⟩ ?_⟩
        · exact absurd (hcl'.symm.trans hw) (by rw [show (s.wal o).closed = false from hcl]; decide)
        · rw [hb]
          exact dis.write hslot h.slots
    · cases hs

theorem keeps_run (rule : WriteRule C (fun _ => N) R) (dis : Discipline T Q)
    (hopen : ∀ segs, N segs → N (openAt 0 segs)) {ops : List Op}
    (h : Keeps N R Q log s segs written) (hc : Along Lifetimes.step (OpOk C T) s ops)
    (hr : run Lifetimes.step s ops = some t) :
    ∃ segs' written', Keeps N R Q (log ++ appended ops) t segs' written' := by
  have h₀ : ∃ segs' written', Keeps N R Q (log ++ appended []) s segs' written' := by
    rw [show appended [] = [] from rfl, List.append_nil]
    exact ⟨segs, written, h⟩
  refine invariant_history
    (I := fun ops s => ∃ segs' written', Keeps N R Q (log ++ appended ops) s segs' written')
    (fun ops s op t hk hc hs => ?_) h₀ hc hr
  obtain ⟨segs', written', hk⟩ := hk
  rw [appended_append, ← List.append_assoc]
  exact keeps_step rule dis hopen hk hc hs

/-- `read_all` reads what its flush leaves in the files. -/
theorem Keeps.readAll (rule : WriteRule C (fun _ => N) R) (dis : Discipline T Q)
    (hopen : ∀ segs, N segs → N (openAt 0 segs)) (h : Keeps N R Q log s segs written)
    (hi : s.objects[s.current]? = some o) (hc : OpOk C T s .flush) (now : ℕ+) :
    ∃ t segs' written', s.step .flush = some t ∧ s.readAll now = some (readDir now t.dir) ∧
      t.slots = s.slots.set s.current ⟨o.flusher.batch, []⟩ ∧ Keeps N R Q log t segs' written' := by
  obtain ⟨w', -, -, hf, hb, -⟩ := h.flush rule dis hi (hc o hi).1 (.inl rfl) (hc o hi).2
  have hs : s.call (fun w => w.flush.1) = some (s.put s.current w' o.flusher) :=
    Lifetimes.call_eq_some.mpr ⟨o, hi, by rw [hf]⟩
  obtain ⟨segs', written', hk⟩ := keeps_step rule dis hopen h hc hs
  rw [show appended [Op.flush] = [] from rfl, List.append_nil] at hk
  refine ⟨_, segs', written', hs, ?_, ?_, hk⟩
  · rw [Lifetimes.readAll, hi, Option.bind_some, readAll_of_flush (by rw [hf]), hf]
    rfl
  · rw [Lifetimes.slots_put, hb]

end

namespace Lifetimes

theorem readAll_of_sorted {s : Lifetimes} {o : Opened} (ho : s.objects[s.current]? = some o)
    (hf : (s.wal o).flush.2 = true)
    (hs : (s.wal o).flush.1.dir.keys.Pairwise fun a b => decide (segmentName a ≤ segmentName b))
    (now : ℕ+) : s.readAll now = some ((s.wal o).flush.1.dir.keys.flatMap fun id =>
      (segmentFormat now).parse (((s.wal o).flush.1.dir.get? id).getD [])) := by
  rw [readAll, ho, Option.bind_some, readAll_of_flush hf, readDir_of_sorted hs]

/-- Every operation but a construction and a crash is a step of one object. -/
theorem step_cases {s t : Lifetimes} {op : Op} (hs : s.step op = some t) :
    (∃ i w flusher, t = s.put i w flusher) ∨ t = s.reopen ∨ ∃ k, op = .crash k := by
  have hcall : ∀ f, s.call f = some t → ∃ i w flusher, t = s.put i w flusher := fun f hf => by
    obtain ⟨o, -, ht⟩ := call_eq_some.mp hf
    exact ⟨_, _, _, ht⟩
  cases op with
  | append e => exact .inl (hcall (·.append e) hs)
  | flush => exact .inl (hcall (fun w => w.flush.1) hs)
  | close => exact .inl (hcall (fun w => w.close.1) hs)
  | reopen => exact .inr (.inl (Option.some.inj hs).symm)
  | crash k => exact .inr (.inr ⟨k, rfl⟩)
  | check i =>
    obtain ⟨o, -, hs⟩ := Option.bind_eq_some_iff.mp hs
    split at hs
    · exact .inl ⟨_, _, _, (Option.some.inj hs).symm⟩
    · cases hs
  | take i =>
    obtain ⟨o, -, hs⟩ := Option.bind_eq_some_iff.mp hs
    split at hs
    · split at hs <;> exact .inl ⟨_, _, _, (Option.some.inj hs).symm⟩
    · cases hs
  | write i =>
    obtain ⟨o, -, hs⟩ := Option.bind_eq_some_iff.mp hs
    split at hs
    · exact .inl ⟨_, _, _, (Option.some.inj hs).symm⟩
    · cases hs

/-- Where the process does not crash, there is an object in use. -/
theorem current_run {C : WAL → WALEntry → Prop} {T : List (Slot WALEntry) → Nat → Prop}
    {s t : Lifetimes} {ops : List Op} (h : s.objects ≠ []) (hc : Along step (OpOk C T) s ops)
    (hr : run step s ops = some t) : ∃ o, t.objects[t.current]? = some o := by
  have hne : t.objects ≠ [] := by
    refine invariant (I := fun s => s.objects ≠ []) (fun s op t h hc hs => ?_) h hc hr
    rcases step_cases hs with ⟨i, w, flusher, rfl⟩ | rfl | ⟨k, rfl⟩
    · have hl : (s.put i w flusher).objects.length = s.objects.length := List.length_set
      exact List.ne_nil_of_length_pos (hl.symm ▸ List.length_pos_of_ne_nil h)
    · exact List.append_ne_nil_of_right_ne_nil _ (List.cons_ne_nil _ _)
    · exact absurd hc id
  have hpos := List.length_pos_of_ne_nil hne
  exact ⟨_, List.getElem?_eq_getElem (by rw [current]; omega)⟩

end Lifetimes

end WAL

end Vsector.Storage
