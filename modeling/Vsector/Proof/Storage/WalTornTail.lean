import Vsector.Proof.Storage.WalOrder

/-!
# A torn tail

The process dies and the last segment file of a log is cut at an arbitrary
byte. The entries `complete` before the cut are still there (`holds_crash`),
and stay there, beside every later entry, where no later entry is written to
the file that was torn (`torn_tail_costs_the_torn_entry`). An entry written
behind the torn bytes is taken for the rest of the torn one
(`torn_tail_swallows_the_next_entry`).
-/

namespace Vsector.Storage

open Framework

namespace Holds

variable {dir : Dict Nat Bytes} {segs : List Segment}

theorem values_perm (h : Holds dir segs) : dir.values.Perm (segs.map Segment.bytes) := by
  have hv : dir.values = dir.keys.map fun i => (dir.get? i).getD [] := by
    simp only [Dict.values, Dict.keys, List.map_map]
    refine List.map_congr_left fun p hp => ?_
    rw [Function.comp_apply, (Dict.mem_entries (k := p.1) (v := p.2)).mp hp]
    rfl
  have hs : ((List.range segs.length).map fun i => (dir.get? i).getD []) =
      segs.map Segment.bytes := by
    refine List.ext_getElem (by simp) fun i hi _ => ?_
    simp only [List.length_map, List.length_range] at hi
    simp [h.get, hi]
  rw [hv, ← hs]
  exact h.keys_perm.map _

theorem max_keys (h : Holds dir segs) {n : Nat} (hn : segs.length = n + 1) :
    dir.keys.max? = some n := by
  refine List.max?_eq_some_iff.mpr ⟨h.mem_keys.mpr (by omega), fun i hi => ?_⟩
  have := h.mem_keys.mp hi
  omega

end Holds

namespace WAL

/-- The operations of a lifetime that appends and flushes `batches`. -/
def flushed (batches : List (List WALEntry)) : List Op :=
  batches.flatMap fun batch => batch.map Op.append ++ [.flush]

/-- Of the entries written to a new log, those that are whole in what is left of its files. -/
def complete (dir : Dict Nat Bytes) (es : List WALEntry) : List WALEntry :=
  FrameFormat.fits WALEntry.data (dir.values.map List.length).sum es

/-! ## The first lifetime -/

/-- In the first lifetime of a log the current file is the last one. -/
theorem first_rule : WriteRule (fun _ => WALEntry.Packs)
    (fun w segs => Untorn segs ∧ segs.length = w.segmentId + 1) Eq where
  refl _ := rfl
  trans := Eq.trans
  append c h := by rw [h]
  write {w segs e} hr hn hc := by
    have hw := hr.whole hn.1 e
    obtain ⟨w', h', -, -, -, hid, ht⟩ := writeEntry_ok hr hc hw
    have hl : segs.length ≤ w.target e + 1 := by
      rcases w.target_cases e with h | h <;> omega
    refine ⟨hc, hw, entries_write_tail ht hl e, fun w₁ h₁ => ⟨untorn_writeAt hn.1, ?_⟩⟩
    cases h'.symm.trans h₁
    rw [hid, writeAt, List.length_modify, openAt]
    split
    · omega
    · rw [List.length_append, List.length_singleton]; omega

theorem run_appends (s : Lifetimes) {o : Opened} (hs : s.objects = [o]) (batch : List WALEntry)
    (ops : List Op) : run Lifetimes.step s (batch.map Op.append ++ ops) =
      run Lifetimes.step { s with objects := [{ o with buffer := o.buffer ++ batch }] } ops := by
  induction batch generalizing s o with
  | nil =>
    rw [List.append_nil, ← hs]
    rfl
  | cons e batch ih =>
    have hstep : s.step (.append e) =
        some { s with objects := [{ o with buffer := o.buffer ++ [e] }] } := by
      rw [Lifetimes.step, Lifetimes.call, Lifetimes.current, hs]
      simp only [Lifetimes.put, hs]
      rfl
    rw [List.map_cons, List.cons_append, run, hstep, Option.bind_some, ih _ rfl,
      List.append_assoc, List.singleton_append]

theorem along_packs {w : WAL} {es : List WALEntry} (h : ∀ e ∈ es, e.Packs) :
    Along writeEntry (fun _ => WALEntry.Packs) w es := by
  induction es generalizing w with
  | nil => trivial
  | cons e es ih =>
    exact ⟨h e List.mem_cons_self, fun t _ => ih fun e' he => h e' (List.mem_cons_of_mem _ he)⟩

/-- A lifetime's flushed entries are in its files, in order, and nothing else is. -/
theorem flushed_ok {batches : List (List WALEntry)} (hp : ∀ e ∈ batches.flatten, e.Packs)
    {s : Lifetimes} {o : Opened} {segs : List Segment} (hs : s.objects = [o])
    (hr : (s.wal o).Ready segs) (hn : Untorn segs ∧ segs.length = o.segmentId + 1)
    (hb : o.buffer = []) : ∃ t segs', run Lifetimes.step s (flushed batches) = some t ∧
      Holds t.dir segs' ∧ Untorn segs' ∧ segs' ≠ [] ∧
      entriesOf segs' = entriesOf segs ++ batches.flatten := by
  induction batches generalizing s o segs with
  | nil =>
    refine ⟨s, segs, rfl, hr.holds, hn.1, ?_, by simp⟩
    exact List.ne_nil_of_length_pos (by omega)
  | cons batch batches ih =>
    have hp' : ∀ e ∈ batch, e.Packs := fun e he => hp e (by simp [he])
    obtain ⟨w, segs₁, hw, hr₁, hn₁, hb₁, -, -, he₁⟩ :=
      flushBatch_ok first_rule hr hn (along_packs hp')
    have hflush : WAL.flush { s.wal o with buffer := o.buffer ++ batch } = (w, true) := by
      have hsame : { s.wal o with buffer := [] } = s.wal o := by rw [Lifetimes.wal, hb]
      rw [WAL.flush, hb, List.nil_append, hsame, hw]
    have hstep : Lifetimes.step { s with objects := [{ o with buffer := o.buffer ++ batch }] }
        .flush = some { s with dir := w.dir, objects := [.of w o.flusher] } := by
      have hcall : ∀ p : Opened, Lifetimes.step { s with objects := [p] } .flush =
          some (Lifetimes.put { s with objects := [p] } 0 (s.wal p).flush.1 p.flusher) :=
        fun _ => rfl
      rw [hcall, show s.wal { o with buffer := o.buffer ++ batch } =
        { s.wal o with buffer := o.buffer ++ batch } from rfl, hflush]
      rfl
    obtain ⟨t, segs₂, ht, hh, hu, hne, he₂⟩ :=
      ih (s := { s with dir := w.dir, objects := [.of w o.flusher] }) (o := .of w o.flusher)
        (fun e he => hp e (by simp only [List.flatten_cons, List.mem_append]; exact .inr he)) rfl
        ⟨hr₁.holds, hr₁.current, hr₁.fileOpen⟩ hn₁ (hb₁.trans hb)
    refine ⟨t, segs₂, ?_, hh, hu, hne, ?_⟩
    · rw [flushed, List.flatMap_cons, List.append_assoc, run_appends s hs, List.singleton_append,
        run, hstep, Option.bind_some]
      exact ht
    · rw [he₂, he₁, List.flatten_cons, List.append_assoc]

/-! ## The crash -/

/-- What the files hold after the last one is cut: the entries before the cut. -/
theorem holds_crash {dir : Dict Nat Bytes} {segs : List Segment} (h : Holds dir segs)
    (hu : Untorn segs) (hne : segs ≠ []) (k : Nat) : ∃ segs', Holds (cutLast k dir) segs' ∧
      entriesOf segs' = complete (cutLast k dir) (entriesOf segs) := by
  obtain ⟨init, last, rfl⟩ : ∃ init last, segs = init ++ [last] :=
    ⟨_, _, (List.dropLast_append_getLast hne).symm⟩
  have hlast : last.bytes = last.entries.flatMap WALEntry.data := by
    simp [Segment.bytes, hu last (by simp)]
  have hframes : ∀ e ∈ last.entries, (segmentFormat 1).IsFrame e.data e :=
    fun e he => isFrame_data ((h.ok last (by simp)).packs e he) 1
  obtain ⟨t, htake, ht⟩ := FrameFormat.take_frames hframes k
  let cut : Segment := ⟨FrameFormat.fits WALEntry.data k last.entries, t⟩
  have hcut : cut.bytes = last.bytes.take k := by rw [hlast, htake]; rfl
  have hdir : cutLast k dir = dir.set init.length (last.bytes.take k) := by
    rw [cutLast, h.max_keys (n := init.length) (by simp)]
    simp [h.get]
  have hh : Holds (cutLast k dir) (init ++ [cut]) := by
    refine ⟨fun i => ?_, fun s hs => ?_⟩
    · rw [hdir, Dict.get?_set, ← hcut]
      split
      · rename_i hi; subst hi; simp
      · rename_i hi
        rw [h.get]
        rcases Nat.lt_or_ge i init.length with hl | hl
        · rw [List.getElem?_append_left hl, List.getElem?_append_left hl]
        · rw [List.getElem?_eq_none (by simp; omega), List.getElem?_eq_none (by simp; omega)]
    · rcases List.mem_append.mp hs with hs | hs
      · exact h.ok s (by simp [hs])
      · rw [List.mem_singleton.mp hs]
        refine ⟨fun e he => ?_, ht⟩
        exact (h.ok last (by simp)).packs e ((FrameFormat.isPrefix_fits k _).subset he)
  refine ⟨init ++ [cut], hh, ?_⟩
  have hinit : (init.map fun s => s.bytes.length).sum =
      ((entriesOf init).flatMap WALEntry.data).length := by
    have : ∀ s ∈ init, s.bytes = s.entries.flatMap WALEntry.data := fun s hs => by
      simp [Segment.bytes, hu s (by simp [hs])]
    rw [entriesOf, List.flatMap_assoc, List.length_flatMap]
    exact congrArg List.sum (List.map_congr_left fun s hs => by rw [this s hs])
  have hsum : ((cutLast k dir).values.map List.length).sum =
      ((entriesOf init).flatMap WALEntry.data).length + min k last.bytes.length := by
    rw [(hh.values_perm.map List.length).sum_nat, List.map_map, List.map_append,
      List.sum_append, ← hinit]
    simp [hcut, Function.comp_def]
  rw [complete, hsum]
  simp only [entriesOf, List.flatMap_append, List.flatMap_cons, List.flatMap_nil, List.append_nil]
  rw [FrameFormat.fits_append (by omega), Nat.add_sub_cancel_left, hlast, FrameFormat.fits_min]

/-! ## Later lifetimes -/

/-- The entry packs and goes behind whole entries. -/
def Intact (w : WAL) (e : WALEntry) : Prop := e.Packs ∧ w.Whole e

/-- Under `Intact` no entry is lost. -/
theorem intact_rule : WriteRule Intact (fun _ _ => True) List.Perm where
  refl := List.Perm.refl
  trans := List.Perm.trans
  append c h := h.append_right c
  write {w segs e} hr hn hc := by
    obtain ⟨w', -, -, -, -, -, ht⟩ := writeEntry_ok hr hc.1 hc.2
    exact ⟨hc.1, hc.2, entries_write_perm ht e, fun _ _ => trivial⟩

/-- Where no entry after a crash goes behind torn bytes, the entries complete before the cut and
all later ones are read back, but for those that are in no file yet, whatever the lifetimes that
follow. -/
theorem torn_tail_costs_the_torn_entry (segmentBytes : Int) (batches : List (List WALEntry))
    (k : Nat) (ops : List Op) (now : ℕ+) (s₀ s : Lifetimes) (hp : ∀ e ∈ batches.flatten, e.Packs)
    (h₀ : run Lifetimes.step (.start segmentBytes) (flushed batches ++ [.crash k]) = some s₀)
    (hr : run Lifetimes.step s₀ (.reopen :: ops) = some s)
    (hc : Along Lifetimes.step (OpOk Intact fun _ _ => True) s₀ (.reopen :: ops ++ [.flush])) :
    ∃ t es, s.step .flush = some t ∧ s.readAll now = some es ∧
      (complete s₀.dir batches.flatten ++ appended ops).Subperm (es ++ Slot.allLeft t.slots) := by
  have hi := ready_empty segmentBytes
  obtain ⟨s₁, segs, h₁, hh, hu, hne, he⟩ := flushed_ok (s := .start segmentBytes) hp rfl
    ⟨hi.holds, hi.current, hi.fileOpen⟩ ⟨by simp [Untorn, openAt], rfl⟩ rfl
  rw [entriesOf_openAt, show entriesOf [] = [] from rfl, List.nil_append] at he
  obtain ⟨segs', hh', he'⟩ := holds_crash hh hu hne k
  obtain ⟨s₁', h₁', h₀⟩ := run_append_eq_some.mp h₀
  cases h₁.symm.trans h₁'
  cases h₀
  rw [he] at he'
  have hk : Keeps (fun _ => True) List.Perm Accounted (complete (cutLast k s₁.dir) batches.flatten)
      { s₁ with dir := cutLast k s₁.dir, objects := [] } segs' (entriesOf segs') :=
    ⟨hh', trivial, fun o ho => absurd ho List.not_mem_nil, .refl _, he' ▸ accounted.start _⟩
  obtain ⟨hc, hflush⟩ := hc.append
  obtain ⟨segs₂, written₂, hk₂⟩ := keeps_run intact_rule accounted (fun _ _ => trivial) hk hc hr
  obtain ⟨s₂, hs₂, hr₂⟩ := run_cons_eq_some.mp hr
  have hopened : s₂.objects ≠ [] := by
    cases hs₂
    exact List.cons_ne_nil _ _
  obtain ⟨o, ho⟩ := Lifetimes.current_run hopened (hc.2 s₂ hs₂) hr₂
  obtain ⟨t, segs₃, written₃, ht, hread, -, hk₃⟩ :=
    hk₂.readAll intact_rule accounted (fun _ _ => trivial) ho (hflush s hr).1 now
  refine ⟨t, _, ht, hread, List.Perm.subperm ?_⟩
  have hfiles : (readDir now t.dir).Perm written₃ := (hk₃.holds.readDir_perm now).trans hk₃.order
  exact (hk₃.slots : _).symm.trans (hfiles.symm.append_right _)

section

private def whole : WALEntry := ⟨[1], Nat.succPNat 0⟩
private def torn : WALEntry := ⟨List.replicate 20 2, Nat.succPNat 1⟩
private def later : WALEntry := ⟨[3], Nat.succPNat 2⟩

/-- The crash tears `torn` in the second segment, and `later` goes to the first one. -/
theorem torn_tail_second_segment : ∃ s₀ s,
    run Lifetimes.step (.start 40) (flushed [[whole], [torn]] ++ [.crash 18]) = some s₀ ∧
      run Lifetimes.step s₀ [.reopen, .append later] = some s ∧
      ∃ es, s.readAll 1 = some es ∧ [whole, later].Subperm es := by
  refine ⟨_, _, rfl, rfl, ?_⟩
  obtain ⟨t, es, ht, hes, hsub⟩ := torn_tail_costs_the_torn_entry 40 [[whole], [torn]] 18
    [.append later] 1 _ _ (by decide) rfl rfl (by
      refine ⟨trivial, fun t ht => ?_⟩
      cases ht
      refine ⟨fun o ho => by cases ho; rfl, fun t ht => ?_⟩
      cases ht
      refine ⟨fun o ho => ?_, fun _ _ => trivial⟩
      cases ho
      exact ⟨.inr trivial, ⟨by decide, [whole], by decide, by decide +kernel⟩, fun _ _ => trivial⟩)
  cases ht
  exact ⟨es, hes, by rwa [show Slot.allLeft _ = [] from rfl, List.append_nil] at hsub⟩

/-- The crash leaves the header and two bytes of `torn`; `later` is written behind them, and read
as the rest of `torn`. -/
theorem torn_tail_swallows_the_next_entry : ∃ s₀ s,
    run Lifetimes.step (.start 1000) (flushed [[whole, torn]] ++ [.crash 35]) = some s₀ ∧
      run Lifetimes.step s₀ [.reopen, .append later, .flush] = some s ∧
      complete s₀.dir [whole, torn] = [whole] ∧ s.readAll 1 = some [whole] := by
  refine ⟨_, _, rfl, rfl, by decide +kernel, ?_⟩
  rw [Lifetimes.readAll_of_sorted rfl (by decide +kernel) (by decide +kernel)]
  decide +kernel

end

end WAL

end Vsector.Storage
