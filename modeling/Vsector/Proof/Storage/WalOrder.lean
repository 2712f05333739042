import Vsector.Proof.Storage.WalLifetimes

/-!
# The order of a log across restarts

`read_all` returns the appended entries in order where every entry goes to
the highest-numbered segment file, and every buffer is taken in turn
(`read_all_in_order`). Neither holds of the code by itself. Constructing a
`WAL` starts again at segment 0 whatever the directory holds: a log of two
segments that is reopened with room left in the first one reads back out of
order (`reopened_log_reorders`). And nothing ends the object it replaces: an
entry that was not flushed before is missing, and is written behind later ones
(`replaced_log_writes_late`).
-/

namespace Vsector.Storage

open Framework

namespace WAL

/-- The entry packs, and no segment file is numbered above the one it goes to. -/
def InOrder (w : WAL) (e : WALEntry) : Prop := e.Packs ∧ ∀ id ∈ w.dir.keys, id ≤ w.target e

instance (w : WAL) (e : WALEntry) : Decidable (w.InOrder e) := inferInstanceAs (Decidable (_ ∧ _))

/-- Nothing was torn from any of the files. -/
def Untorn (segs : List Segment) : Prop := ∀ s ∈ segs, s.torn = []

theorem untorn_openAt {t : Nat} {segs : List Segment} (h : Untorn segs) :
    Untorn (openAt t segs) := by
  unfold openAt
  split
  · exact h
  · intro s hs
    rcases List.mem_append.mp hs with hs | hs
    · exact h s hs
    · rw [List.mem_singleton.mp hs]

theorem untorn_writeAt {t : Nat} {e : WALEntry} {segs : List Segment} (h : Untorn segs) :
    Untorn (writeAt t e segs) := by
  unfold writeAt
  intro s hs
  obtain ⟨i, hi, rfl⟩ := List.getElem_of_mem hs
  rw [List.length_modify] at hi
  have ho := untorn_openAt h _ (List.getElem_mem hi)
  rw [List.getElem_modify]
  split <;> exact ho

theorem Ready.whole {w : WAL} {segs : List Segment} (h : w.Ready segs) (hn : Untorn segs)
    (e : WALEntry) :
    w.Whole e := by
  rw [Whole, segment, h.holds.get]
  by_cases hl : w.target e < segs.length
  · rw [List.getElem?_eq_getElem hl]
    refine ⟨segs[w.target e].entries, (h.holds.ok _ (List.getElem_mem hl)).packs, ?_⟩
    simp [Segment.bytes, hn _ (List.getElem_mem hl)]
  · rw [List.getElem?_eq_none (by omega)]
    exact ⟨[], by simp, rfl⟩

/-- Under `InOrder` an entry becomes the last one read. -/
theorem inOrder_rule : WriteRule InOrder (fun _ => Untorn) Eq where
  refl _ := rfl
  trans := Eq.trans
  append c h := by rw [h]
  write {w segs e} hr hn hc := by
    have hw := hr.whole hn e
    obtain ⟨w', -, -, -, -, -, ht⟩ := writeEntry_ok hr hc.1 hw
    refine ⟨hc.1, hw, entries_write_tail ht ?_ e, fun _ _ => untorn_writeAt hn⟩
    by_contra hl
    have := hc.2 (w.target e + 1) (hr.holds.mem_keys.mpr (by omega))
    omega

theorem keeps_start (segmentBytes : Int) :
    Keeps Untorn Eq InLine [] (Lifetimes.start segmentBytes) (openAt 0 []) [] where
  holds := (ready_empty segmentBytes).holds
  files := by simp [Untorn, openAt]
  objects o ho := by
    rw [List.mem_singleton.mp ho]
    exact ⟨fun _ => ⟨(ready_empty segmentBytes).current, rfl⟩, fun hcl => Bool.noConfusion hcl⟩
  order := rfl
  slots := inLine.add (inLine.start [])

/-- Whatever its lifetimes, a log whose entries each went to the highest-numbered segment file, and
whose buffers were each taken in turn, returns the entries in the order they were appended. -/
theorem read_all_in_order (segmentBytes : Int) (ops : List Op) (now : ℕ+) (s : Lifetimes)
    (hr : run Lifetimes.step (.start segmentBytes) ops = some s)
    (hc : Along Lifetimes.step (OpOk InOrder Slot.Turn) (.start segmentBytes) (ops ++ [.flush]))
    (hlast : Slot.Turn s.slots s.current)
    (hn : ∀ t ∈ s.step .flush, t.dir.keys.length < 10 ^ 6) :
    s.readAll now = some (appended ops) := by
  obtain ⟨hc, hflush⟩ := hc.append
  have hopen : ∀ segs, Untorn segs → Untorn (openAt 0 segs) := fun _ => untorn_openAt
  obtain ⟨segs, written, hk⟩ := keeps_run inOrder_rule inLine hopen (keeps_start segmentBytes) hc hr
  obtain ⟨o, ho⟩ := Lifetimes.current_run (List.cons_ne_nil _ _) hc hr
  obtain ⟨t, segs', written', ht, hread, hslots, hk'⟩ :=
    hk.readAll inOrder_rule inLine hopen ho (hflush s hr).1 now
  have hleft : Slot.allLeft t.slots = [] := by
    have hlen : s.slots.length = s.current + 1 := by
      have := (List.getElem?_eq_some_iff.mp ho).1
      rw [Lifetimes.slots, List.length_map, Lifetimes.current] at *
      omega
    rw [hslots]
    exact hlast.allLeft_set_last (Lifetimes.getElem?_slots ho) hlen
  have hwritten : written' = appended ops := by
    have := hk'.slots.eq
    rwa [hleft, List.append_nil, List.nil_append] at this
  have hl := hk'.holds.keys_perm.length_eq
  have hfew := hn t ht
  rw [List.length_range] at hl
  rw [hread, hk'.holds.readDir_eq (by omega), hk'.order, hwritten]

section

private def first : WALEntry := ⟨[1], Nat.succPNat 0⟩
private def second : WALEntry := ⟨List.replicate 20 2, Nat.succPNat 1⟩
private def third : WALEntry := ⟨[3], Nat.succPNat 2⟩

/-- One segment file across a restart; the thread writes what was appended before it. -/
private def oneSegment : List Op :=
  [.append first, .check 0, .take 0, .write 0, .close, .reopen, .append second]

theorem read_all_in_order_one_segment : ∃ s,
    run Lifetimes.step (.start 100) oneSegment = some s ∧ s.readAll 1 = some [first, second] := by
  refine ⟨_, rfl, read_all_in_order 100 oneSegment 1 _ rfl ?_ ?_ ?_⟩
  · decide +kernel
  · decide +kernel
  · decide +kernel

/-- The second segment was written before the restart and the first one had room left after it. -/
private def twoSegments : List Op :=
  [.append first, .append second, .flush, .close, .reopen, .append third]

theorem reopened_log_reorders : ∃ s,
    run Lifetimes.step (.start 40) twoSegments = some s ∧
      (∀ t ∈ s.step .flush, t.dir.keys.length < 10 ^ 6) ∧
      appended twoSegments = [first, second, third] ∧
      s.readAll 1 = some [first, third, second] ∧ s.readAll 1 ≠ some (appended twoSegments) := by
  have h : ∃ s, run Lifetimes.step (.start 40) twoSegments = some s ∧
      (∀ t ∈ s.step .flush, t.dir.keys = [0, 1]) ∧ s.readAll 1 = some [first, third, second] := by
    refine ⟨_, rfl, by decide +kernel, ?_⟩
    rw [Lifetimes.readAll_of_sorted rfl (by decide +kernel) (by decide +kernel)]
    decide +kernel
  obtain ⟨s, hr, hk, h⟩ := h
  exact ⟨s, hr, fun t ht => by rw [hk t ht]; decide, rfl, h, by rw [h]; decide⟩

/-- The entry of the replaced object is missing until its thread writes it, and then comes last. -/
theorem replaced_log_writes_late : ∃ s t,
    run Lifetimes.step (.start 100) [.append first, .reopen, .append second, .flush] = some s ∧
      run Lifetimes.step s [.check 0, .take 0, .write 0] = some t ∧
      s.readAll 1 = some [second] ∧ t.readAll 1 = some [second, first] := by
  refine ⟨_, _, rfl, rfl, ?_, ?_⟩
  · rw [Lifetimes.readAll_of_sorted rfl (by decide +kernel) (by decide +kernel)]
    decide +kernel
  · rw [Lifetimes.readAll_of_sorted rfl (by decide +kernel) (by decide +kernel)]
    decide +kernel

end

end WAL

end Vsector.Storage
