import Mathlib

/-!
# Delivery at least once

The messages of a log have offsets `0`, `1`, …. A reader goes on with the next
one, or starts again at one it has had already (`Replay`): so it gets every
message at least once, in the order of the log but for the repetitions. What
the last message that matters leaves, a replay leaves as well
(`Replay.findSome?_reverse`): repetitions do no harm to a state in which the
last write wins, once the reader has caught up.
-/

namespace Framework

/-- The offsets of a reader that has had the first `n` messages and has caught up. -/
structure Replay (n : ℕ) (offsets : List ℕ) : Prop where
  start : n ≠ 0 → offsets ≠ []
  /-- The next message, or one from before. -/
  next : offsets.IsChain fun a b => b ≤ a + 1
  first : ∀ o, offsets.head? = some o → o = 0
  last : ∀ o, offsets.getLast? = some o → o + 1 = n
  lt : ∀ o ∈ offsets, o < n

/-- Behind the last time a reader is at `j` it is only ever further. -/
theorem exists_last_visit {offsets : List ℕ} {j : ℕ} (hnext : offsets.IsChain fun a b => b ≤ a + 1)
    (hbelow : ∃ o ∈ offsets, o ≤ j) (hlast : ∀ o, offsets.getLast? = some o → j ≤ o) :
    ∃ earlier later, offsets = earlier ++ j :: later ∧ ∀ o ∈ later, j < o := by
  induction offsets with
  | nil => exact absurd hbelow (by simp)
  | cons a offsets ih =>
    by_cases hrest : ∃ o ∈ offsets, o ≤ j
    · have hne : offsets ≠ [] := by
        rintro rfl
        simp at hrest
      obtain ⟨earlier, later, rfl, hlater⟩ := ih hnext.of_cons hrest fun o ho => hlast o (by
        rw [List.getLast?_cons, ho]
        rfl)
      exact ⟨a :: earlier, later, rfl, hlater⟩
    · -- from `a` the reader can only have come to `j + 1`, so that it was at `j`
      have habove : ∀ o ∈ offsets, j < o :=
        fun o ho => Nat.lt_of_not_le fun hle => hrest ⟨o, ho, hle⟩
      have hle : a ≤ j := by
        obtain ⟨o, ho, hoj⟩ := hbelow
        rcases List.mem_cons.mp ho with rfl | ho
        · exact hoj
        · exact absurd (habove o ho) (Nat.not_lt.mpr hoj)
      have hge : j ≤ a := by
        cases offsets with
        | nil => exact hlast a rfl
        | cons b offsets =>
          have hstep := (List.isChain_cons_cons.mp hnext).1
          have hb := habove b List.mem_cons_self
          omega
      exact ⟨[], offsets, by rw [Nat.le_antisymm hle hge]; rfl, habove⟩

variable {β : Type*} {n : ℕ} {offsets offsets' : List ℕ}

theorem Replay.last_visit (h : Replay n offsets) {j : ℕ} (hj : j < n) :
    ∃ earlier later, offsets = earlier ++ j :: later ∧ ∀ o ∈ later, j < o := by
  refine exists_last_visit h.next ?_ fun o ho => ?_
  · obtain ⟨a, l, rfl⟩ := List.exists_cons_of_ne_nil (h.start (by omega))
    have ha := h.first a rfl
    exact ⟨a, List.mem_cons_self, by omega⟩
  · have hlast := h.last o ho
    omega

/-- The last message for which `f` has a value. -/
theorem exists_last (f : ℕ → Option β) (n : ℕ) :
    (∀ o < n, f o = none) ∨ ∃ j < n, (f j).isSome = true ∧ ∀ o, j < o → o < n → f o = none := by
  induction n with
  | zero => exact .inl fun o ho => absurd ho (Nat.not_lt_zero o)
  | succ n ih =>
    cases hn : f n with
    | some b => exact .inr ⟨n, Nat.lt_succ_self n, by rw [hn]; rfl, fun o ho ho' => by omega⟩
    | none =>
      rcases ih with hnone | ⟨j, hj, hsome, hlater⟩
      · refine .inl fun o ho => ?_
        rcases Nat.lt_succ_iff_lt_or_eq.mp ho with ho | rfl
        · exact hnone o ho
        · exact hn
      · refine .inr ⟨j, by omega, hsome, fun o ho ho' => ?_⟩
        rcases Nat.lt_succ_iff_lt_or_eq.mp ho' with ho' | rfl
        · exact hlater o ho ho'
        · exact hn

/-- What the last message leaves that leaves anything is the same in every replay. -/
theorem Replay.findSome?_reverse (h : Replay n offsets) (h' : Replay n offsets')
    (f : ℕ → Option β) :
    offsets.reverse.findSome? f = offsets'.reverse.findSome? f := by
  rcases exists_last f n with hnone | ⟨j, hj, hsome, hlater⟩
  · have hall : ∀ {offsets}, Replay n offsets → offsets.reverse.findSome? f = none := fun h =>
      List.findSome?_eq_none_iff.mpr fun o ho => hnone o (h.lt o (List.mem_reverse.mp ho))
    rw [hall h, hall h']
  · have hall : ∀ {offsets}, Replay n offsets → offsets.reverse.findSome? f = f j := by
      intro offsets h
      obtain ⟨earlier, later, rfl, hvisit⟩ := h.last_visit hj
      have hskip : later.reverse.findSome? f = none := List.findSome?_eq_none_iff.mpr fun o ho => by
        have ho := List.mem_reverse.mp ho
        exact hlater o (hvisit o ho) (h.lt o (by simp [ho]))
      obtain ⟨b, hb⟩ := Option.isSome_iff_exists.mp hsome
      rw [List.reverse_append, List.reverse_cons, List.append_assoc, List.findSome?_append,
        hskip, Option.none_or, List.singleton_append, List.findSome?_cons, hb]
    rw [hall h, hall h']

/-- A reader that gets every message once. -/
theorem replay_range (n : ℕ) : Replay n (List.range n) where
  start hn := by simpa using hn
  next := by
    refine List.isChain_iff_getElem.mpr fun i hi => ?_
    simp
  first o ho := by
    cases n with
    | zero => cases ho
    | succ n =>
      rw [List.range_succ_eq_map] at ho
      cases ho
      rfl
  last o ho := by
    cases n with
    | zero => cases ho
    | succ n =>
      rw [List.range_succ, List.getLast?_concat] at ho
      cases ho
      rfl
  lt o ho := List.mem_range.mp ho

end Framework
