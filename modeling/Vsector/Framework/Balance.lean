import Mathlib

/-!
# Moving units one by one

A distribution `c` of units over the finite set `S`, from which one unit after
another is moved, from a place that has the most to one that has the least of
the others. A move makes the sum of squares smaller exactly if the two differ
by at least two (`sum_sq_moved_lt_iff`); moves of another kind are only met
where the units cannot be spread evenly (`not_spreads_of_one`), and there a
move is always left (`exists_more_of_not_spreads`).
-/

namespace Framework

variable {ι : Type*} [DecidableEq ι] {S : Finset ι} {c : ι → ℕ} {s t : ι}

/-- One unit is moved from `s` to `t`. -/
def moved (c : ι → ℕ) (s t : ι) (i : ι) : ℕ :=
  if i = s then c s - 1 else if i = t then c t + 1 else c i

/-- What a move changes of a sum. -/
theorem sum_moved (f : ℕ → ℕ) (hs : s ∈ S) (ht : t ∈ S) (hne : t ≠ s) :
    ∑ i ∈ S, f (moved c s t i) + f (c s) + f (c t) = ∑ i ∈ S,
      f (c i) + f (c s - 1) + f (c t + 1) := by
  have ht' : t ∈ S.erase s := Finset.mem_erase.mpr ⟨hne, ht⟩
  have hrest : ∑ i ∈ (S.erase s).erase t, f (moved c s t i) = ∑ i ∈ (S.erase s).erase t,
      f (c i) := by
    refine Finset.sum_congr rfl fun i hi => ?_
    simp only [Finset.mem_erase] at hi
    simp [moved, hi.1, hi.2.1]
  rw [← Finset.add_sum_erase S _ hs, ← Finset.add_sum_erase (S.erase s) _ ht',
    ← Finset.add_sum_erase S (fun i => f (c i)) hs,
    ← Finset.add_sum_erase (S.erase s) (fun i => f (c i)) ht', hrest]
  simp only [moved, ↓reduceIte, hne]
  omega

theorem sum_moved_eq (hs : s ∈ S) (ht : t ∈ S) (hne : t ≠ s) (hpos : 0 < c s) :
    ∑ i ∈ S, moved c s t i = ∑ i ∈ S, c i := by
  have := sum_moved (c := c) id hs ht hne
  simp only [id] at this
  omega

theorem sum_sq_moved_lt_iff (hs : s ∈ S) (ht : t ∈ S) (hne : t ≠ s) (hpos : 0 < c s) :
    ∑ i ∈ S, moved c s t i ^ 2 < ∑ i ∈ S, c i ^ 2 ↔ c t + 2 ≤ c s := by
  have h := sum_moved (c := c) (· ^ 2) hs ht hne
  obtain ⟨n, hn⟩ : ∃ n, c s = n + 1 := ⟨c s - 1, by omega⟩
  simp only [hn, Nat.add_sub_cancel] at h ⊢
  have hleft : (n + 1) ^ 2 = n ^ 2 + 2 * n + 1 := by ring
  have hright : (c t + 1) ^ 2 = c t ^ 2 + 2 * c t + 1 := by ring
  rw [hleft, hright] at h
  constructor <;> intro hlt <;> omega

/-- `n` units can be spread over `m` places so that no move is left. -/
def Spreads (n m : ℕ) : Prop := m ≤ 1 ∨ n ≤ m ∨ m ∣ n

/-- Of the places `s` has the most, and `t` the least of the others. -/
structure Extremes (S : Finset ι) (c : ι → ℕ) (s t : ι) : Prop where
  source : s ∈ S
  target : t ∈ S
  ne : t ≠ s
  most : ∀ i ∈ S, c i ≤ c s
  least : ∀ i ∈ S, i ≠ s → c t ≤ c i

/-- A unit is moved between places that differ by one. -/
theorem not_spreads_of_one (h : Extremes S c s t) (hone : c s = c t + 1) (htwo : 2 ≤ c s) :
    ¬ Spreads (∑ i ∈ S, c i) S.card := by
  have htarget : t ∈ S.erase s := Finset.mem_erase.mpr ⟨h.ne, h.target⟩
  have hcard : (S.erase s).card + 1 = S.card := Finset.card_erase_add_one h.source
  have hpos : 0 < (S.erase s).card := Finset.card_pos.mpr ⟨t, htarget⟩
  -- all but `s` have at least what `t` has, and `t` itself not one more
  have hlow : (S.erase s).card * c t ≤ ∑ i ∈ S.erase s, c i := by
    rw [← smul_eq_mul]
    exact Finset.card_nsmul_le_sum _ _ _ fun i hi =>
      h.least i (Finset.mem_of_mem_erase hi) (Finset.ne_of_mem_erase hi)
  have hhigh : ∑ i ∈ S.erase s, c i < (S.erase s).card * c s := by
    rw [← smul_eq_mul, ← Finset.sum_const]
    exact Finset.sum_lt_sum (fun i hi => h.most i (Finset.mem_of_mem_erase hi))
      ⟨t, htarget, by omega⟩
  have htotal := Finset.add_sum_erase S c h.source
  generalize ∑ i ∈ S.erase s, c i = rest at hlow hhigh htotal
  rw [← htotal, ← hcard]
  generalize (S.erase s).card = m at hpos hlow hhigh
  rw [hone] at hhigh ⊢
  rintro (hle | hle | ⟨k, hk⟩)
  · omega
  · nlinarith
  · have hgt : c t < k := by
      by_contra hkt
      have : (m + 1) * k ≤ (m + 1) * c t := Nat.mul_le_mul_left _ (not_lt.mp hkt)
      nlinarith
    have hlt : k < c t + 1 := by
      by_contra hkt
      have : (m + 1) * (c t + 1) ≤ (m + 1) * k := Nat.mul_le_mul_left _ (not_lt.mp hkt)
      nlinarith
    omega

/-- Where the units cannot be spread evenly, a move is left. -/
theorem exists_more_of_not_spreads (h : Extremes S c s t) (hn : ¬ Spreads (∑ i ∈ S, c i) S.card) :
    2 ≤ c s ∧ c t < c s := by
  simp only [Spreads, not_or] at hn
  obtain ⟨-, hlarge, hdvd⟩ := hn
  constructor
  · by_contra hlt
    refine hlarge ?_
    calc ∑ i ∈ S, c i ≤ S.card • 1 :=
      Finset.sum_le_card_nsmul _ _ _ fun i hi => (h.most i hi).trans (by omega)
      _ = S.card := by rw [smul_eq_mul, mul_one]
  · by_contra hle
    refine hdvd ⟨c s, ?_⟩
    rw [Finset.sum_const_nat fun i hi => ?_]
    by_cases his : i = s
    · rw [his]
    · have := h.least i hi his
      have := h.most i hi
      omega

end Framework
