import Mathlib

/-!
# Rounding half to even

`roundHalfEven x` is an integer nearest to `x`, and of the two nearest to a
number half way between them the even one. It is at most one half away
(`abs_roundHalfEven_sub_le`), it keeps the order (`roundHalfEven_mono`), and an
integer is its own rounding (`roundHalfEven_intCast`).
-/

namespace Framework

variable {K : Type*} [Field K] [LinearOrder K] [FloorRing K]

def roundHalfEven (x : K) : ℤ :=
  if Int.fract x < 1 / 2 then ⌊x⌋
  else if 1 / 2 < Int.fract x then ⌊x⌋ + 1
  else if ⌊x⌋ % 2 = 0 then ⌊x⌋
  else ⌊x⌋ + 1

/-- Down or up, each only where it is not farther. -/
theorem roundHalfEven_cases (x : K) :
    (roundHalfEven x = ⌊x⌋ ∧ Int.fract x ≤ 1 / 2) ∨
    (roundHalfEven x = ⌊x⌋ + 1 ∧ 1 / 2 ≤ Int.fract x) := by
  unfold roundHalfEven
  split
  · exact .inl ⟨rfl, le_of_lt ‹_›⟩
  · split
    · exact .inr ⟨rfl, le_of_lt ‹_›⟩
    · split
      · exact .inl ⟨rfl, not_lt.mp ‹¬1 / 2 < Int.fract x›⟩
      · exact .inr ⟨rfl, not_lt.mp ‹¬Int.fract x < 1 / 2›⟩

theorem floor_le_roundHalfEven (x : K) : ⌊x⌋ ≤ roundHalfEven x := by
  rcases roundHalfEven_cases x with ⟨he, -⟩ | ⟨he, -⟩ <;> omega

theorem roundHalfEven_le_floor_add_one (x : K) : roundHalfEven x ≤ ⌊x⌋ + 1 := by
  rcases roundHalfEven_cases x with ⟨he, -⟩ | ⟨he, -⟩ <;> omega

variable [IsStrictOrderedRing K]

theorem abs_roundHalfEven_sub_le (x : K) : |(roundHalfEven x : K) - x| ≤ 1 / 2 := by
  have hx := Int.floor_add_fract x
  have h0 := Int.fract_nonneg x
  have h1 := Int.fract_lt_one x
  rw [abs_le]
  rcases roundHalfEven_cases x with ⟨he, hf⟩ | ⟨he, hf⟩ <;> rw [he]
  · constructor <;> linarith
  · push_cast
    constructor <;> linarith

@[simp] theorem roundHalfEven_intCast (n : ℤ) : roundHalfEven (n : K) = n := by
  simp [roundHalfEven]

/-- Where the floors are equal, the fractions decide; where they are not, a whole number lies
between. -/
theorem roundHalfEven_mono : Monotone (roundHalfEven : K → ℤ) := by
  intro x y hxy
  rcases (Int.floor_mono hxy).eq_or_lt with hf | hf
  · have hfr : Int.fract x ≤ Int.fract y := by
      simp only [Int.fract, hf]
      exact sub_le_sub_right hxy _
    unfold roundHalfEven
    rw [hf]
    split_ifs <;> first | omega | (exfalso; linarith)
  · have := roundHalfEven_le_floor_add_one x
    have := floor_le_roundHalfEven y
    omega

end Framework
