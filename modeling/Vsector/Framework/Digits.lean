import Mathlib

/-!
# Decimal numbers as text

`fixedDigits w n` writes `n` in `w` decimal digits. Numbers of the same width
compare as text the way they compare as numbers (`fixedDigits_lt`), so names
that carry them sort in numeric order. Without padding the text of the shorter
number is compared with the leading digits of the longer one
(`toDigits_lt_iff`), and the order of the texts is that of the numbers exactly
where `KeepsOrder` says so.
-/

namespace Framework

/-- The last decimal digit of `n`. -/
def digit (n : Nat) : Char := Char.ofNat (48 + n % 10)

/-- `n` in `w` decimal digits, padded with zeros on the left. -/
def fixedDigits : Nat → Nat → List Char
  | 0, _ => []
  | w + 1, n => fixedDigits w (n / 10) ++ [digit n]

@[simp] theorem length_fixedDigits (w n : Nat) : (fixedDigits w n).length = w := by
  induction w generalizing n with
  | zero => rfl
  | succ w ih => simp [fixedDigits, ih]

theorem isDigit_digit (n : Nat) : (digit n).isDigit = true := by
  have hn := Nat.mod_lt n (show 10 > 0 by decide)
  rw [digit]
  generalize n % 10 = d at *
  interval_cases d <;> rfl

theorem isDigit_of_mem_fixedDigits {w n : Nat} : ∀ c ∈ fixedDigits w n, c.isDigit = true := by
  induction w generalizing n with
  | zero => exact fun c hc => absurd hc List.not_mem_nil
  | succ w ih =>
    intro c hc
    rcases List.mem_append.mp hc with hc | hc
    · exact ih c hc
    · rw [List.mem_singleton.mp hc]
      exact isDigit_digit n

theorem digit_lt {m n : Nat} (h : m % 10 < n % 10) : digit m < digit n := by
  unfold digit
  have hm := Nat.mod_lt m (show 10 > 0 by decide)
  have hn := Nat.mod_lt n (show 10 > 0 by decide)
  generalize m % 10 = a at *
  generalize n % 10 = b at *
  interval_cases b <;> interval_cases a <;> first | omega | decide

/-- A smaller text of the same length stays smaller whatever follows. -/
theorem append_lt_append {l l' : List Char} (hl : l.length = l'.length) (h : l < l')
    (t t' : List Char) :
    l ++ t < l' ++ t' := by
  induction l generalizing l' with
  | nil =>
    cases l' with
    | nil => exact absurd h (List.lt_irrefl _)
    | cons b l' => simp at hl
  | cons a l ih =>
    cases l' with
    | nil => simp at hl
    | cons b l' =>
      rw [List.cons_append, List.cons_append, List.cons_lt_cons_iff]
      rcases List.cons_lt_cons_iff.mp h with ha | ⟨rfl, ht⟩
      · exact .inl ha
      · exact .inr ⟨rfl, ih (by simpa using hl) ht⟩

theorem append_lt_append_left {t t' : List Char} (l : List Char) (h : t < t') :
    l ++ t < l ++ t' := by
  induction l with
  | nil => exact h
  | cons a l ih => exact List.cons_lt_cons_iff.mpr (.inr ⟨rfl, ih⟩)

theorem fixedDigits_lt {w m n : Nat} (h : m < n) (hn : n < 10 ^ w) :
    fixedDigits w m < fixedDigits w n := by
  induction w generalizing m n with
  | zero => rw [Nat.pow_zero] at hn; omega
  | succ w ih =>
    simp only [fixedDigits]
    rcases Nat.lt_or_ge (m / 10) (n / 10) with hd | hd
    · refine append_lt_append (by simp) (ih hd ?_) _ _
      rw [Nat.pow_succ] at hn
      exact Nat.div_lt_of_lt_mul (by rwa [Nat.mul_comm])
    · have he : m / 10 = n / 10 := by omega
      rw [he]
      exact append_lt_append_left _ (List.cons_lt_cons_iff.mpr (.inl (digit_lt (by omega))))

theorem toNat_digit (n : Nat) : (digit n).toNat - '0'.toNat = n % 10 := by
  have hn := Nat.mod_lt n (show 10 > 0 by decide)
  rw [digit]
  generalize n % 10 = d at *
  interval_cases d <;> rfl

/-- The digits tell the number. -/
theorem ofDigitChars_fixedDigits {w n : Nat} (h : n < 10 ^ w) :
    Nat.ofDigitChars 10 (fixedDigits w n) 0 = n := by
  induction w generalizing n with
  | zero =>
    rw [Nat.pow_zero] at h
    show 0 = n
    omega
  | succ w ih =>
    have hlt : n / 10 < 10 ^ w := by
      rw [Nat.pow_succ] at h
      exact Nat.div_lt_of_lt_mul (by rwa [Nat.mul_comm])
    have hvalue : Nat.ofDigitChars 10 (fixedDigits w (n / 10) ++ [digit n]) 0 =
        10 * Nat.ofDigitChars 10 (fixedDigits w (n / 10)) 0 + ((digit n).toNat - '0'.toNat) :=
          List.foldl_append
    rw [fixedDigits, hvalue, ih hlt, toNat_digit]
    omega

/-! ## Without padding -/

/-- How many decimal digits a number has. -/
def digitCount (n : Nat) : Nat := (Nat.toDigits 10 n).length

theorem digitCount_le_iff {n k : Nat} (hk : 0 < k) : digitCount n ≤ k ↔ n < 10 ^ k :=
  Nat.length_toDigits_le_iff (by decide) hk

theorem lt_of_digitCount_lt {m n : Nat} (h : digitCount m < digitCount n) : m < n := by
  have hpos : 0 < digitCount m := Nat.length_toDigits_pos
  have hm := (digitCount_le_iff hpos).mp (Nat.le_refl _)
  have hn := mt (digitCount_le_iff hpos).mpr (Nat.not_le.mpr h)
  omega

theorem digit_eq_digitChar (n : Nat) : digit n = Nat.digitChar (n % 10) := by
  have hn := Nat.mod_lt n (show 10 > 0 by decide)
  rw [digit]
  generalize n % 10 = d at *
  interval_cases d <;> rfl

/-- A number in as many digits as it has. -/
theorem toDigits_eq_fixedDigits (n : Nat) : Nat.toDigits 10 n = fixedDigits (digitCount n) n := by
  induction n using Nat.strongRecOn with
  | ind n ih =>
    rw [digitCount]
    rcases Nat.lt_or_ge n 10 with hn | hn
    · rw [Nat.toDigits_of_lt_base hn, List.length_singleton, fixedDigits, digit_eq_digitChar,
        Nat.mod_eq_of_lt hn]
      rfl
    · rw [Nat.toDigits_of_base_le (by decide) hn, List.length_append,
        List.length_singleton, fixedDigits, digit_eq_digitChar, ih (n / 10) (by omega)]
      rw [length_fixedDigits]

theorem fixedDigits_add (a b n : Nat) :
    fixedDigits (a + b) n = fixedDigits a (n / 10 ^ b) ++ fixedDigits b n := by
  induction b generalizing n with
  | zero => simp [fixedDigits]
  | succ b ih =>
    rw [← Nat.add_assoc, fixedDigits, fixedDigits, ih, List.append_assoc,
      Nat.div_div_eq_div_mul, Nat.pow_succ, Nat.mul_comm 10]

/-- The first digits of `n`, as many as `m` has. -/
def leading (m n : Nat) : Nat := n / 10 ^ (digitCount n - digitCount m)

theorem leading_eq {m n : Nat} (h : digitCount n ≤ digitCount m) : leading m n = n := by
  rw [leading, Nat.sub_eq_zero_of_le h, Nat.pow_zero, Nat.div_one]

theorem toDigits_split {m n : Nat} (h : digitCount m ≤ digitCount n) : Nat.toDigits 10 n =
    fixedDigits (digitCount m) (leading m n) ++ fixedDigits (digitCount n - digitCount m) n := by
  rw [toDigits_eq_fixedDigits, leading, ← fixedDigits_add, Nat.add_sub_cancel' h]

theorem leading_lt {m n : Nat} (h : digitCount m ≤ digitCount n) :
    leading m n < 10 ^ digitCount m := by
  have hn := (digitCount_le_iff (Nat.length_toDigits_pos)).mp (Nat.le_refl (digitCount n))
  rw [leading]
  refine Nat.div_lt_of_lt_mul ?_
  rwa [← Nat.pow_add, Nat.sub_add_cancel h]

/-- The text of a number against that of one with at least as many digits. -/
theorem toDigits_lt_iff {m n : Nat} (h : digitCount m ≤ digitCount n) :
    Nat.toDigits 10 m < Nat.toDigits 10 n ↔
    m < leading m n ∨ m = leading m n ∧ digitCount m < digitCount n := by
  have hm := (digitCount_le_iff (Nat.length_toDigits_pos)).mp (Nat.le_refl (digitCount m))
  have hl : (fixedDigits (digitCount m) m).length =
      (fixedDigits (digitCount m) (leading m n)).length := by simp
  rw [toDigits_split h, toDigits_eq_fixedDigits m]
  rcases Nat.lt_trichotomy m (leading m n) with hlt | heq | hgt
  · refine iff_of_true ?_ (.inl hlt)
    have htext := append_lt_append hl (fixedDigits_lt hlt (leading_lt h)) []
      (fixedDigits (digitCount n - digitCount m) n)
    rwa [List.append_nil] at htext
  · rw [← heq]
    rcases Nat.lt_or_ge (digitCount m) (digitCount n) with hcount | hcount
    · refine iff_of_true ?_ (.inr ⟨rfl, hcount⟩)
      have hrest : [] < fixedDigits (digitCount n - digitCount m) n := by
        rcases hf : fixedDigits (digitCount n - digitCount m) n with _ | ⟨c, cs⟩
        · have hlength := congrArg List.length hf
          rw [length_fixedDigits, List.length_nil] at hlength
          omega
        · exact List.nil_lt_cons c cs
      have htext := append_lt_append_left (fixedDigits (digitCount m) m) hrest
      rwa [List.append_nil] at htext
    · rw [Nat.sub_eq_zero_of_le hcount, fixedDigits, List.append_nil]
      exact iff_of_false (List.lt_irrefl _) (by omega)
  · refine iff_of_false (fun hlt => ?_) (by omega)
    have htext := append_lt_append hl.symm (fixedDigits_lt hgt hm)
      (fixedDigits (digitCount n - digitCount m) n) []
    rw [List.append_nil] at htext
    exact List.lt_asymm hlt htext

/-- The longer of two numbers does not begin with less than the shorter. -/
def KeepsOrder (m n : Nat) : Prop :=
  (digitCount m < digitCount n → m ≤ leading m n) ∧ (digitCount n < digitCount m → n ≤ leading n m)

/-- The longer of two different numbers begins with less than the shorter. -/
def ReversesOrder (m n : Nat) : Prop :=
  m = n ∨ (digitCount m < digitCount n ∧ leading m n < m) ∨
  (digitCount n < digitCount m ∧ leading n m < n)

instance (m n : Nat) : Decidable (KeepsOrder m n) := inferInstanceAs (Decidable (_ ∧ _))

instance (m n : Nat) : Decidable (ReversesOrder m n) := inferInstanceAs (Decidable (_ ∨ _))

/-- The text of a number against that of one with fewer digits. -/
theorem toDigits_lt_iff_of_lt {m n : Nat} (h : digitCount n < digitCount m) :
    Nat.toDigits 10 m < Nat.toDigits 10 n ↔ leading n m < n := by
  have hlt := toDigits_lt_iff (Nat.le_of_lt h)
  constructor
  · intro hm
    have hn := mt hlt.mpr (List.lt_asymm hm)
    omega
  · intro hm
    by_contra htext
    rcases (List.le_iff_lt_or_eq.mp (List.not_lt.mp htext)) with hn | heq
    · have := hlt.mp hn
      omega
    · have hcount : digitCount n = digitCount m := congrArg List.length heq
      omega

theorem toDigits_keeps_iff {m n : Nat} :
    (Nat.toDigits 10 m < Nat.toDigits 10 n ↔ m < n) ↔ KeepsOrder m n := by
  rw [KeepsOrder]
  rcases Nat.lt_trichotomy (digitCount m) (digitCount n) with hlt | heq | hgt
  · have hmn := lt_of_digitCount_lt hlt
    rw [toDigits_lt_iff (Nat.le_of_lt hlt)]
    omega
  · rw [toDigits_lt_iff (Nat.le_of_eq heq), leading_eq (Nat.le_of_eq heq.symm)]
    omega
  · have hnm := lt_of_digitCount_lt hgt
    rw [toDigits_lt_iff_of_lt hgt]
    omega

theorem toDigits_reverses_iff {m n : Nat} :
    (Nat.toDigits 10 m < Nat.toDigits 10 n ↔ n < m) ↔ ReversesOrder m n := by
  rw [ReversesOrder]
  rcases Nat.lt_trichotomy (digitCount m) (digitCount n) with hlt | heq | hgt
  · have hmn := lt_of_digitCount_lt hlt
    rw [toDigits_lt_iff (Nat.le_of_lt hlt)]
    omega
  · rw [toDigits_lt_iff (Nat.le_of_eq heq), leading_eq (Nat.le_of_eq heq.symm)]
    omega
  · have hnm := lt_of_digitCount_lt hgt
    rw [toDigits_lt_iff_of_lt hgt]
    omega

end Framework
