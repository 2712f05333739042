import Mathlib

/-!
# Files of lines

A file of lines is the text of each value with a newline behind it (`write`);
its reader splits it at newlines and drops blank lines (`lines`). Of a file
cut after `k` symbols the reader finds

* `lines_of_endsLine`: the whole lines only, where the cut is at the end of
  a line, before or behind its newline (`EndsLine`);
* `lines_cases`: after the whole lines, a proper part of one more, anywhere
  else.
-/

namespace Framework

structure LineFormat (β α : Type*) where
  encode : α → List β
  newline : β
  isNewline : β → Bool
  isBlank : List β → Bool

namespace LineFormat

variable {β α : Type*} (F : LineFormat β α)

def write (l : List α) : List β := l.flatMap fun a => F.encode a ++ [F.newline]

def lines (file : List β) : List (List β) :=
  (file.splitOnP F.isNewline).filter fun line => !F.isBlank line

/-- Texts are without newlines, and no beginning of one is blank. -/
structure Lawful : Prop where
  newline : F.isNewline F.newline = true
  encode : ∀ a, ∀ b ∈ F.encode a, F.isNewline b = false
  blank : F.isBlank [] = true
  not_blank : ∀ a k, 0 < k → F.isBlank ((F.encode a).take k) = false

/-- The cut after `k` symbols of a file is at the end of line `n`. -/
def EndsLine (l : List α) (k n : Nat) : Prop :=
  k = (F.write (l.take n)).length ∨ k + 1 = (F.write (l.take n)).length ∨
  (n = l.length ∧ (F.write l).length ≤ k)

variable {F}

theorem write_cons (a : α) (l : List α) :
    F.write (a :: l) = F.encode a ++ F.newline :: F.write l := by
  rw [write, List.flatMap_cons, List.append_assoc]
  rfl

theorem length_write_cons (a : α) (l : List α) :
    (F.write (a :: l)).length = (F.encode a).length + 1 + (F.write l).length := by
  rw [write_cons, List.length_append, List.length_cons]
  omega

/-- A cut behind the first line. -/
theorem take_write_cons (a : α) (l : List α) {k : Nat} (h : (F.encode a).length < k) :
    (F.write (a :: l)).take k =
      F.encode a ++ F.newline :: (F.write l).take (k - (F.encode a).length - 1) := by
  rw [write_cons, List.take_append, List.take_of_length_le (le_of_lt h)]
  have hk : k - (F.encode a).length = k - (F.encode a).length - 1 + 1 := by omega
  rw [hk, List.take_succ_cons]
  rfl

/-- A cut in the first line. -/
theorem take_write_cons_le (a : α) (l : List α) {k : Nat} (h : k ≤ (F.encode a).length) :
    (F.write (a :: l)).take k = (F.encode a).take k := by
  rw [write_cons, List.take_append_of_le_length h]

variable (hF : F.Lawful)
include hF

theorem lines_nil : F.lines [] = [] := by
  rw [lines, List.splitOnP_nil,
    List.filter_cons_of_neg (by rw [hF.blank]; exact Bool.false_ne_true), List.filter_nil]

theorem lines_take (a : α) {k : Nat} (hk : 0 < k) :
    F.lines ((F.encode a).take k) = [(F.encode a).take k] := by
  have hno : ∀ b ∈ (F.encode a).take k, F.isNewline b = false :=
    fun b hb => hF.encode a b (List.mem_of_mem_take hb)
  rw [lines, List.splitOnP_eq_singleton hno,
    List.filter_cons_of_pos (by rw [hF.not_blank a k hk]; rfl), List.filter_nil]

theorem encode_ne_nil (a : α) : F.encode a ≠ [] := by
  intro h
  have hb := hF.not_blank a 1 Nat.one_pos
  rw [h, List.take_nil, hF.blank] at hb
  cases hb

theorem lines_cons (a : α) (file : List β) :
    F.lines (F.encode a ++ F.newline :: file) = F.encode a :: F.lines file := by
  have hb := hF.not_blank a (F.encode a).length (List.length_pos_iff.mpr (encode_ne_nil hF a))
  rw [List.take_length] at hb
  rw [lines, List.splitOnP_append_cons_of_forall_mem (hF.encode a) _ hF.newline,
    List.filter_cons_of_pos (by rw [hb]; rfl)]
  rfl

theorem lines_of_endsLine (l : List α) : ∀ k n, n ≤ l.length → F.EndsLine l k n →
    F.lines ((F.write l).take k) = (l.take n).map F.encode := by
  induction l with
  | nil =>
    intro k n _ _
    have hnil : (F.write []).take k = [] := List.take_nil
    rw [hnil, lines_nil hF, List.take_nil, List.map_nil]
  | cons a l ih =>
    intro k n hn hk
    cases n with
    | zero =>
      have hk : k = 0 := by
        rcases hk with hk | hk | ⟨hn, -⟩
        · exact hk
        · exact absurd hk (Nat.succ_ne_zero k)
        · exact absurd hn (Nat.succ_ne_zero l.length).symm
      subst hk
      exact lines_nil hF
    | succ n =>
      rw [List.length_cons] at hn
      rw [EndsLine, List.take_succ_cons, length_write_cons, length_write_cons,
        List.length_cons] at hk
      rw [List.take_succ_cons, List.map_cons]
      rcases Nat.lt_or_ge (F.encode a).length k with hlt | hle
      · rw [take_write_cons a l hlt, lines_cons hF, ih _ n (by omega)]
        rw [EndsLine]
        omega
      · have hshort : k = (F.encode a).length ∧ (F.write (l.take n)).length = 0 := by
          rcases hk with hk | hk | ⟨-, hk⟩ <;> omega
        obtain ⟨rfl, hempty⟩ := hshort
        have htake : l.take n = [] := by
          cases ht : l.take n with
          | nil => rfl
          | cons b t => rw [ht, length_write_cons] at hempty; omega
        rw [take_write_cons_le a l hle,
          lines_take hF a (List.length_pos_iff.mpr (encode_ne_nil hF a)), List.take_length,
          htake, List.map_nil]

theorem lines_cases (l : List α) : ∀ k, (∃ n, n ≤ l.length ∧ F.EndsLine l k n) ∨
    ∃ n a j, l[n]? = some a ∧ 0 < j ∧ j < (F.encode a).length ∧
      F.lines ((F.write l).take k) = (l.take n).map F.encode ++ [(F.encode a).take j] := by
  induction l with
  | nil => exact fun k => .inl ⟨0, Nat.le_refl 0, .inr (.inr ⟨rfl, Nat.zero_le k⟩)⟩
  | cons a l ih =>
    intro k
    rcases Nat.eq_zero_or_pos k with rfl | hpos
    · exact .inl ⟨0, Nat.zero_le _, .inl rfl⟩
    · rcases Nat.lt_trichotomy k (F.encode a).length with hlt | heq | hgt
      · refine .inr ⟨0, a, k, rfl, hpos, hlt, ?_⟩
        rw [take_write_cons_le a l (le_of_lt hlt), lines_take hF a hpos]
        rfl
      · refine .inl ⟨1, Nat.succ_le_succ (Nat.zero_le _), .inr (.inl ?_)⟩
        rw [List.take_succ_cons, List.take_zero, length_write_cons, heq]
        rfl
      · rcases ih (k - (F.encode a).length - 1) with ⟨n, hn, he⟩ | ⟨n, b, j, hb, hj, hjl, hl⟩
        · refine .inl ⟨n + 1, Nat.succ_le_succ hn, ?_⟩
          rw [EndsLine] at he ⊢
          rw [List.take_succ_cons, length_write_cons, length_write_cons, List.length_cons]
          omega
        · refine .inr ⟨n + 1, b, j, hb, hj, hjl, ?_⟩
          rw [take_write_cons a l hgt, lines_cons hF, hl, List.take_succ_cons, List.map_cons,
            List.cons_append]

end LineFormat

end Framework
