import Mathlib

/-!
# Binary search

`bisectRight a x`, by the loop of the standard library. In a sorted list it
parts the elements that are at most `x` from those that are greater
(`lt_bisectRight_iff`).
-/

namespace Framework

variable {α : Type*} [LinearOrder α] {a : List α} {x : α}

/-- The loop, over the positions from `lo` on and below `hi`. -/
def bisectLoop (a : List α) (x : α) (lo hi : Nat) : Nat :=
  if lo < hi then
    match a[(lo + hi) / 2]? with
    | some m =>
      if x < m then bisectLoop a x lo ((lo + hi) / 2) else bisectLoop a x ((lo + hi) / 2 + 1) hi
    | none => lo
  else lo
termination_by hi - lo

def bisectRight (a : List α) (x : α) : Nat := bisectLoop a x 0 a.length

theorem le_of_sorted (h : a.Pairwise (· ≤ ·)) {i j : Nat} {y z : α} (hy : a[i]? = some y)
    (hz : a[j]? = some z) (hij : i ≤ j) : y ≤ z := by
  obtain ⟨hi, rfl⟩ := List.getElem?_eq_some_iff.mp hy
  obtain ⟨hj, rfl⟩ := List.getElem?_eq_some_iff.mp hz
  rcases hij.eq_or_lt with rfl | hlt
  · exact le_refl _
  · exact List.pairwise_iff_getElem.mp h i j hi hj hlt

/-- What lies before `lo` is at most `x`, and what lies from `hi` on is greater: the loop keeps it
until the two meet. -/
theorem bisectLoop_spec (h : a.Pairwise (· ≤ ·)) (x : α) (lo hi : Nat) (hhi : hi ≤ a.length)
    (hle : lo ≤ hi) (hbefore : ∀ i y, a[i]? = some y → i < lo → y ≤ x)
    (hafter : ∀ i y, a[i]? = some y → hi ≤ i → x < y) :
    bisectLoop a x lo hi ≤ a.length ∧ ∀ i y, a[i]? = some y →
      (i < bisectLoop a x lo hi ↔ y ≤ x) := by
  fun_induction bisectLoop a x lo hi with
  | case1 lo hi hlt m hm hx ih =>
    refine ih (by omega) (by omega) hbefore fun i y hy hi' => ?_
    exact hx.trans_le (le_of_sorted h hm hy hi')
  | case2 lo hi hlt m hm hx ih =>
    refine ih hhi (by omega) (fun i y hy hi' => ?_) hafter
    exact (le_of_sorted h hy hm (by omega)).trans (not_lt.mp hx)
  | case3 lo hi hlt hm =>
    rw [List.getElem?_eq_none_iff] at hm
    omega
  | case4 lo hi hlt =>
    obtain rfl : lo = hi := by omega
    refine ⟨hhi, fun i y hy => ⟨hbefore i y hy, fun hyx => ?_⟩⟩
    by_contra hi'
    exact absurd (hafter i y hy (by omega)) (not_lt.mpr hyx)

theorem bisectRight_le (h : a.Pairwise (· ≤ ·)) (x : α) : bisectRight a x ≤ a.length :=
  (bisectLoop_spec h x 0 a.length (le_refl _) (Nat.zero_le _)
    (fun _ _ _ hi => absurd hi (Nat.not_lt_zero _))
    fun i y hy hi => by rw [List.getElem?_eq_none hi] at hy; cases hy).1

theorem lt_bisectRight_iff (h : a.Pairwise (· ≤ ·)) {i : Nat} {y : α} (hy : a[i]? = some y) :
    i < bisectRight a x ↔ y ≤ x :=
  (bisectLoop_spec h x 0 a.length (le_refl _) (Nat.zero_le _)
    (fun _ _ _ hi => absurd hi (Nat.not_lt_zero _))
    fun i y hy hi => by rw [List.getElem?_eq_none hi] at hy; cases hy).2 i y hy

end Framework
