import Mathlib

/-!
# Sliding windows

A log of times, each entered only where fewer than `q` of those
before it lie within the span `w` that ends at it (`Throttled`). No window that
is shorter than `w` then holds more than `q` (`Throttled.countP_le`), although
only windows that end at an entry were looked at.
-/

namespace Framework

variable {K : Type*} [AddCommGroup K] [LinearOrder K] {w : K} {q : Nat} {times : List K}

/-- The entries less than `w` before `now`. -/
def recent (w now : K) (times : List K) : List K := times.filter fun t => now - t < w

theorem recent_append (w now : K) (times times' : List K) :
    recent w now (times ++ times') = recent w now times ++ recent w now times' :=
  List.filter_append ..

/-- What was too old for an earlier time is too old for a later one. -/
theorem recent_recent [IsOrderedAddMonoid K] {now later : K} (h : now ≤ later) :
    recent w later (recent w now times) = recent w later times := by
  rw [recent, recent, List.filter_filter]
  refine List.filter_congr fun t _ => ?_
  have : later - t < w → now - t < w := fun hl => (sub_le_sub_right h t).trans_lt hl
  simpa using this

/-- Fewer than `q` of the entries before each lie within `w` of it. -/
def Throttled (w : K) (q : Nat) (times : List K) : Prop :=
  ∀ before t after, times = before ++ t :: after → (recent w t before).length < q

theorem Throttled.of_append {times' : List K} (h : Throttled w q (times ++ times')) :
    Throttled w q times :=
  fun before t after he =>
    h before t (after ++ times') (by rw [he, List.append_assoc, List.cons_append])

/-- Two entries of the window are less than `w` apart, so at its last entry all the others were
recent. -/
theorem Throttled.countP_le {p : K → Bool} (h : Throttled w q times)
    (hp : ∀ s t, p s = true → p t = true → t - s < w) : times.countP p ≤ q := by
  induction times using List.reverseRecOn with
  | nil => simp
  | append_singleton before t ih =>
    rw [List.countP_append, List.countP_singleton]
    split
    · rename_i ht
      have hrecent : before.countP p ≤ (recent w t before).length := by
        rw [recent, ← List.countP_eq_length_filter]
        exact List.countP_mono_left fun s _ hps => by simpa using hp s t hps ht
      have := h before t [] rfl
      omega
    · exact ih h.of_append

end Framework
