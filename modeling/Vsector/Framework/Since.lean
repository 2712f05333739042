import Mathlib

/-!
# What has held since

Of a history of events: some event met `P`, and every later one met `Q`
(`Since P Q`). Where the state of a machine keeps something that an event put
there, this says which event that was and what cannot have happened after it;
a step adds one event to the history (`Since.snoc`, `Since.now`).
-/

namespace Framework

variable {E : Type*} {P P' Q Q' : E → Prop} {h : List E} {e : E}

/-- Some event of the history meets `P`, and all later ones meet `Q`. -/
def Since (P Q : E → Prop) (h : List E) : Prop :=
  ∃ before e later, h = before ++ e :: later ∧ P e ∧ ∀ x ∈ later, Q x

namespace Since

theorem now (he : P e) : Since P Q (h ++ [e]) :=
  ⟨h, e, [], rfl, he, fun _ hx => absurd hx List.not_mem_nil⟩

theorem snoc (hs : Since P Q h) (he : Q e) : Since P Q (h ++ [e]) := by
  obtain ⟨before, x, later, rfl, hx, hl⟩ := hs
  refine ⟨before, x, later ++ [e], by simp, hx, fun y hy => ?_⟩
  rcases List.mem_append.mp hy with hy | hy
  · exact hl y hy
  · rw [List.mem_singleton.mp hy]
    exact he

theorem mono (hs : Since P Q h) (hP : ∀ x ∈ h, P x → P' x) (hQ : ∀ x ∈ h, Q x → Q' x) :
    Since P' Q' h := by
  obtain ⟨before, x, later, rfl, hx, hl⟩ := hs
  exact ⟨before, x, later, rfl, hP x (by simp) hx, fun y hy => hQ y (by simp [hy]) (hl y hy)⟩

theorem exists_mem (hs : Since P Q h) : ∃ x ∈ h, P x := by
  obtain ⟨before, x, later, rfl, hx, -⟩ := hs
  exact ⟨x, by simp, hx⟩

end Since

end Framework
