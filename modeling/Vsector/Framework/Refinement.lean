import Mathlib

/-!
# Machines that answer

A machine takes calls one after the other and answers each (`answers`). Two
machines whose states are related, and stay so call by call while their
answers agree, answer every run of calls alike (`answers_related`): that is
all a refinement, or the equivalence of two implementations of one
interface, has to show.
-/

namespace Framework

variable {S S' L O O' : Type*}

/-- The answers to a run of calls. -/
def answers (step : S → L → S × O) : S → List L → List O
  | _, [] => []
  | s, l :: ls => (step s l).2 :: answers step (step s l).1 ls

/-- The state a run of calls ends in. -/
def afterCalls (step : S → L → S × O) (s : S) (ls : List L) : S :=
  ls.foldl (fun s l => (step s l).1) s

@[simp] theorem length_answers (step : S → L → S × O) (s : S) (ls : List L) :
    (answers step s ls).length = ls.length := by
  induction ls generalizing s with
  | nil => rfl
  | cons l ls ih => exact congrArg (· + 1) (ih _)

variable {R : S → S' → Prop} {A : L → O → O' → Prop} {C : L → Prop}

/-- Calls that keep two states related, and are answered alike, are answered alike in every run. -/
theorem answers_related (step : S → L → S × O) (step' : S' → L → S' × O') (ls : List L)
    (hstep : ∀ s s' l, C l → R s s' → A l (step s l).2 (step' s' l).2 ∧
      R (step s l).1 (step' s' l).1)
    {s : S} {s' : S'} (hs : R s s') (hc : ∀ l ∈ ls, C l) :
    (∀ (i : ℕ) (l : L) (o : O) (o' : O'), ls[i]? = some l → (answers step s ls)[i]? = some o →
      (answers step' s' ls)[i]? = some o' → A l o o') ∧
      R (afterCalls step s ls) (afterCalls step' s' ls) := by
  induction ls generalizing s s' with
  | nil => exact ⟨fun i l o o' hl => by simp at hl, hs⟩
  | cons l ls ih =>
    obtain ⟨ha, hr⟩ := hstep s s' l (hc l List.mem_cons_self) hs
    obtain ⟨hanswers, hafter⟩ := ih hr fun l' hl' => hc l' (List.mem_cons_of_mem _ hl')
    refine ⟨fun i l' o o' hl ho ho' => ?_, hafter⟩
    cases i with
    | zero =>
      cases hl
      cases ho
      cases ho'
      exact ha
    | succ i => exact hanswers i l' o o' hl ho ho'

/-- What every call keeps, a run of calls keeps. -/
theorem afterCalls_invariant {I : S → Prop} (step : S → L → S × O) (ls : List L)
    (hstep : ∀ s l, C l → I s → I (step s l).1) {s : S} (hs : I s) (hc : ∀ l ∈ ls, C l) :
    I (afterCalls step s ls) := by
  induction ls generalizing s with
  | nil => exact hs
  | cons l ls ih =>
    exact ih (hstep s l (hc l List.mem_cons_self) hs) fun l' hl' =>
      hc l' (List.mem_cons_of_mem _ hl')

end Framework
