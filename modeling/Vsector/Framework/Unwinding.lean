import Vsector.Framework.Refinement
import Vsector.Framework.Run

/-!
# What one domain can tell of the others

Every call of a machine is one of some domain. The calls of other domains make
no difference to what a domain is answered if they leave alone what it sees of
the state, and if from states of which it sees the same its own calls are
answered the same and end in such states again (`Unwinds`): then its answers
are those of the run without the others (`Unwinds.seen_eq`). Blocks that may
raise are compared in two states at once (`SameOutcome`).
-/

namespace Framework

variable {S S' L O V D : Type*}

/-! ## Two runs of a block -/

section

variable {ε α β : Type*} {R : S → S' → Prop} {A : α → β → Prop}

/-- Both blocks return, with related values, or both raise the same; they end in related states. -/
def SameOutcome (R : S → S' → Prop) (A : α → β → Prop) : S × Except ε α → S' × Except ε β → Prop
  | (s, .ok a), (s', .ok b) => R s s' ∧ A a b
  | (s, .error e), (s', .error e') => R s s' ∧ e = e'
  | _, _ => False

theorem SameOutcome.state {p : S × Except ε α} {p' : S' × Except ε β} (h : SameOutcome R A p p') :
    R p.1 p'.1 := by
  obtain ⟨s, e | a⟩ := p <;> obtain ⟨s', e' | b⟩ := p'
  · exact h.1
  · exact h.elim
  · exact h.elim
  · exact h.1

/-- The results have one image. -/
theorem SameOutcome.map_eq {γ : Type*} {f : α → γ} {g : β → γ} {p : S × Except ε α}
    {p' : S' × Except ε β} (h : SameOutcome R (fun a b => g b = f a) p p') :
    p.2.map f = p'.2.map g := by
  obtain ⟨s, e | a⟩ := p <;> obtain ⟨s', e' | b⟩ := p'
  · exact congrArg Except.error h.2
  · exact h.elim
  · exact h.elim
  · exact congrArg Except.ok h.2.symm

theorem SameOutcome.result_eq {p : S × Except ε α} {p' : S' × Except ε α}
    (h : SameOutcome R (fun a b => b = a) p p') :
    p.2 = p'.2 := by
  obtain ⟨s, e | a⟩ := p <;> obtain ⟨s', e' | b⟩ := p'
  · exact congrArg Except.error h.2
  · exact h.elim
  · exact h.elim
  · exact congrArg Except.ok h.2.symm

/-- A loop over a block, in two states at once. -/
theorem sameOutcome_forEach {f : S → L → S × Except ε Unit} {f' : S' → L → S' × Except ε Unit}
    {ls : List L} (h : ∀ l ∈ ls, ∀ s s', R s s' → SameOutcome R (fun _ _ => True) (f s l) (f' s' l))
    {s : S} {s' : S'} (hs : R s s') :
    SameOutcome R (fun _ _ => True) (forEach f s ls) (forEach f' s' ls) := by
  induction ls generalizing s s' with
  | nil => exact ⟨hs, trivial⟩
  | cons l ls ih =>
    have hl := h l List.mem_cons_self s s' hs
    rw [forEach, forEach]
    rcases hf : f s l with ⟨t, e | ⟨⟩⟩ <;> rcases hf' :
      f' s' l with ⟨t', e' | ⟨⟩⟩ <;> rw [hf, hf'] at hl
    · exact hl
    · exact hl.elim
    · exact hl.elim
    · exact ih (fun a ha => h a (List.mem_cons_of_mem _ ha)) hl.1

end

/-! ## Domains -/

variable [DecidableEq D] {step : S → L → S × O} {dom : L → D} {see : O → V}
  {Alike : D → S → S → Prop} {C : L → Prop}

/-- What a domain sees of the answers to a run of calls: those to its own. -/
def seen (step : S → L → S × O) (dom : L → D) (see : O → V) (n : D) : S → List L → List V
  | _, [] => []
  | s, l :: ls =>
    if dom l = n then see (step s l).2 :: seen step dom see n (step s l).1 ls
      else seen step dom see n (step s l).1 ls

/-- Of a run of its own calls a domain sees all answers. -/
theorem seen_own {n : D} {ls : List L} (h : ∀ l ∈ ls, dom l = n) (s : S) :
    seen step dom id n s ls = answers step s ls := by
  induction ls generalizing s with
  | nil => rfl
  | cons l ls ih =>
    rw [seen, if_pos (h l List.mem_cons_self), answers, ih fun a ha =>
      h a (List.mem_cons_of_mem _ ha)]
    rfl

/-- `Alike n` relates states of which the domain `n` sees the same. -/
structure Unwinds (step : S → L → S × O) (dom : L → D) (see : O → V) (Alike : D → S → S → Prop)
    (C : L → Prop) : Prop where
  respects : ∀ n s s' l, C l → dom l ≠ n → Alike n s s' → Alike n (step s l).1 s'
  consistent : ∀ s s' l, C l → Alike (dom l) s s' →
    Alike (dom l) (step s l).1 (step s' l).1 ∧ see (step s l).2 = see (step s' l).2

/-- A domain sees the same without the calls of the others, and in the end too. -/
theorem Unwinds.seen_eq (h : Unwinds step dom see Alike C) {n : D} {ls : List L}
    (hc : ∀ l ∈ ls, C l) {s s' : S} (hs : Alike n s s') :
    seen step dom see n s ls = seen step dom see n s' (ls.filter fun l => dom l = n) ∧
      Alike n (afterCalls step s ls) (afterCalls step s' (ls.filter fun l => dom l = n)) := by
  induction ls generalizing s s' with
  | nil => exact ⟨rfl, hs⟩
  | cons l ls ih =>
    have hrest := fun l' hl' => hc l' (List.mem_cons_of_mem _ hl')
    by_cases hl : dom l = n
    · subst hl
      obtain ⟨hnext, hsee⟩ := h.consistent s s' l (hc l List.mem_cons_self) hs
      obtain ⟨hseen, hlast⟩ := ih hrest hnext
      have hfilter : (l :: ls).filter (fun l' => dom l' = dom l) = l ::
          ls.filter (fun l' => dom l' = dom l) :=
        List.filter_cons_of_pos (decide_eq_true rfl)
      rw [hfilter, seen, if_pos rfl, seen, if_pos rfl, hsee, hseen]
      exact ⟨rfl, hlast⟩
    · have hfilter : (l :: ls).filter (fun l' => dom l' = n) = ls.filter fun l' => dom l' = n :=
        List.filter_cons_of_neg fun h => hl (of_decide_eq_true h)
      rw [hfilter, seen, if_neg hl]
      exact ih hrest (h.respects n s s' l (hc l List.mem_cons_self) hl hs)

end Framework
