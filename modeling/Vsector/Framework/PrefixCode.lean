import Mathlib

/-!
# Prefix codes

A code is a prefix code where a code word followed by anything says which word
it is and where it ends (`PrefixCode`). A sequence of such words with a stop
symbol after it, which begins no word, is read back in the same way
(`PrefixCode.flatMap_stop`), and a word of symbols of a class followed by a
symbol outside of it ends there (`takeWhile_unique`).
-/

namespace Framework

variable {α β : Type*}

def PrefixCode (f : α → List β) : Prop := ∀ a b s t, f a ++ s = f b ++ t → a = b ∧ s = t

/-- A code with a decoder. -/
theorem prefixCode_of_decode {f : α → List β} (decode : List β → Option (α × List β))
    (h : ∀ a s, decode (f a ++ s) = some (a, s)) : PrefixCode f := by
  intro a b s t he
  have hd := h a s
  rw [he, h b t, Option.some.injEq, Prod.mk.injEq] at hd
  exact ⟨hd.1.symm, hd.2.symm⟩

theorem PrefixCode.flatMap_stop {f : α → List β} (hf : PrefixCode f) {stop : β}
    (hs : ∀ a s t, f a ++ s ≠ stop :: t) :
    ∀ (l l' : List α) (s t : List β), l.flatMap f ++ stop :: s = l'.flatMap f ++ stop :: t →
      l = l' ∧ s = t := by
  intro l
  induction l with
  | nil =>
    intro l' s t h
    cases l' with
    | nil => exact ⟨rfl, List.cons_inj_right stop |>.mp h⟩
    | cons b l' =>
      rw [List.flatMap_cons, List.append_assoc] at h
      exact absurd h.symm (hs b _ _)
  | cons a l ih =>
    intro l' s t h
    cases l' with
    | nil =>
      rw [List.flatMap_cons, List.append_assoc] at h
      exact absurd h (hs a _ _)
    | cons b l' =>
      rw [List.flatMap_cons, List.flatMap_cons, List.append_assoc, List.append_assoc] at h
      obtain ⟨rfl, hrest⟩ := hf a b _ _ h
      obtain ⟨rfl, hst⟩ := ih l' s t hrest
      exact ⟨rfl, hst⟩

/-- A sequence of words that begins another one. -/
theorem PrefixCode.flatMap_prefix {f : α → List β} (hf : PrefixCode f) (hne : ∀ a, f a ≠ []) :
    ∀ (l l' : List α) (s : List β), l.flatMap f ++ s = l'.flatMap f →
      ∃ t, l ++ t = l' ∧ s = t.flatMap f := by
  intro l
  induction l with
  | nil => exact fun l' s h => ⟨l', rfl, h⟩
  | cons a l ih =>
    intro l' s h
    cases l' with
    | nil =>
      rw [List.flatMap_cons, List.append_assoc] at h
      exact absurd (List.append_eq_nil_iff.mp h).1 (hne a)
    | cons b l' =>
      rw [List.flatMap_cons, List.flatMap_cons, List.append_assoc] at h
      obtain ⟨rfl, hrest⟩ := hf a b _ _ h
      obtain ⟨t, rfl, hs⟩ := ih l' s hrest
      exact ⟨t, rfl, hs⟩

/-- Words that tell what they are for, in sequences where they have the same lengths. -/
theorem flatMap_inj_of_length {f : α → List β} (hf : Function.Injective f) {l l' : List α}
    (hl : List.Forall₂ (fun a b => (f a).length = (f b).length) l l')
    (h : l.flatMap f = l'.flatMap f) : l = l' := by
  induction hl with
  | nil => rfl
  | cons hlength _ ih =>
    rw [List.flatMap_cons, List.flatMap_cons] at h
    obtain ⟨hword, hrest⟩ := List.append_inj h hlength
    rw [hf hword, ih hrest]

/-- Words of symbols of a class, each followed by a symbol outside of it or by nothing. -/
theorem takeWhile_unique {p : β → Bool} {v w s t : List β} (hv : ∀ c ∈ v, p c = true)
    (hw : ∀ c ∈ w, p c = true) (hs : ∀ c ∈ s.head?, p c = false) (ht : ∀ c ∈ t.head?, p c = false)
    (h : v ++ s = w ++ t) : v = w ∧ s = t := by
  have hstop : ∀ l : List β, (∀ c ∈ l.head?, p c = false) → l.takeWhile p = [] := by
    intro l hl
    cases l with
    | nil => rfl
    | cons c l => rw [List.takeWhile_cons_of_neg (by rw [hl c rfl]; exact Bool.false_ne_true)]
  have htake := congrArg (List.takeWhile p) h
  rw [List.takeWhile_append_of_pos hv, List.takeWhile_append_of_pos hw, hstop s hs,
    hstop t ht, List.append_nil, List.append_nil] at htake
  subst htake
  exact ⟨rfl, List.append_cancel_left h⟩

end Framework
