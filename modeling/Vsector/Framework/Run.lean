import Mathlib

/-!
# Runs of machines

A machine is a partial step function: `step s l` is the state after `l`, or
`none` where `l` cannot be taken. A run takes a list of labels (`run`), and
`Along step C s ls` says that every label of the run from `s` meets the
condition `C` in the state it is taken from. `invariant` and
`invariant_history` package the induction along a run once: what every step
under the condition keeps, every such run keeps.
-/

namespace Framework

variable {S L : Type*} {step : S → L → Option S} {C : S → L → Prop}

/-- The state a run ends in. -/
def run (step : S → L → Option S) : S → List L → Option S
  | s, [] => some s
  | s, l :: ls => (step s l).bind fun t => run step t ls

/-- Every label of the run from `s` meets `C` in the state it is taken from. -/
def Along (step : S → L → Option S) (C : S → L → Prop) : S → List L → Prop
  | _, [] => True
  | s, l :: ls => C s l ∧ ∀ t, step s l = some t → Along step C t ls

@[simp] theorem run_nil (s : S) : run step s [] = some s := rfl

theorem run_cons_eq_some {s u : S} {l : L} {ls : List L} :
    run step s (l :: ls) = some u ↔ ∃ t, step s l = some t ∧ run step t ls = some u := by
  simp only [run, Option.bind_eq_some_iff]

theorem run_append (s : S) (ls ls' : List L) :
    run step s (ls ++ ls') = (run step s ls).bind fun t => run step t ls' := by
  induction ls generalizing s with
  | nil => rfl
  | cons l ls ih =>
    simp only [List.cons_append, run, Option.bind_assoc]
    exact congrArg _ (funext fun t => ih t)

theorem run_append_eq_some {s u : S} {ls ls' : List L} :
    run step s (ls ++ ls') = some u ↔ ∃ t, run step s ls = some t ∧ run step t ls' = some u := by
  rw [run_append, Option.bind_eq_some_iff]

theorem Along.mono {C' : S → L → Prop} (h : ∀ s l, C s l → C' s l) {s : S} {ls : List L}
    (hs : Along step C s ls) : Along step C' s ls := by
  induction ls generalizing s with
  | nil => trivial
  | cons l ls ih => exact ⟨h _ _ hs.1, fun t ht => ih (hs.2 t ht)⟩

theorem Along.append {s : S} {ls ls' : List L} (h : Along step C s (ls ++ ls')) :
    Along step C s ls ∧ ∀ t, run step s ls = some t → Along step C t ls' := by
  induction ls generalizing s with
  | nil => exact ⟨trivial, fun t ht => by cases ht; exact h⟩
  | cons l ls ih =>
    refine ⟨⟨h.1, fun t ht => (ih (h.2 t ht)).1⟩, fun u hu => ?_⟩
    obtain ⟨t, ht, hu⟩ := run_cons_eq_some.mp hu
    exact (ih (h.2 t ht)).2 u hu

instance decidableAlong [∀ s l, Decidable (C s l)] :
    ∀ (s : S) (ls : List L), Decidable (Along step C s ls)
  | _, [] => .isTrue trivial
  | s, l :: ls =>
    match h : step s l with
    | none => decidable_of_iff (C s l) (by simp [Along, h])
    | some t =>
      have := decidableAlong t ls
      decidable_of_iff (C s l ∧ Along step C t ls) (by simp [Along, h])

/-- What every step under the condition keeps, a run under it keeps. -/
theorem invariant {I : S → Prop}
    (hstep : ∀ s l t, I s → C s l → step s l = some t → I t) {s t : S} {ls : List L}
    (hs : I s) (hc : Along step C s ls) (hr : run step s ls = some t) : I t := by
  induction ls generalizing s with
  | nil => cases hr; exact hs
  | cons l ls ih =>
    obtain ⟨u, hu, hr⟩ := run_cons_eq_some.mp hr
    exact ih (hstep s l u hs hc.1 hu) (hc.2 u hu) hr

/-- `invariant` for a relation between the labels taken so far and the state. -/
theorem invariant_history {I : List L → S → Prop}
    (hstep : ∀ h s l t, I h s → C s l → step s l = some t → I (h ++ [l]) t) {h₀ : List L} {s t : S}
    {ls : List L} (hs : I h₀ s) (hc : Along step C s ls) (hr : run step s ls = some t) :
    I (h₀ ++ ls) t := by
  induction ls generalizing s h₀ with
  | nil => cases hr; simpa using hs
  | cons l ls ih =>
    obtain ⟨u, hu, hr⟩ := run_cons_eq_some.mp hr
    have := ih (hstep h₀ s l u hs hc.1 hu) (hc.2 u hu) hr
    rwa [List.append_assoc] at this

/-- A condition that follows from an invariant and another condition holds along a run wherever
that does. -/
theorem Along.of_invariant {D : S → L → Prop} {I : S → Prop} (hD : ∀ s l, I s → C s l → D s l)
    (hstep : ∀ s l t, I s → C s l → step s l = some t → I t) {s : S} {ls : List L} (hs : I s)
    (hc : Along step C s ls) : Along step D s ls := by
  induction ls generalizing s with
  | nil => trivial
  | cons l ls ih => exact ⟨hD s l hs hc.1, fun t ht => ih (hstep s l t hs hc.1 ht) (hc.2 t ht)⟩

theorem Along.of_forall (h : ∀ s l, C s l) (s : S) (ls : List L) : Along step C s ls := by
  induction ls generalizing s with
  | nil => trivial
  | cons l ls ih => exact ⟨h s l, fun t _ => ih t⟩

theorem Along.of_mem {s : S} {ls : List L} (h : ∀ l ∈ ls, ∀ s, C s l) : Along step C s ls := by
  induction ls generalizing s with
  | nil => trivial
  | cons l ls ih =>
    exact ⟨h l List.mem_cons_self s, fun t _ => ih fun l' hl' => h l' (List.mem_cons_of_mem _ hl')⟩

theorem Along.and {D : S → L → Prop} {s : S} {ls : List L} (hc : Along step C s ls)
    (hd : Along step D s ls) :
    Along step (fun s l => C s l ∧ D s l) s ls := by
  induction ls generalizing s with
  | nil => trivial
  | cons l ls ih => exact ⟨⟨hc.1, hd.1⟩, fun t ht => ih (hc.2 t ht) (hd.2 t ht)⟩

/-- Every label of a run can be taken. -/
theorem along_isSome {s t : S} {ls : List L} (hr : run step s ls = some t) :
    Along step (fun s l => (step s l).isSome) s ls := by
  induction ls generalizing s with
  | nil => trivial
  | cons l ls ih =>
    obtain ⟨u, hu, hr⟩ := run_cons_eq_some.mp hr
    refine ⟨Option.isSome_iff_exists.mpr ⟨u, hu⟩, fun v hv => ?_⟩
    rw [hu] at hv
    cases hv
    exact ih hr

/-- Two conditions hold along the same runs where they are the same under an invariant, which the
second keeps. -/
theorem Along.iff_of_invariant {D D' : S → L → Prop} {I : S → Prop}
    (hD : ∀ s l, I s → C s l → (D s l ↔ D' s l))
    (hstep : ∀ s l t, I s → C s l → D' s l → step s l = some t → I t) {s : S} {ls : List L}
    (hs : I s) (hc : Along step C s ls) : Along step D s ls ↔ Along step D' s ls := by
  induction ls generalizing s with
  | nil => exact Iff.rfl
  | cons l ls ih =>
    have hl := hD s l hs hc.1
    constructor
    · intro h
      have hd := hl.mp h.1
      exact ⟨hd, fun t ht => (ih (hstep s l t hs hc.1 hd ht) (hc.2 t ht)).mp (h.2 t ht)⟩
    · intro h
      exact ⟨hl.mpr h.1, fun t ht => (ih (hstep s l t hs hc.1 h.1 ht) (hc.2 t ht)).mpr (h.2 t ht)⟩

/-- A total step function as a machine. -/
def total (f : S → L → S) : S → L → Option S := fun s l => some (f s l)

theorem run_total (f : S → L → S) (s : S) (ls : List L) :
    run (total f) s ls = some (ls.foldl f s) := by
  induction ls generalizing s with
  | nil => rfl
  | cons l ls ih => exact ih (f s l)

/-- `invariant_history` for a total step function. -/
theorem foldl_invariant {f : S → L → S} {I : List L → S → Prop}
    (hstep : ∀ h s l, I h s → C s l → I (h ++ [l]) (f s l)) {s : S} {ls : List L}
    (hs : I [] s) (hc : Along (total f) C s ls) : I ls (ls.foldl f s) := by
  have hI : I ([] ++ ls) (ls.foldl f s) := invariant_history
    (fun h s l t hi hc ht => by cases ht; exact hstep h s l hi hc) hs hc (run_total f s ls)
  simpa using hI

/-! ## Trails

What is seen of a run may be finer than its states: `passed s l` is what the
step `l` from `s` passes through, and the trail of a run all of that. -/

/-- `l` leads from `a` to `b` by `R`-steps. -/
def Path {X : Type*} (R : X → X → Prop) : X → List X → X → Prop
  | a, [], b => b = a
  | a, x :: l, b => R a x ∧ Path R x l b

section

variable {X : Type*} {R R' : X → X → Prop} {a b c : X} {l l' : List X}

theorem Path.append (h : Path R a l b) (h' : Path R b l' c) : Path R a (l ++ l') c := by
  induction l generalizing a with
  | nil => cases h; exact h'
  | cons x l ih => exact ⟨h.1, ih h.2⟩

/-- The two parts of a path, where the first is known to lead to `b`. -/
theorem Path.split (h : Path R a (l ++ l') c) (hb : Path R' a l b) :
    Path R a l b ∧ Path R b l' c := by
  induction l generalizing a with
  | nil => cases hb; exact ⟨rfl, h⟩
  | cons x l ih =>
    obtain ⟨hl, hl'⟩ := ih h.2 hb.2
    exact ⟨⟨h.1, hl⟩, hl'⟩

theorem Path.mono (h : ∀ a b, R a b → R' a b) (hp : Path R a l b) : Path R' a l b := by
  induction l generalizing a with
  | nil => exact hp
  | cons x l ih => exact ⟨h _ _ hp.1, ih hp.2⟩

/-- What holds at the start of a path and is kept by each step holds at its end, and on the way. -/
theorem Path.keeps {I : X → Prop} (hI : ∀ a b, R a b → I a → I b) (h : Path R a l b) (ha : I a) :
    (∀ x ∈ l, I x) ∧ I b := by
  induction l generalizing a with
  | nil => cases h; exact ⟨fun _ hx => absurd hx List.not_mem_nil, ha⟩
  | cons x l ih =>
    have hx := hI a x h.1 ha
    obtain ⟨hl, hb⟩ := ih h.2 hx
    exact ⟨List.forall_mem_cons.mpr ⟨hx, hl⟩, hb⟩

/-- Where nothing changes. -/
theorem Path.const (hR : R a a) (hl : ∀ x ∈ l, x = a) (hb : b = a) : Path R a l b := by
  induction l with
  | nil => exact hb
  | cons x l ih =>
    obtain ⟨rfl, hl⟩ := List.forall_mem_cons.mp hl
    exact ⟨hR, ih hl⟩

theorem Path.isChain (h : Path R a l b) : (a :: l).IsChain R := by
  induction l generalizing a with
  | nil => exact List.isChain_singleton _
  | cons x l ih => exact List.isChain_cons_cons.mpr ⟨h.1, ih h.2⟩

theorem Path.of_isChain (hb : Path R' a l b) (h : (a :: l).IsChain R) : Path R a l b := by
  induction l generalizing a with
  | nil => exact hb
  | cons x l ih =>
    obtain ⟨hx, hl⟩ := List.isChain_cons_cons.mp h
    exact ⟨hx, ih hb.2 hl⟩

/-- What a run passes through. -/
def trail (step : S → L → Option S) (passed : S → L → List X) : S → List L → List X
  | _, [] => []
  | s, l :: ls => passed s l ++ ((step s l).map fun t => trail step passed t ls).getD []

variable {passed : S → L → List X} {view : S → X}

/-- A run leads from state to state by what each step passes through. -/
theorem path_trail {I : S → Prop}
    (hstep : ∀ s l t, I s → step s l = some t → Path R (view s) (passed s l) (view t) ∧ I t)
    {s t : S} {ls : List L} (hs : I s) (hr : run step s ls = some t) :
    Path R (view s) (trail step passed s ls) (view t) := by
  induction ls generalizing s with
  | nil => cases hr; rfl
  | cons l ls ih =>
    obtain ⟨u, hu, hr⟩ := run_cons_eq_some.mp hr
    obtain ⟨hpath, hi⟩ := hstep s l u hs hu
    rw [trail, hu]
    exact hpath.append (ih hi hr)

/-- A run goes by `R`-steps exactly if each of its labels meets the condition under which that
label does. -/
theorem path_trail_iff (hview : ∀ s l t, step s l = some t → Path R' (view s) (passed s l) (view t))
    (hstep : ∀ s l t, step s l = some t → (Path R (view s) (passed s l) (view t) ↔ C s l)) {s t : S}
    {ls : List L} (hr : run step s ls = some t) :
    Path R (view s) (trail step passed s ls) (view t) ↔ Along step C s ls := by
  induction ls generalizing s with
  | nil => cases hr; exact ⟨fun _ => trivial, fun _ => rfl⟩
  | cons l ls ih =>
    obtain ⟨u, hu, hr⟩ := run_cons_eq_some.mp hr
    rw [trail, hu]
    constructor
    · intro h
      obtain ⟨hl, hls⟩ := h.split (hview s l u hu)
      refine ⟨(hstep s l u hu).mp hl, fun v hv => ?_⟩
      rw [hu] at hv
      cases hv
      exact (ih hr).mp hls
    · intro h
      exact ((hstep s l u hu).mpr h.1).append ((ih hr).mpr (h.2 u hu))

end

/-! ## Loops -/

/-- A loop whose body may raise: it stops at the first exception, in the state reached. -/
def forEach {ε : Type*} (f : S → L → S × Except ε Unit) : S → List L → S × Except ε Unit
  | s, [] => (s, .ok ())
  | s, l :: ls =>
    match f s l with
    | (t, .ok ()) => forEach f t ls
    | (t, .error e) => (t, .error e)

/-- What the body keeps for every item, the loop keeps, whether or not it is left by an
exception. -/
theorem forEach_invariant {ε : Type*} {f : S → L → S × Except ε Unit} {I : S → Prop} {ls : List L}
    {s : S} (hs : I s) (h : ∀ l ∈ ls, ∀ t, I t → I (f t l).1) : I (forEach f s ls).1 := by
  induction ls generalizing s with
  | nil => exact hs
  | cons l ls ih =>
    have hl := h l List.mem_cons_self s hs
    rw [forEach]
    rcases hf : f s l with ⟨t, exc | ⟨⟩⟩
    · rw [hf] at hl
      exact hl
    · rw [hf] at hl
      exact ih hl fun a ha => h a (List.mem_cons_of_mem _ ha)

/-- A loop over two lists in turn: the first raises, and that is the end, or the second goes on
from where it ended. -/
theorem forEach_append {ε : Type*} (f : S → L → S × Except ε Unit) (s : S) (ls ls' : List L) :
    (∃ t e, forEach f s ls = (t, .error e) ∧ forEach f s (ls ++ ls') = (t, .error e)) ∨
      ∃ t, forEach f s ls = (t, .ok ()) ∧ forEach f s (ls ++ ls') = forEach f t ls' := by
  induction ls generalizing s with
  | nil => exact .inr ⟨s, rfl, rfl⟩
  | cons l ls ih =>
    simp only [List.cons_append, forEach]
    rcases f s l with ⟨t, e | ⟨⟩⟩
    · exact .inl ⟨t, e, rfl, rfl⟩
    · exact ih t

end Framework
