import Mathlib

/-!
# Buffers emptied in batches

Writers of one log. What is handed on waits in the buffer of the last writer
(a `Slot`); a writer takes its buffer as a batch, which is in flight until it
is written, or takes and writes it at once. A `Discipline` says when a writer
may take (`T`), and how what was written and what is left then stand to what
was handed on (`Q`):

* `accounted`: whenever the writers take, nothing is lost and nothing is
  written twice.
* `inLine`: where they take in turn (`Turn`), nothing is out of order.
-/

namespace Framework

variable {α : Type*}

/-- What comes before the `i`-th of a list, it, and what comes after. -/
theorem exists_split {l : List α} {i : Nat} {a : α} (h : l[i]? = some a) :
    ∃ front back, front.length = i ∧ l = front ++ a :: back ∧
      ∀ b, l.set i b = front ++ b :: back := by
  obtain ⟨hi, rfl⟩ := List.getElem?_eq_some_iff.mp h
  refine ⟨l.take i, l.drop (i + 1), by rw [List.length_take]; omega, by simp, fun b => ?_⟩
  rw [List.set_eq_take_append_cons_drop, if_pos hi]

/-- A writer: its batch in flight, and its buffer. -/
structure Slot (α : Type*) where
  flight : List α
  waiting : List α

namespace Slot

/-- What a writer has still to write. -/
def left (q : Slot α) : List α := q.flight ++ q.waiting

/-- What all of them have, writer after writer. -/
def allLeft (qs : List (Slot α)) : List α := qs.flatMap left

theorem allLeft_append (qs qs' : List (Slot α)) : allLeft (qs ++ qs') = allLeft qs ++ allLeft qs' :=
  List.flatMap_append

@[simp] theorem allLeft_nil : allLeft ([] : List (Slot α)) = [] := rfl

@[simp] theorem allLeft_cons (q : Slot α) (qs : List (Slot α)) :
    allLeft (q :: qs) = q.flight ++ (q.waiting ++ allLeft qs) := by
  simp only [allLeft, List.flatMap_cons, left, List.append_assoc]

theorem allLeft_eq_nil {qs : List (Slot α)} (h : ∀ q ∈ qs, q.flight = [] ∧ q.waiting = []) :
    allLeft qs = [] := by
  refine List.flatMap_eq_nil_iff.mpr fun q hq => ?_
  rw [left, (h q hq).1, (h q hq).2, List.append_nil]

/-- The `i`-th may take: no batch is in flight, and no writer before it has anything to write. -/
def Turn (qs : List (Slot α)) (i : Nat) : Prop :=
  (∀ q ∈ qs, q.flight = []) ∧ ∀ q ∈ qs.take i, q.waiting = []

instance [DecidableEq α] (qs : List (Slot α)) (i : Nat) : Decidable (Turn qs i) :=
  inferInstanceAs (Decidable (_ ∧ _))

theorem Turn.of_getElem? {qs : List (Slot α)} {i j : Nat} {q : Slot α} (h : Turn qs i)
    (hj : qs[j]? = some q) : q.flight = [] ∧ (j < i → q.waiting = []) := by
  refine ⟨h.1 q (List.mem_of_getElem? hj), fun hlt => h.2 q ?_⟩
  refine List.mem_of_getElem? (i := j) ?_
  rw [List.getElem?_take_of_lt hlt, hj]

/-- Once the last writer has taken its buffer in turn and written it, nothing is left. -/
theorem Turn.allLeft_set_last {qs : List (Slot α)} {i : Nat} {q : Slot α} (h : Turn qs i)
    (hi : qs[i]? = some q) (hlast : qs.length = i + 1) :
    allLeft (qs.set i ⟨q.flight, []⟩) = [] := by
  obtain ⟨front, back, rfl, hqs, hset⟩ := exists_split hi
  have hback : back = [] := by
    have hl := congrArg List.length hqs
    simp only [List.length_append, List.length_cons] at hl
    exact List.length_eq_zero_iff.mp (by omega)
  rw [hset]
  refine allLeft_eq_nil fun r hr => ?_
  rcases List.mem_append.mp hr with hr | hr
  · have hmem : r ∈ qs := by rw [hqs]; exact List.mem_append_left _ hr
    exact ⟨h.1 r hmem, h.2 r (by rwa [hqs, List.take_left])⟩
  · rw [hback, List.mem_singleton] at hr
    rw [hr]
    exact ⟨h.1 q (List.mem_of_getElem? hi), rfl⟩

end Slot

open Slot

/-- What `Q` relates what was written (`w`) and what is left with what was handed on (`log`), and
`T` when a writer may take what waits. -/
structure Discipline (T : List (Slot α) → Nat → Prop)
    (Q : List (Slot α) → List α → List α → Prop) : Prop where
  start : ∀ w, Q [] w w
  /-- One more writer. -/
  add : ∀ {qs w log}, Q qs w log → Q (qs ++ [⟨[], []⟩]) w log
  /-- `a` is handed on. -/
  push : ∀ {qs b q w log} a, Q (qs ++ [⟨b, q⟩]) w log → Q (qs ++ [⟨b, q ++ [a]⟩]) w (log ++ [a])
  /-- The `i`-th writer takes its buffer. -/
  take : ∀ {qs i q w log}, qs[i]? = some ⟨[], q⟩ → q = [] ∨ T qs i → Q qs w log →
    Q (qs.set i ⟨q, []⟩) w log
  /-- It writes its batch. -/
  write : ∀ {qs i b q w log}, qs[i]? = some ⟨b, q⟩ → Q qs w log → Q (qs.set i ⟨[], q⟩) (w ++ b) log
  /-- It takes its buffer and writes it. -/
  flush : ∀ {qs i b q w log}, qs[i]? = some ⟨b, q⟩ → q = [] ∨ T qs i → Q qs w log →
    Q (qs.set i ⟨b, []⟩) (w ++ q) log

/-! ## Nothing is lost -/

/-- What was written and what is left is what was handed on. -/
def Accounted (qs : List (Slot α)) (w log : List α) : Prop := (w ++ allLeft qs).Perm log

/-- Whenever the writers take, nothing is lost. -/
theorem accounted : Discipline (fun _ _ => True) (Accounted (α := α)) where
  start w := by simp [Accounted]
  add h := by simpa [Accounted, allLeft_append] using h
  push a h := by
    have h' := h.append_right [a]
    simpa [Accounted, allLeft_append, List.append_assoc] using h'
  take {qs i q w log} hi _ h := by
    obtain ⟨front, back, -, hqs, hset⟩ := exists_split hi
    rw [hqs] at h
    rw [hset]
    simpa [Accounted, allLeft_append] using h
  write {qs i b q w log} hi h := by
    obtain ⟨front, back, -, hqs, hset⟩ := exists_split hi
    rw [hqs] at h
    rw [hset]
    refine List.Perm.trans ?_ h
    simp only [allLeft_append, allLeft_cons, List.nil_append, List.append_assoc]
    exact (List.perm_append_comm_assoc _ _ _).append_left w
  flush {qs i b q w log} hi _ h := by
    obtain ⟨front, back, -, hqs, hset⟩ := exists_split hi
    rw [hqs] at h
    rw [hset]
    refine List.Perm.trans ?_ h
    simp only [allLeft_append, allLeft_cons, List.nil_append, List.append_assoc]
    refine List.Perm.append_left w ((List.perm_append_comm_assoc _ _ _).trans ?_)
    exact (List.perm_append_comm_assoc _ _ _).append_left _

/-! ## Nothing is out of order -/

/-- What was written and what is left is what was handed on, in its order; and a batch in flight is
the only one, with nothing waiting before it. -/
structure InLine (qs : List (Slot α)) (w log : List α) : Prop where
  eq : w ++ allLeft qs = log
  alone : ∀ {i j : Nat} {q r : Slot α}, qs[i]? = some q → q.flight ≠ [] → qs[j]? = some r → i ≠ j →
    r.flight = [] ∧ (j < i → r.waiting = [])

/-- The writers before one that has a batch in flight have nothing left. -/
theorem InLine.front_eq_nil {qs front back : List (Slot α)} {q : Slot α} {w log : List α}
    (h : InLine qs w log) (hqs : qs = front ++ q :: back) (hq : q.flight ≠ []) :
    allLeft front = [] := by
  refine allLeft_eq_nil fun r hr => ?_
  obtain ⟨j, hj, rfl⟩ := List.getElem_of_mem hr
  have hi : qs[front.length]? = some q := by simp [hqs]
  have hr : qs[j]? = some front[j] := by simp [hqs, List.getElem?_append_left hj, hj]
  obtain ⟨hf, hw⟩ := h.alone hi hq hr (by omega)
  exact ⟨hf, hw hj⟩

theorem getElem?_set_cases {qs : List (Slot α)} {i j : Nat} {q r : Slot α}
    (h : (qs.set i q)[j]? = some r) : j = i ∧ r = q ∨ j ≠ i ∧ qs[j]? = some r := by
  by_cases hij : i = j
  · subst hij
    rw [List.getElem?_set_self'] at h
    rcases hq : qs[i]? with _ | p <;> simp [hq] at h
    exact .inl ⟨rfl, h.symm⟩
  · rw [List.getElem?_set_ne hij] at h
    exact .inr ⟨Ne.symm hij, h⟩

/-- A writer that has no batch in flight afterwards, and waits with no more than it did. -/
theorem InLine.alone_set {qs : List (Slot α)} {w log : List α} (h : InLine qs w log) {i : Nat}
    {q : Slot α} (q' : Slot α) (hq : qs[i]? = some q) (hf : q'.flight = [] ∨ q'.flight = q.flight)
    (hw : q.waiting = [] → q'.waiting = []) {j k : Nat} {r p : Slot α}
    (hj : (qs.set i q')[j]? = some r) (hr : r.flight ≠ []) (hk : (qs.set i q')[k]? = some p)
    (hne : j ≠ k) : p.flight = [] ∧ (k < j → p.waiting = []) := by
  rcases getElem?_set_cases hj with ⟨rfl, rfl⟩ | ⟨-, hold⟩
  · rcases getElem?_set_cases hk with ⟨rfl, -⟩ | ⟨-, hk⟩
    · exact absurd rfl hne
    · rcases hf with hf | hf
      · exact absurd hf hr
      · exact h.alone hq (hf ▸ hr) hk hne
  · rcases getElem?_set_cases hk with ⟨rfl, rfl⟩ | ⟨-, hk⟩
    · have hother := h.alone hold hr hq hne
      exact ⟨hf.elim id fun hf => hf.trans hother.1, fun hlt => hw (hother.2 hlt)⟩
    · exact h.alone hold hr hk hne

/-- In turn, what is taken first is written first. -/
theorem inLine : Discipline Turn (InLine (α := α)) where
  start w := ⟨by simp, fun hi => by simp at hi⟩
  add {qs w log} h := by
    have hold : ∀ {k : Nat} {p : Slot α}, (qs ++ [(⟨[], []⟩ : Slot α)])[k]? = some p →
        qs[k]? = some p ∨ p = (⟨[], []⟩ : Slot α) := fun {k p} hk => by
      rw [List.getElem?_append] at hk
      split at hk
      · exact .inl hk
      · exact .inr (List.mem_singleton.mp (List.mem_of_getElem? hk))
    refine ⟨by simpa [allLeft_append] using h.eq, fun {i j q r} hi hq hj hne => ?_⟩
    rcases hold hi with hi | rfl
    · rcases hold hj with hj | rfl
      · exact h.alone hi hq hj hne
      · exact ⟨rfl, fun _ => rfl⟩
    · exact absurd rfl hq
  push {qs b q w log} a h := by
    have hlast : (qs ++ [(⟨b, q⟩ : Slot α)])[qs.length]? = some ⟨b, q⟩ := by simp
    have hset : qs ++ [(⟨b, q ++ [a]⟩ : Slot α)] =
        (qs ++ [(⟨b, q⟩ : Slot α)]).set qs.length ⟨b, q ++ [a]⟩ := by simp
    refine ⟨by simp [← h.eq, allLeft_append], fun {i j p r} hi hp hj hne => ?_⟩
    have hi' : i < qs.length + 1 := by simpa using (List.getElem?_eq_some_iff.mp hi).1
    rw [hset] at hi hj
    rcases getElem?_set_cases hj with ⟨rfl, rfl⟩ | ⟨-, hj⟩
    · rcases getElem?_set_cases hi with ⟨rfl, -⟩ | ⟨-, hi⟩
      · exact absurd rfl hne
      · exact ⟨(h.alone hi hp hlast hne).1, fun hlt => by omega⟩
    · rcases getElem?_set_cases hi with ⟨rfl, rfl⟩ | ⟨-, hi⟩
      · exact h.alone hlast hp hj hne
      · exact h.alone hi hp hj hne
  take {qs i q w log} hi ht h := by
    obtain ⟨front, back, rfl, hqs, hset⟩ := exists_split hi
    refine ⟨?_, fun {j k p r} hj hp hk hne => ?_⟩
    · rw [hset, ← h.eq, hqs]
      simp [allLeft_append]
    · rcases ht with rfl | ht
      · exact h.alone_set _ hi (.inl rfl) (fun _ => rfl) hj hp hk hne
      · rcases getElem?_set_cases hj with ⟨rfl, rfl⟩ | ⟨-, hj⟩
        · rcases getElem?_set_cases hk with ⟨rfl, -⟩ | ⟨-, hk⟩
          · exact absurd rfl hne
          · exact ⟨ht.1 r (List.mem_of_getElem? hk), fun hlt => (ht.of_getElem? hk).2 hlt⟩
        · exact absurd (ht.1 p (List.mem_of_getElem? hj)) hp
  write {qs i b q w log} hi h := by
    obtain ⟨front, back, rfl, hqs, hset⟩ := exists_split hi
    refine ⟨?_, fun hj hp hk hne => h.alone_set ⟨[], q⟩ hi (.inl rfl) id hj hp hk hne⟩
    rw [hset, ← h.eq, hqs]
    rcases b with _ | ⟨a, b⟩
    · simp [allLeft_append]
    · have hfront := h.front_eq_nil hqs (by simp)
      simp [allLeft_append, hfront]
  flush {qs i b q w log} hi ht h := by
    obtain ⟨front, back, rfl, hqs, hset⟩ := exists_split hi
    refine ⟨?_, fun hj hp hk hne => h.alone_set ⟨b, []⟩ hi (.inr rfl) (fun _ => rfl) hj hp hk hne⟩
    rw [hset, ← h.eq, hqs]
    rcases ht with rfl | ht
    · simp [allLeft_append]
    · have hb : b = [] := ht.1 _ (List.mem_of_getElem? hi)
      have hfront : allLeft front = [] := by
        refine allLeft_eq_nil fun r hr => ?_
        have hmem : r ∈ qs := by rw [hqs]; exact List.mem_append_left _ hr
        exact ⟨ht.1 r hmem, ht.2 r (by rwa [hqs, List.take_left])⟩
      simp [allLeft_append, hb, hfront]

end Framework
