import Vsector.Framework.Run

/-!
# Procedures that may be cut off

A procedure changes a state step by step, and ends with a result or an
exception. A process that runs it may die after any of its changes: `points`
are the states it passes through, where a crash may leave it. `Sat p s C Q`
says that `C` holds at every point of `p` from `s`, and `Q` where it ends; the
rules below give it for each construct, so that a procedure is checked by
rewriting with them.
-/

namespace Framework

/-- What a procedure does from one state. -/
structure Outcome (σ ε α : Type) where
  points : List σ
  final : σ
  result : Except ε α

def Proc (σ ε α : Type) : Type := σ → Outcome σ ε α

namespace Proc

variable {σ τ ε ε' α β : Type}

def pure (a : α) : Proc σ ε α := fun s => ⟨[], s, .ok a⟩

def throw (e : ε) : Proc σ ε α := fun s => ⟨[], s, .error e⟩

def bind (p : Proc σ ε α) (f : α → Proc σ ε β) : Proc σ ε β := fun s =>
  match p s with
  | ⟨points, t, .error e⟩ => ⟨points, t, .error e⟩
  | ⟨points, t, .ok a⟩ =>
    match f a t with
    | ⟨points', u, r⟩ => ⟨points ++ points', u, r⟩

instance : Monad (Proc σ ε) where
  pure := Proc.pure
  bind := Proc.bind

/-- The state. -/
def get : Proc σ ε σ := fun s => ⟨[], s, .ok s⟩

/-- One change, after which the process may die. -/
def change (f : σ → σ) : Proc σ ε Unit := fun s => ⟨[f s], f s, .ok ()⟩

def ofExcept (r : Except ε α) : Proc σ ε α := fun s => ⟨[], s, r⟩

/-- What `p` raises is returned. -/
def attempt (p : Proc σ ε α) : Proc σ ε' (Except ε α) :=
  fun s => ⟨(p s).points, (p s).final, .ok (p s).result⟩

/-- `p` on a part of the state. -/
def within (part : σ → τ) (put : σ → τ → σ) (p : Proc τ ε α) : Proc σ ε α := fun s =>
  ⟨(p (part s)).points.map (put s), put s (p (part s)).final, (p (part s)).result⟩

/-- For each item in turn. -/
def forM (f : α → Proc σ ε Unit) : List α → Proc σ ε Unit
  | [] => pure ()
  | a :: l => bind (f a) fun _ => forM f l

/-! ## Specifications -/

/-- `C` at every point of `p` from `s`, and `Q` where it ends. -/
def Sat (p : Proc σ ε α) (s : σ) (C : σ → Prop) (Q : σ → Except ε α → Prop) : Prop :=
  (∀ t ∈ (p s).points, C t) ∧ Q (p s).final (p s).result

variable {p : Proc σ ε α} {s : σ} {C C' : σ → Prop} {Q Q' : σ → Except ε α → Prop}

theorem Sat.mono (h : Sat p s C Q) (hC : ∀ t, C t → C' t) (hQ : ∀ t r, Q t r → Q' t r) :
    Sat p s C' Q' :=
  ⟨fun t ht => hC t (h.1 t ht), hQ _ _ h.2⟩

/-- `Q` where `p` ends, and nothing about the points. -/
theorem sat_final (h : Q (p s).final (p s).result) : Sat p s (fun _ => True) Q :=
  ⟨fun _ _ => trivial, h⟩

/-- Where `p` ends, and with what. -/
theorem sat_self : Sat p s (fun _ => True) fun t r => t = (p s).final ∧ r = (p s).result :=
  sat_final ⟨rfl, rfl⟩

theorem sat_pure {a : α} : Sat (Pure.pure a : Proc σ ε α) s C Q ↔ Q s (.ok a) :=
  ⟨fun h => h.2, fun h => ⟨fun _ ht => absurd ht List.not_mem_nil, h⟩⟩

theorem sat_throw {e : ε} : Sat (throw e : Proc σ ε α) s C Q ↔ Q s (.error e) :=
  ⟨fun h => h.2, fun h => ⟨fun _ ht => absurd ht List.not_mem_nil, h⟩⟩

theorem sat_ofExcept {r : Except ε α} : Sat (ofExcept r : Proc σ ε α) s C Q ↔ Q s r :=
  ⟨fun h => h.2, fun h => ⟨fun _ ht => absurd ht List.not_mem_nil, h⟩⟩

theorem sat_get {Q : σ → Except ε σ → Prop} : Sat (get : Proc σ ε σ) s C Q ↔ Q s (.ok s) :=
  ⟨fun h => h.2, fun h => ⟨fun _ ht => absurd ht List.not_mem_nil, h⟩⟩

theorem sat_change {f : σ → σ} {Q : σ → Except ε Unit → Prop} :
    Sat (change f : Proc σ ε Unit) s C Q ↔ C (f s) ∧ Q (f s) (.ok ()) :=
  ⟨fun h => ⟨h.1 _ (List.mem_singleton_self _), h.2⟩,
    fun h => ⟨fun t ht => by rw [List.mem_singleton.mp ht]; exact h.1, h.2⟩⟩

/-- What must hold after `p` for `p >>= f`. -/
def Then (f : α → Proc σ ε β) (C : σ → Prop) (Q : σ → Except ε β → Prop) (t : σ) : Except ε α → Prop
  | .ok a => Sat (f a) t C Q
  | .error e => Q t (.error e)

@[simp] theorem then_ok {f : α → Proc σ ε β} {Q : σ → Except ε β → Prop} {t : σ} {a : α} :
    Then f C Q t (.ok a) ↔ Sat (f a) t C Q := .rfl

@[simp] theorem then_error {f : α → Proc σ ε β} {Q : σ → Except ε β → Prop} {t : σ} {e : ε} :
    Then f C Q t (.error e) ↔ Q t (.error e) := .rfl

theorem sat_bind {f : α → Proc σ ε β} {Q : σ → Except ε β → Prop} :
    Sat (p >>= f) s C Q ↔ Sat p s C (Then f C Q) := by
  show Sat (Proc.bind p f) s C Q ↔ _
  unfold Sat Proc.bind
  rcases p s with ⟨points, t, e | a⟩
  · exact .rfl
  · simp only [List.mem_append, then_ok, Sat]
    constructor
    · rintro ⟨hC, hQ⟩
      exact ⟨fun t ht => hC t (.inl ht), fun t ht => hC t (.inr ht), hQ⟩
    · rintro ⟨hC, hC', hQ⟩
      exact ⟨fun t ht => ht.elim (hC t) (hC' t), hQ⟩

theorem sat_attempt {Q : σ → Except ε' (Except ε α) → Prop} :
    Sat (attempt p : Proc σ ε' (Except ε α)) s C Q ↔ Sat p s C fun t r => Q t (.ok r) := .rfl

theorem sat_within {part : σ → τ} {put : σ → τ → σ} {p : Proc τ ε α} :
    Sat (within part put p) s C Q ↔ Sat p (part s) (fun t => C (put s t)) fun t r =>
      Q (put s t) r := by
  simp only [Sat, within, List.forall_mem_map]

/-! ### Sequences that begin with one construct -/

section

variable {f : α → Proc σ ε β} {R : σ → Except ε β → Prop}

/-- `p` by its own specification, and then the rest. -/
theorem Sat.bind (hp : Sat p s C Q) (hok : ∀ t a, Q t (.ok a) → Sat (f a) t C R)
    (herr : ∀ t e, Q t (.error e) → R t (.error e)) : Sat (p >>= f) s C R := by
  refine sat_bind.mpr (hp.mono (fun _ => id) fun t r hr => ?_)
  cases r with
  | error e => exact herr t e hr
  | ok a => exact hok t a hr

theorem sat_bind_get {f : σ → Proc σ ε β} (h : Sat (f s) s C R) : Sat (get >>= f) s C R :=
  sat_bind.mpr (sat_get.mpr h)

theorem sat_bind_change {g : σ → σ} {f : Unit → Proc σ ε β} (hC : C (g s))
    (h : Sat (f ()) (g s) C R) :
    Sat (change g >>= f) s C R := sat_bind.mpr (sat_change.mpr ⟨hC, h⟩)

theorem sat_bind_ofExcept {r : Except ε α} (hok : ∀ a, r = .ok a → Sat (f a) s C R)
    (herr : ∀ e, r = .error e → R s (.error e)) : Sat (ofExcept r >>= f) s C R := by
  refine sat_bind.mpr (sat_ofExcept.mpr ?_)
  cases r with
  | error e => exact herr e rfl
  | ok a => exact hok a rfl

theorem sat_bind_attempt {f : Except ε' α → Proc σ ε β} {p : Proc σ ε' α}
    (h : Sat p s C fun t r => Sat (f r) t C R) : Sat (attempt p >>= f) s C R :=
  sat_bind.mpr (sat_attempt.mpr h)

end

/-! ## Changes

`Sat` looks at each point by itself. `Moves R view p s Q` says that every
change of the state, as `view` shows it, is an `R`-step from what was there
before, and `Q` where `p` ends. -/

def Moves (R : τ → τ → Prop) (view : σ → τ) (p : Proc σ ε α) (s : σ) (Q : σ → Except ε α → Prop) :
    Prop :=
  Path R (view s) ((p s).points.map view) (view (p s).final) ∧ Q (p s).final (p s).result

section

variable {R : τ → τ → Prop} {view : σ → τ}

theorem Moves.mono (h : Moves R view p s Q) (hQ : ∀ t r, Q t r → Q' t r) : Moves R view p s Q' :=
  ⟨h.1, hQ _ _ h.2⟩

theorem moves_pure {a : α} (h : Q s (.ok a)) : Moves R view (Pure.pure a : Proc σ ε α) s Q :=
  ⟨rfl, h⟩

theorem moves_throw {e : ε} (h : Q s (.error e)) : Moves R view (throw e : Proc σ ε α) s Q :=
  ⟨rfl, h⟩

theorem moves_change {f : σ → σ} {Q : σ → Except ε Unit → Prop} (hR : R (view s) (view (f s)))
    (h : Q (f s) (.ok ())) :
    Moves R view (change f : Proc σ ε Unit) s Q := ⟨⟨hR, rfl⟩, h⟩

/-- `p` by its own specification, and then the rest. -/
theorem Moves.bind {f : α → Proc σ ε β} {Q' : σ → Except ε β → Prop} (hp : Moves R view p s Q)
    (hok : ∀ t a, Q t (.ok a) → Moves R view (f a) t Q')
    (herr : ∀ t e, Q t (.error e) → Q' t (.error e)) :
    Moves R view (p >>= f) s Q' := by
  show Moves R view (Proc.bind p f) s Q'
  unfold Moves Proc.bind at *
  generalize p s = o at hp
  rcases o with ⟨points, t, e | a⟩
  · exact ⟨hp.1, herr t e hp.2⟩
  · obtain ⟨hpath, hQ⟩ := hok t a hp.2
    refine ⟨?_, hQ⟩
    rw [List.map_append]
    exact hp.1.append hpath

theorem moves_bind_get {f : σ → Proc σ ε β} {Q : σ → Except ε β → Prop}
    (h : Moves R view (f s) s Q) :
    Moves R view (get >>= f) s Q :=
  Moves.bind (Q := fun t r => t = s ∧ r = .ok s) ⟨rfl, rfl, rfl⟩
    (fun _ _ ⟨ht, ha⟩ => by cases ha; rw [ht]; exact h)
    fun _ _ ⟨_, hr⟩ => nomatch hr

theorem moves_bind_ofExcept {r : Except ε α} {f : α → Proc σ ε β} {Q : σ → Except ε β → Prop}
    (hok : ∀ a, r = .ok a → Moves R view (f a) s Q) (herr : ∀ e, r = .error e → Q s (.error e)) :
    Moves R view (ofExcept r >>= f) s Q :=
  Moves.bind (Q := fun t r' => t = s ∧ r' = r) ⟨rfl, rfl, rfl⟩
    (fun _ a ⟨ht, ha⟩ => by rw [ht]; exact hok a ha.symm)
    fun _ e ⟨ht, he⟩ => by rw [ht]; exact herr e he.symm

theorem moves_bind_change {g : σ → σ} {f : Unit → Proc σ ε β} {Q : σ → Except ε β → Prop}
    (hR : R (view s) (view (g s))) (h : Moves R view (f ()) (g s) Q) :
    Moves R view (change g >>= f) s Q :=
  Moves.bind (Q := fun t r => t = g s ∧ r = .ok ()) (moves_change hR ⟨rfl, rfl⟩)
    (fun _ _ ⟨ht, _⟩ => by rw [ht]; exact h)
    fun _ _ ⟨_, hr⟩ => nomatch hr

theorem moves_bind_attempt {p : Proc σ ε' α} {f : Except ε' α → Proc σ ε β}
    {Q : σ → Except ε β → Prop} (h : Moves R view p s fun t r => Moves R view (f r) t Q) :
    Moves R view (attempt p >>= f) s Q :=
  Moves.bind (Q := fun t r => ∃ r', r = .ok r' ∧ Moves R view (f r') t Q) ⟨h.1, _, rfl, h.2⟩
    (fun _ _ ⟨_, hr, hm⟩ => by cases hr; exact hm) fun _ _ ⟨_, hr, _⟩ => nomatch hr

end

end Proc

end Framework
