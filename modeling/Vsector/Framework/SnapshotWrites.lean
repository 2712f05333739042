import Mathlib
import Vsector.Framework.Run

/-!
# Writers of snapshots

Data in memory, and a file that is to hold it. A call changes the data, takes
a snapshot of it and writes the snapshot to the file, each of these in one
step, with steps of other calls in between. Once all calls are done the file
holds the data under every choice of changes exactly where the snapshot that
was written last was taken after the last change (`file_eq_live_iff`).
-/

namespace Framework

namespace SnapshotWrites

variable {ι D O : Type*}

/-- Where a call stands. -/
inductive Phase (D : Type*) where
  | ready
  | changed
  | holding (snapshot : D)
  | returned

inductive Label (ι : Type*) where
  | change (i : ι)
  | snapshot (i : ι)
  | write (i : ι)

structure Writers (ι D : Type*) where
  live : D
  file : D
  phase : ι → Phase D

def init (d : D) : Writers ι D := ⟨d, d, fun _ => .ready⟩

variable [DecidableEq ι] (apply : O → D → D) (ops : ι → O)

def Writers.enter (s : Writers ι D) (i : ι) (p : Phase D) : Writers ι D :=
  { s with phase := Function.update s.phase i p }

/-- `ops i` is the change of call `i`. -/
def step (s : Writers ι D) : Label ι → Option (Writers ι D)
  | .change i =>
    match s.phase i with
    | .ready => some { s.enter i .changed with live := apply (ops i) s.live }
    | _ => none
  | .snapshot i =>
    match s.phase i with
    | .changed => some (s.enter i (.holding s.live))
    | _ => none
  | .write i =>
    match s.phase i with
    | .holding d => some { s.enter i .returned with file := d }
    | _ => none

/-- Every call that was made has returned. -/
def Quiet (s : Writers ι D) : Prop := ∀ i, s.phase i = .ready ∨ s.phase i = .returned

/-- The snapshot that is written last is taken after the last change. -/
def LastWriteCurrent (ls : List (Label ι)) : Prop :=
  ∃ i pre mid post, ls = pre ++ .snapshot i :: (mid ++ .write i :: post) ∧
    (∀ j, .change j ∉ mid ∧ .change j ∉ post) ∧ ∀ j, .write j ∉ post

variable {apply ops} {s t : Writers ι D} {l : Label ι} {ls : List (Label ι)}

/-- What a step does. -/
theorem step_cases (h : step apply ops s l = some t) :
    (∃ i, l = .change i ∧ s.phase i = .ready ∧
      t = { s.enter i .changed with live := apply (ops i) s.live }) ∨
    (∃ i, l = .snapshot i ∧ s.phase i = .changed ∧ t = s.enter i (.holding s.live)) ∨
    ∃ i d, l = .write i ∧ s.phase i = .holding d ∧ t = { s.enter i .returned with file := d } := by
  cases l with
  | change i =>
    rw [step] at h
    split at h
    · rename_i hp
      exact .inl ⟨i, rfl, hp, (Option.some.inj h).symm⟩
    · cases h
  | snapshot i =>
    rw [step] at h
    split at h
    · rename_i hp
      exact .inr (.inl ⟨i, rfl, hp, (Option.some.inj h).symm⟩)
    · cases h
  | write i =>
    rw [step] at h
    split at h
    · rename_i d hp
      exact .inr (.inr ⟨i, d, rfl, hp, (Option.some.inj h).symm⟩)
    · cases h

@[simp] theorem enter_self (i : ι) (p : Phase D) : (s.enter i p).phase i = p :=
  show Function.update s.phase i p i = p from Function.update_self i p s.phase

theorem enter_ne {i j : ι} (h : j ≠ i) (p : Phase D) : (s.enter i p).phase j = s.phase j :=
  show Function.update s.phase i p j = s.phase j from Function.update_of_ne h p s.phase

/-- A run keeps what each of its steps keeps. -/
theorem run_keeps {I : Writers ι D → Prop}
    (hI : ∀ s l t, l ∈ ls → I s → step apply ops s l = some t → I t) (hs : I s)
    (hr : run (step apply ops) s ls = some t) : I t := by
  induction ls generalizing s with
  | nil => cases hr; exact hs
  | cons l ls ih =>
    obtain ⟨u, hu, hr⟩ := run_cons_eq_some.mp hr
    exact ih (fun s l t hl => hI s l t (List.mem_cons_of_mem _ hl))
      (hI s l u List.mem_cons_self hs hu) hr

/-- Without changes the data stays. -/
theorem live_run (h : ∀ j, .change j ∉ ls) (hr : run (step apply ops) s ls = some t) :
    t.live = s.live := by
  refine run_keeps (I := fun u => u.live = s.live) (fun u l v hl hu hstep => ?_) rfl hr
  obtain ⟨i, rfl, -⟩ | ⟨i, rfl, -, rfl⟩ | ⟨i, d, rfl, -, rfl⟩ := step_cases hstep
  · exact absurd hl (h i)
  · exact hu
  · exact hu

/-- Without writes the file stays. -/
theorem file_run (h : ∀ j, .write j ∉ ls) (hr : run (step apply ops) s ls = some t) :
    t.file = s.file := by
  refine run_keeps (I := fun u => u.file = s.file) (fun u l v hl hu hstep => ?_) rfl hr
  obtain ⟨i, rfl, -, rfl⟩ | ⟨i, rfl, -, rfl⟩ | ⟨i, d, rfl, -⟩ := step_cases hstep
  · exact hu
  · exact hu
  · exact absurd hl (h i)

/-- A call keeps its snapshot until it writes it. -/
theorem holding_run {i : ι} {d : D} (hs : s.phase i = .holding d ∨ s.phase i = .returned)
    (hr : run (step apply ops) s ls = some t) : t.phase i = .holding d ∨ t.phase i = .returned := by
  refine run_keeps (I := fun u => u.phase i = .holding d ∨ u.phase i = .returned)
    (fun u l v _ hu hstep => ?_) hs hr
  have hother : ∀ {j p}, j ≠ i → (u.enter j p).phase i = .holding d ∨
      (u.enter j p).phase i = .returned := by
    intro j p hj
    rw [enter_ne hj.symm]
    exact hu
  obtain ⟨j, rfl, hj, rfl⟩ | ⟨j, rfl, hj, rfl⟩ | ⟨j, e, rfl, hj, rfl⟩ := step_cases hstep
  · refine hother fun hji => ?_
    subst hji
    rw [hj] at hu
    rcases hu with hu | hu <;> cases hu
  · refine hother fun hji => ?_
    subst hji
    rw [hj] at hu
    rcases hu with hu | hu <;> cases hu
  · by_cases hji : j = i
    · subst hji
      exact .inr (enter_self j .returned)
    · exact hother hji

/-- From the snapshot of a call to its write, the write included. -/
theorem write_run {i : ι} {mid : List (Label ι)}
    (hr : run (step apply ops) s (.snapshot i :: (mid ++ [.write i])) = some t) :
    t.file = s.live := by
  obtain ⟨u, hu, hr⟩ := run_cons_eq_some.mp hr
  obtain ⟨v, hv, hr⟩ := run_append_eq_some.mp hr
  obtain ⟨w, hw, hr⟩ := run_cons_eq_some.mp hr
  cases hr
  obtain ⟨j, hj, -⟩ | ⟨j, hj, -, rfl⟩ | ⟨j, d, hj, -⟩ := step_cases hu
  · cases hj
  · cases hj
    have hhold := holding_run (.inl (enter_self i (.holding s.live))) hv
    obtain ⟨j, hj, -⟩ | ⟨j, hj, -⟩ | ⟨j, d, hj, hd, rfl⟩ := step_cases hw
    · cases hj
    · cases hj
    · cases hj
      rw [hd] at hhold
      rcases hhold with hhold | hhold
      · exact Phase.holding.inj hhold
      · cases hhold
  · cases hj

/-- Where the last snapshot that is written is taken after the last change, nothing is lost. -/
theorem file_eq_live (h : LastWriteCurrent ls) (hr : run (step apply ops) s ls = some t) :
    t.file = t.live := by
  obtain ⟨i, pre, mid, post, rfl, hchange, hwrite⟩ := h
  rw [show pre ++ .snapshot i :: (mid ++ .write i :: post) = pre ++
    ((.snapshot i :: (mid ++ [.write i])) ++ post) by simp] at hr
  obtain ⟨u, -, hr⟩ := run_append_eq_some.mp hr
  obtain ⟨v, hv, hr⟩ := run_append_eq_some.mp hr
  have hlive : v.live = u.live := by
    refine live_run (fun j hj => ?_) hv
    simp only [List.mem_cons, List.mem_append, reduceCtorEq, false_or,
      List.not_mem_nil, or_false] at hj
    exact (hchange j).1 hj
  calc t.file = v.file := file_run hwrite hr
    _ = u.live := write_run hv
    _ = v.live := hlive.symm
    _ = t.live := (live_run (fun j => (hchange j).2) hr).symm

variable (apply ops) in
/-- A call without steps of others in between. -/
theorem run_alone {i : ι} (h : s.phase i = .ready) : ∃ t,
    run (step apply ops) s [.change i, .snapshot i, .write i] = some t ∧
    t.live = apply (ops i) s.live ∧ t.file = t.live ∧
      t.phase i = .returned ∧ ∀ j ≠ i, t.phase j = s.phase j := by
  let u : Writers ι D := { s.enter i .changed with live := apply (ops i) s.live }
  have hchange : step apply ops s (.change i) = some u := by rw [step, h]
  have hsnapshot : step apply ops u (.snapshot i) = some (u.enter i (.holding u.live)) := by
    have hu : u.phase i = .changed := enter_self i .changed
    rw [step, hu]
  have hwrite : step apply ops (u.enter i (.holding u.live)) (.write i) =
      some { (u.enter i (.holding u.live)).enter i .returned with file := u.live } := by
    rw [step, enter_self]
  refine ⟨{ (u.enter i (.holding u.live)).enter i .returned with file := u.live }, ?_, rfl, rfl,
    enter_self i .returned, fun j hj => ?_⟩
  · rw [run, hchange, Option.bind_some, run, hsnapshot, Option.bind_some, run, hwrite]
    rfl
  · exact ((enter_ne hj _).trans (enter_ne hj _)).trans (enter_ne hj _)

/-! ## Schedules -/

/-- The calls take their steps in order, and all of them return. -/
def Complete (ls : List (Label ι)) : Prop :=
  ∃ t, run (step (fun _ => id : Unit → Unit → Unit) fun _ => ()) (init ()) ls = some t ∧ Quiet t

/-- Where a call stands, but for its snapshot. -/
def Phase.forget : Phase D → Phase Unit
  | ready => .ready
  | changed => .changed
  | holding _ => .holding ()
  | returned => .returned

def Writers.forget (s : Writers ι D) : Writers ι Unit := ⟨(), (), fun i => (s.phase i).forget⟩

theorem forget_enter (i : ι) (p : Phase D) : (s.enter i p).forget = s.forget.enter i p.forget := by
  have hphase : Phase.forget ∘ Function.update s.phase i p =
      Function.update (Phase.forget ∘ s.phase) i p.forget :=
    Function.comp_update Phase.forget s.phase i p
  exact congrArg (Writers.mk () ()) hphase

variable (apply ops) in
/-- Which steps can be taken does not depend on the data. -/
theorem step_forget (s : Writers ι D) (l : Label ι) :
    step (fun _ => id : Unit → Unit → Unit) (fun _ => ()) s.forget l = (step apply ops s l).map
      Writers.forget := by
  have hphase : ∀ i, s.forget.phase i = (s.phase i).forget := fun _ => rfl
  cases l with
  | change i =>
    rw [step, step, hphase]
    rcases s.phase i with _ | _ | d | _
    · exact congrArg some (forget_enter (s := s) i .changed).symm
    · rfl
    · rfl
    · rfl
  | snapshot i =>
    rw [step, step, hphase]
    rcases s.phase i with _ | _ | d | _
    · rfl
    · exact congrArg some (forget_enter (s := s) i (.holding s.live)).symm
    · rfl
    · rfl
  | write i =>
    rw [step, step, hphase]
    rcases s.phase i with _ | _ | d | _
    · rfl
    · rfl
    · exact congrArg some (forget_enter (s := s) i .returned).symm
    · rfl

variable (apply ops) in
theorem run_forget (s : Writers ι D) (ls : List (Label ι)) :
    run (step (fun _ => id : Unit → Unit → Unit) fun _ => ()) s.forget ls =
      (run (step apply ops) s ls).map Writers.forget := by
  induction ls generalizing s with
  | nil => rfl
  | cons l ls ih =>
    rw [run, run, step_forget apply ops]
    rcases step apply ops s l with _ | u
    · rfl
    · exact ih u

/-- A complete schedule runs from any data, under any changes. -/
theorem Complete.exists_run (h : Complete ls) (apply : O → D → D) (ops : ι → O) (d : D) :
    ∃ t, run (step apply ops) (init d) ls = some t ∧ Quiet t := by
  obtain ⟨u, hu, hq⟩ := h
  have hforget : (init d : Writers ι D).forget = init () := rfl
  rw [← hforget, run_forget apply ops, Option.map_eq_some_iff] at hu
  obtain ⟨t, ht, rfl⟩ := hu
  refine ⟨t, ht, fun i => ?_⟩
  have hi : (t.phase i).forget = .ready ∨ (t.phase i).forget = .returned := hq i
  generalize t.phase i = p at hi ⊢
  cases p with
  | ready => exact .inl rfl
  | changed => exact absurd hi (by rintro (h | h) <;> cases h)
  | holding d => exact absurd hi (by rintro (h | h) <;> cases h)
  | returned => exact .inr rfl

/-- A step of call `i` is the only one that moves it on. -/
theorem phase_step (h : step apply ops s l = some t) (i : ι) :
    t.phase i = s.phase i ∨ (l = .change i ∧ s.phase i = .ready ∧ t.phase i = .changed) ∨
      (l = .snapshot i ∧ t.phase i = .holding s.live) ∨ l = .write i ∧ t.phase i = .returned := by
  obtain ⟨j, rfl, hj, rfl⟩ | ⟨j, rfl, hj, rfl⟩ | ⟨j, d, rfl, hj, rfl⟩ := step_cases h
  · by_cases hji : i = j
    · subst hji
      exact .inr (.inl ⟨rfl, hj, enter_self i .changed⟩)
    · exact .inl (enter_ne hji .changed)
  · by_cases hji : i = j
    · subst hji
      exact .inr (.inr (.inl ⟨rfl, enter_self i _⟩))
    · exact .inl (enter_ne hji _)
  · by_cases hji : i = j
    · subst hji
      exact .inr (.inr (.inr ⟨rfl, enter_self i .returned⟩))
    · exact .inl (enter_ne hji .returned)

/-- A call that has begun is not ready again. -/
theorem begun_run {i : ι} (hs : s.phase i ≠ .ready) (hr : run (step apply ops) s ls = some t) :
    t.phase i ≠ .ready := by
  refine run_keeps (I := fun u => u.phase i ≠ .ready) (fun u l v _ hu hstep => ?_) hs hr
  obtain h | ⟨-, -, h⟩ | ⟨-, h⟩ | ⟨-, h⟩ := phase_step hstep i
  · exact h ▸ hu
  · exact h ▸ nofun
  · exact h ▸ nofun
  · exact h ▸ nofun

/-- A call changes the data once. -/
theorem change_once {i : ι} {pre post : List (Label ι)}
    (hr : run (step apply ops) s (pre ++ .change i :: post) = some t) : .change i ∉ pre := by
  intro hmem
  obtain ⟨a, b, rfl⟩ := List.append_of_mem hmem
  rw [List.append_assoc, List.cons_append] at hr
  obtain ⟨u, -, hr⟩ := run_append_eq_some.mp hr
  obtain ⟨v, hv, hr⟩ := run_cons_eq_some.mp hr
  obtain ⟨w, hw, hr⟩ := run_append_eq_some.mp hr
  obtain ⟨x, hx, -⟩ := run_cons_eq_some.mp hr
  have hbegun : v.phase i ≠ .ready := by
    obtain ⟨j, hj, -, rfl⟩ | ⟨j, hj, -⟩ | ⟨j, d, hj, -⟩ := step_cases hv
    · cases hj
      exact fun h => by rw [show _ = Phase.changed from enter_self i _] at h; cases h
    · cases hj
    · cases hj
  obtain ⟨j, hj, hready, -⟩ | ⟨j, hj, -⟩ | ⟨j, d, hj, -⟩ := step_cases hx
  · cases hj
    exact begun_run hbegun hw hready
  · cases hj
  · cases hj

/-- A call that has returned has written. -/
theorem write_mem {i : ι} (hs : s.phase i ≠ .returned) (hr : run (step apply ops) s ls = some t)
    (ht : t.phase i = .returned) :
    .write i ∈ ls := by
  by_contra hno
  refine run_keeps (I := fun u => u.phase i ≠ .returned) (fun u l v hl hu hstep => ?_) hs hr ht
  obtain h | ⟨-, -, h⟩ | ⟨-, h⟩ | ⟨rfl, -⟩ := phase_step hstep i
  · exact h ▸ hu
  · exact h ▸ nofun
  · exact h ▸ nofun
  · exact absurd hl hno

/-- A call that holds a snapshot has taken one. -/
theorem snapshot_mem {i : ι} {d : D} (hs : ∀ d, s.phase i ≠ .holding d)
    (hr : run (step apply ops) s ls = some t) (ht : t.phase i = .holding d) : .snapshot i ∈ ls := by
  by_contra hno
  refine run_keeps (I := fun u => ∀ d, u.phase i ≠ .holding d)
    (fun u l v hl hu hstep => ?_) hs hr d ht
  obtain h | ⟨-, -, h⟩ | ⟨rfl, -⟩ | ⟨-, h⟩ := phase_step hstep i
  · exact h ▸ hu
  · exact h ▸ nofun
  · exact absurd hl hno
  · exact h ▸ nofun

omit [DecidableEq ι] in
theorem exists_last_write (h : ∃ j, .write j ∈ ls) :
    ∃ i pre post, ls = pre ++ .write i :: post ∧ ∀ j, .write j ∉ post := by
  induction ls with
  | nil => exact absurd h.choose_spec List.not_mem_nil
  | cons l ls ih =>
    by_cases hls : ∃ j, .write j ∈ ls
    · obtain ⟨i, pre, post, rfl, hpost⟩ := ih hls
      exact ⟨i, l :: pre, post, rfl, hpost⟩
    · obtain ⟨j, hj⟩ := h
      rcases List.mem_cons.mp hj with rfl | hj
      · exact ⟨j, [], ls, rfl, fun j hj => hls ⟨j, hj⟩⟩
      · exact absurd ⟨j, hj⟩ hls

/-- The last write of a complete schedule, and the snapshot that it writes. -/
theorem Complete.last_write (h : Complete ls) (hne : ls ≠ []) : ∃ i pre mid post,
    ls = pre ++ .snapshot i :: (mid ++ .write i :: post) ∧ ∀ j, .write j ∉ post := by
  obtain ⟨t, ht, hquiet⟩ := h
  have hwrite : ∃ j, .write j ∈ ls := by
    rcases ls with _ | ⟨l, ls⟩
    · exact absurd rfl hne
    · obtain ⟨u, hu, hr⟩ := run_cons_eq_some.mp ht
      obtain ⟨i, rfl, -, rfl⟩ | ⟨i, -, hi, -⟩ | ⟨i, d, -, hi, -⟩ := step_cases hu
      · have hbegun :=
          begun_run (i := i) (by rw [show _ = Phase.changed from enter_self i _]; nofun) hr
        have hinit : (init () : Writers ι Unit).phase i ≠ .returned := nofun
        exact ⟨i, write_mem hinit ht ((hquiet i).resolve_left hbegun)⟩
      · cases hi
      · cases hi
  obtain ⟨i, pre, post, rfl, hpost⟩ := exists_last_write hwrite
  obtain ⟨u, hu, hr⟩ := run_append_eq_some.mp ht
  obtain ⟨v, hv, -⟩ := run_cons_eq_some.mp hr
  obtain ⟨j, hj, -⟩ | ⟨j, hj, -⟩ | ⟨j, d, hj, hd, -⟩ := step_cases hv
  · cases hj
  · cases hj
  · cases hj
    obtain ⟨a, b, rfl⟩ := List.append_of_mem (snapshot_mem (s := init ()) nofun hu hd)
    exact ⟨i, a, b, post, by rw [List.append_assoc, List.cons_append], hpost⟩

section

variable {set noop : O} {d₀ : D} (hnoop : apply noop d₀ = d₀)
  (hkeep : apply noop (apply set d₀) = apply set d₀) {j : ι}
include hnoop hkeep

omit hkeep in
/-- A run in which call `j` alone would change anything, before its change. -/
theorem live_before (hno : .change j ∉ ls)
    (hr : run (step apply fun i => if i = j then set else noop) (init d₀) ls = some t) :
    t.live = d₀ := by
  refine run_keeps (I := fun u => u.live = d₀) (fun u l v hl hu hstep => ?_) rfl hr
  obtain ⟨i, rfl, -, rfl⟩ | ⟨i, rfl, -, rfl⟩ | ⟨i, d, rfl, -, rfl⟩ := step_cases hstep
  · have hij : i ≠ j := fun hij => hno (hij ▸ hl)
    show apply (if i = j then set else noop) u.live = d₀
    rw [if_neg hij, hu, hnoop]
  · exact hu
  · exact hu

/-- From its change on. -/
theorem live_after {pre post : List (Label ι)}
    (hr : run (step apply fun i => if i = j then set else noop) (init d₀)
      (pre ++ .change j :: post) = some t) :
    t.live = apply set d₀ := by
  have honce := change_once hr
  obtain ⟨u, hu, hr⟩ := run_append_eq_some.mp hr
  obtain ⟨v, hv, hr⟩ := run_cons_eq_some.mp hr
  have hstart : v.live = apply set d₀ ∧ v.phase j ≠ .ready := by
    obtain ⟨i, hi, -, rfl⟩ | ⟨i, hi, -⟩ | ⟨i, d, hi, -⟩ := step_cases hv
    · cases hi
      refine ⟨?_, by rw [show _ = Phase.changed from enter_self j _]; nofun⟩
      show apply (if j = j then set else noop) u.live = _
      rw [if_pos rfl, live_before hnoop honce hu]
    · cases hi
    · cases hi
  refine (run_keeps (I := fun u => u.live = apply set d₀ ∧ u.phase j ≠ .ready)
    (fun u l v _ hu hstep => ?_) hstart hr).1
  have hone : run (step apply fun i => if i = j then set else noop) u [l] = some v := by
    rw [run, hstep]
    rfl
  refine ⟨?_, begun_run hu.2 hone⟩
  obtain ⟨i, rfl, hi, rfl⟩ | ⟨i, rfl, -, rfl⟩ | ⟨i, d, rfl, -, rfl⟩ := step_cases hstep
  · have hij : i ≠ j := fun hij => hu.2 (hij ▸ hi)
    show apply (if i = j then set else noop) u.live = _
    rw [if_neg hij, hu.1, hkeep]
  · exact hu.1
  · exact hu.1

/-- Once all calls of a schedule have returned the file holds the data, whatever the changes were,
if and only if the snapshot that was written last was taken after the last change. -/
theorem file_eq_live_iff (hset : apply set d₀ ≠ d₀) (h : Complete ls) :
    (∀ (ops : ι → O) (d : D), ∃ t, run (step apply ops) (init d) ls = some t ∧ Quiet t ∧
      t.file = t.live) ↔
      ls = [] ∨ LastWriteCurrent ls := by
  constructor
  · intro hall
    by_cases hne : ls = []
    · exact .inl hne
    · right
      obtain ⟨i, pre, mid, post, rfl, hpost⟩ := h.last_write hne
      refine ⟨i, pre, mid, post, rfl, fun j => ?_, hpost⟩
      by_contra hj
      have hmem : .change j ∈ mid ++ .write i :: post := by
        by_contra hno
        refine hj ⟨fun hm => hno (List.mem_append_left _ hm), fun hm => hno ?_⟩
        exact List.mem_append_right _ (List.mem_cons_of_mem _ hm)
      obtain ⟨a, b, hab⟩ := List.append_of_mem hmem
      obtain ⟨t, ht, -, heq⟩ := hall (fun i => if i = j then set else noop) d₀
      have hchange : pre ++ .snapshot i :: (mid ++ .write i :: post) = (pre ++ .snapshot i :: a) ++
          .change j :: b := by
        rw [hab, List.append_assoc, List.cons_append]
      have hwrite : pre ++ .snapshot i :: (mid ++ .write i :: post) =
          pre ++ ((.snapshot i :: (mid ++ [.write i])) ++ post) := by simp
      have hlive : t.live = apply set d₀ := live_after hnoop hkeep (hchange ▸ ht)
      have honce : .change j ∉ pre :=
        fun hm => change_once (hchange ▸ ht) (List.mem_append_left _ hm)
      have hfile : t.file = d₀ := by
        rw [hwrite] at ht
        obtain ⟨u, hu, hr⟩ := run_append_eq_some.mp ht
        obtain ⟨v, hv, hr⟩ := run_append_eq_some.mp hr
        rw [file_run hpost hr, write_run hv]
        exact live_before hnoop honce hu
      exact hset (hlive.symm.trans (heq.symm.trans hfile))
  · intro hcond ops d
    obtain ⟨t, ht, hq⟩ := h.exists_run apply ops d
    refine ⟨t, ht, hq, ?_⟩
    rcases hcond with rfl | hcond
    · cases ht
      rfl
    · exact file_eq_live hcond ht

end

end SnapshotWrites

end Framework
