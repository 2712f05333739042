import Mathlib

/-!
# The first maximum of a list

`FirstMax key l a`: of the elements of `l` with the greatest key, `a` is the
first, as a loop finds it that goes on from an element to a strictly greater
one. There is one in every list that is not empty, and only one
(`exists_firstMax`, `FirstMax.unique`); other elements may be removed
(`FirstMax.erase`, `FirstMax.filter`), and one that is appended is the only
one that can replace it (`FirstMax.snoc`).
Where no two elements have the same key, their order does not matter
(`FirstMax.perm`).
-/

namespace Framework

variable {α σ : Type*} [LinearOrder σ] {key : α → σ} {l l' : List α} {a b : α}

/-- What comes before `a` is smaller, and what comes after it is not greater. -/
def FirstMax (key : α → σ) (l : List α) (a : α) : Prop :=
  ∃ before after, l = before ++ a :: after ∧ (∀ b ∈ before, key b < key a) ∧
    ∀ b ∈ after, key b ≤ key a

theorem firstMax_singleton (key : α → σ) (a : α) : FirstMax key [a] a :=
  ⟨[], [], rfl, fun _ hb => absurd hb List.not_mem_nil, fun _ hb => absurd hb List.not_mem_nil⟩

theorem FirstMax.mem (h : FirstMax key l a) : a ∈ l := by
  obtain ⟨before, after, rfl, -, -⟩ := h
  exact List.mem_append_right _ List.mem_cons_self

theorem FirstMax.le (h : FirstMax key l a) (hb : b ∈ l) : key b ≤ key a := by
  obtain ⟨before, after, rfl, hbefore, hafter⟩ := h
  rcases List.mem_append.mp hb with hb | hb
  · exact le_of_lt (hbefore b hb)
  · rcases List.mem_cons.mp hb with rfl | hb
    · exact le_refl _
    · exact hafter b hb

/-- One more element at the end: it takes the place of the maximum where it is strictly greater. -/
theorem FirstMax.snoc (h : FirstMax key l a) (b : α) :
    FirstMax key (l ++ [b]) (if key a < key b then b else a) := by
  split
  · rename_i hlt
    exact ⟨l, [], rfl, fun c hc => (h.le hc).trans_lt hlt, fun _ hc => absurd hc List.not_mem_nil⟩
  · rename_i hle
    obtain ⟨before, after, rfl, hbefore, hafter⟩ := h
    refine ⟨before, after ++ [b],
      by rw [List.append_assoc, List.cons_append], hbefore, fun c hc => ?_⟩
    rcases List.mem_append.mp hc with hc | hc
    · exact hafter c hc
    · rw [List.mem_singleton.mp hc]
      exact not_lt.mp hle

theorem FirstMax.snoc_of_lt (h : FirstMax key l a) (hlt : key a < key b) :
    FirstMax key (l ++ [b]) b := by
  have hsnoc := h.snoc b
  rwa [if_pos hlt] at hsnoc

theorem FirstMax.snoc_of_not_lt (h : FirstMax key l a) (hle : ¬ key a < key b) :
    FirstMax key (l ++ [b]) a := by
  have hsnoc := h.snoc b
  rwa [if_neg hle] at hsnoc

theorem exists_firstMax (key : α → σ) (hne : l ≠ []) : ∃ a, FirstMax key l a := by
  induction l using List.reverseRecOn with
  | nil => exact absurd rfl hne
  | append_singleton l b ih =>
    rcases eq_or_ne l [] with rfl | hl
    · exact ⟨b, firstMax_singleton key b⟩
    · obtain ⟨a, ha⟩ := ih hl
      exact ⟨_, ha.snoc b⟩

theorem FirstMax.unique (h : FirstMax key l a) (h' : FirstMax key l b) : a = b := by
  obtain ⟨before, after, rfl, hbefore, hafter⟩ := h
  have hb := h'.mem
  obtain ⟨before', after', he, hbefore', hafter'⟩ := h'
  -- neither of the two stands before the other
  rcases List.append_eq_append_iff.mp he with ⟨mid, rfl, hmid⟩ | ⟨mid, rfl, hmid⟩
  · cases mid with
    | nil => exact (List.cons.inj hmid).1
    | cons c mid =>
      obtain ⟨rfl, rfl⟩ := List.cons.inj hmid
      have hlt : key a < key b := hbefore' a (List.mem_append_right _ List.mem_cons_self)
      exact absurd (hafter b (List.mem_append_right _ List.mem_cons_self)) (not_le.mpr hlt)
  · cases mid with
    | nil => exact (List.cons.inj hmid).1.symm
    | cons c mid =>
      obtain ⟨rfl, rfl⟩ := List.cons.inj hmid
      have hlt : key b < key a := hbefore b (List.mem_append_right _ List.mem_cons_self)
      exact absurd (hafter' a (List.mem_append_right _ List.mem_cons_self)) (not_le.mpr hlt)

/-- Another element is removed. -/
theorem FirstMax.erase [DecidableEq α] (h : FirstMax key l a) (hne : b ≠ a) :
    FirstMax key (l.erase b) a := by
  obtain ⟨before, after, rfl, hbefore, hafter⟩ := h
  by_cases hb : b ∈ before
  · refine ⟨before.erase b, after, List.erase_append_left _ hb, fun c hc =>
      hbefore c (List.mem_of_mem_erase hc), hafter⟩
  · refine ⟨before, after.erase b, ?_, hbefore, fun c hc => hafter c (List.mem_of_mem_erase hc)⟩
    rw [List.erase_append_right _ hb, List.erase_cons_tail (by simpa using hne.symm)]

/-- Only others are removed. -/
theorem FirstMax.filter {p : α → Bool} (h : FirstMax key l a) (ha : p a = true) :
    FirstMax key (l.filter p) a := by
  obtain ⟨before, after, rfl, hbefore, hafter⟩ := h
  refine ⟨before.filter p, after.filter p, ?_, fun b hb => hbefore b (List.mem_of_mem_filter hb),
    fun b hb => hafter b (List.mem_of_mem_filter hb)⟩
  rw [List.filter_append, List.filter_cons_of_pos ha]

/-- The keys are those of another list, element by element. -/
theorem FirstMax.map {β : Type*} {f : β → α} {l : List β} {b : β}
    (h : FirstMax (fun b => key (f b)) l b) : FirstMax key (l.map f) (f b) := by
  obtain ⟨before, after, rfl, hbefore, hafter⟩ := h
  refine ⟨before.map f, after.map f, by rw [List.map_append, List.map_cons], fun a ha => ?_,
    fun a ha => ?_⟩
  · obtain ⟨b, hb, rfl⟩ := List.mem_map.mp ha
    exact hbefore b hb
  · obtain ⟨b, hb, rfl⟩ := List.mem_map.mp ha
    exact hafter b hb

/-- Where no two keys are equal, the maximum is the first. -/
theorem firstMax_of_nodup (hl : (l.map key).Nodup) (ha : a ∈ l) (hmax : ∀ b ∈ l, key b ≤ key a) :
    FirstMax key l a := by
  obtain ⟨before, after, rfl⟩ := List.append_of_mem ha
  refine ⟨before, after, rfl, fun b hb =>
    lt_of_le_of_ne (hmax b (List.mem_append_left _ hb)) fun he => ?_,
    fun b hb => hmax b (List.mem_append_right _ (List.mem_cons_of_mem _ hb))⟩
  rw [List.map_append, List.nodup_append] at hl
  exact hl.2.2 _ (List.mem_map_of_mem hb) _ (List.mem_map_of_mem List.mem_cons_self) he

theorem FirstMax.perm (h : FirstMax key l a) (hl : (l.map key).Nodup) (hp : l.Perm l') :
    FirstMax key l' a :=
  firstMax_of_nodup ((hp.map key).nodup_iff.mp hl) (hp.mem_iff.mp h.mem) fun _ hb =>
    h.le (hp.mem_iff.mpr hb)

end Framework
