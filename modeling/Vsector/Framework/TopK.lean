import Mathlib

/-!
# The best of a list

`Top key k l top`: `top` is a selection of the `k` best of `l`, best first.
Of elements with equal keys any may be selected; where the keys differ there
is one selection (`Top.unique`). Elements that all come after the others may
be left out where there are enough of these (`top_filter_iff`). The best of the parts of a list
have the best
of the whole among them (`Top.of_parts`).
-/

namespace Framework

variable {α β σ : Type*} [LinearOrder σ] {key : α → σ} {k : Nat} {l l' top top' : List α}

/-- `top` are `k` elements of `l`, or all where there are fewer, best first, and none of the others
is better. -/
def Top (key : α → σ) (k : Nat) (l top : List α) : Prop :=
  ∃ rest, (top ++ rest).Perm l ∧ top.length = min k l.length ∧
    (∀ a ∈ top, ∀ b ∈ rest, key b ≤ key a) ∧
    top.Pairwise fun a b => key b ≤ key a

variable (key k l) in
/-- Sorting and cutting is a selection. -/
theorem top_take_insertionSort :
    Top key k l ((l.insertionSort fun a b => key b ≤ key a).take k) := by
  have : Std.Total fun a b : α => key b ≤ key a := ⟨fun a b => le_total (key b) (key a)⟩
  have : IsTrans α fun a b => key b ≤ key a := ⟨fun a b c hab hbc => hbc.trans hab⟩
  have hsorted := List.pairwise_insertionSort (fun a b : α => key b ≤ key a) l
  have hperm := List.perm_insertionSort (fun a b : α => key b ≤ key a) l
  generalize l.insertionSort (fun a b => key b ≤ key a) = sorted at hsorted hperm
  refine ⟨sorted.drop k,
    by
    rw [List.take_append_drop]; exact hperm, ?_, fun a ha b hb =>
      ?_, hsorted.sublist (List.take_sublist k _)⟩
  · rw [List.length_take, hperm.length_eq]
  · rw [← List.take_append_drop k sorted, List.pairwise_append] at hsorted
    exact hsorted.2.2 a ha b hb

theorem Top.perm (h : Top key k l top) (hl : l.Perm l') : Top key k l' top := by
  obtain ⟨rest, hperm, hlength, hbest⟩ := h
  exact ⟨rest, hperm.trans hl, by rw [hlength, hl.length_eq], hbest⟩

theorem Top.map {f : β → α} {l top : List β} (h : Top (fun b => key (f b)) k l top) :
    Top key k (l.map f) (top.map f) := by
  obtain ⟨rest, hperm, hlength, hbest, hsorted⟩ := h
  refine ⟨rest.map f, ?_, ?_, ?_, ?_⟩
  · rw [← List.map_append]
    exact hperm.map f
  · rw [List.length_map, List.length_map, hlength]
  · simp only [List.forall_mem_map]
    exact hbest
  · rw [List.pairwise_map]
    exact hsorted

/-- A selection of images is the image of a selection. -/
theorem Top.of_map {f : β → α} {l : List β} (h : Top key k (l.map f) top) :
    ∃ top', top'.map f = top ∧ Top (fun b => key (f b)) k l top' := by
  obtain ⟨rest, hperm, hlength, hbest, hsorted⟩ := h
  have hmap : List.Forall₂ (fun b a => f b = a) l (l.map f) :=
    List.forall₂_map_right_iff.mpr (List.forall₂_same.mpr fun _ _ => rfl)
  have hcomp : Relation.Comp List.Perm (List.Forall₂ fun b a => f b = a) l (top ++ rest) := by
    rw [← List.forall₂_comp_perm_eq_perm_comp_forall₂]
    exact ⟨_, hmap, hperm.symm⟩
  obtain ⟨l', hl, hl'⟩ := hcomp
  have hsplit : l'.map f = top ++ rest := List.forall₂_eq_eq_eq ▸ List.forall₂_map_left_iff.mpr hl'
  obtain ⟨top', rest', rfl, rfl, rfl⟩ := List.map_eq_append_iff.mp hsplit
  refine ⟨top', rfl, rest', hl.symm, ?_, fun a ha b hb => ?_, List.pairwise_map.mp hsorted⟩
  · rw [List.length_map, List.length_map] at hlength
    exact hlength
  · exact hbest _ (List.mem_map_of_mem ha) _ (List.mem_map_of_mem hb)

theorem Top.congr {key' : α → σ} (hkey : ∀ a ∈ l, key a = key' a) (h : Top key k l top) :
    Top key' k l top := by
  obtain ⟨rest, hperm, hlength, hbest, hsorted⟩ := h
  have htop : ∀ a ∈ top, key a = key' a :=
    fun a ha => hkey a (hperm.mem_iff.mp (List.mem_append_left _ ha))
  refine ⟨rest, hperm, hlength, fun a ha b hb => ?_, hsorted.imp_of_mem fun {a b} ha hb hab => ?_⟩
  · rw [← htop a ha, ← hkey b (hperm.mem_iff.mp (List.mem_append_right _ hb))]
    exact hbest a ha b hb
  · rw [← htop a ha, ← htop b hb]
    exact hab

/-- More cannot be selected than there is. -/
theorem top_min_iff {n : Nat} (hn : l.length = n) : Top key (min k n) l top ↔ Top key k l top := by
  subst hn
  unfold Top
  simp only [min_assoc, min_self]

theorem Top.mem (h : Top key k l top) {a : α} (ha : a ∈ top) : a ∈ l := by
  obtain ⟨rest, hperm, -⟩ := h
  exact hperm.mem_iff.mp (List.mem_append_left _ ha)

/-- Where nothing has to be left out. -/
theorem Top.perm_of_length_le (h : Top key k l top) (hk : l.length ≤ k) : top.Perm l := by
  obtain ⟨rest, hperm, hlength, -⟩ := h
  have htotal := hperm.length_eq
  rw [List.length_append] at htotal
  rw [List.eq_nil_of_length_eq_zero (show rest.length = 0 by omega), List.append_nil] at hperm
  exact hperm

theorem Top.nodup (h : Top key k l top) (hl : l.Nodup) : top.Nodup := by
  obtain ⟨rest, hperm, -⟩ := h
  exact (List.nodup_append.mp (hperm.nodup_iff.mpr hl)).1

/-- Where no two elements have the same key, there is one selection. -/
theorem Top.unique (hl : (l.map key).Nodup) (h : Top key k l top) (h' : Top key k l top') :
    top = top' := by
  have hnodup : l.Nodup := List.Nodup.of_map key hl
  have hsub : ∀ {t t' : List α}, Top key k l t → Top key k l t' → t ⊆ t' := by
    rintro t t' ht ht' a ha
    by_contra hnot
    have hnodup' := ht'.nodup hnodup
    obtain ⟨rest, hperm, hlength, hbest, -⟩ := ht
    obtain ⟨rest', hperm', hlength', hbest', -⟩ := ht'
    have hmem : a ∈ l := hperm.mem_iff.mp (List.mem_append_left _ ha)
    have ha' : a ∈ rest' := (List.mem_append.mp (hperm'.mem_iff.mpr hmem)).resolve_left hnot
    -- `t` has no room for all of `t'` beside `a`
    obtain ⟨b, hb, hbt⟩ : ∃ b ∈ t', b ∉ t := by
      by_contra hall
      push Not at hall
      have hcons : (a :: t').Nodup := List.nodup_cons.mpr ⟨hnot, hnodup'⟩
      have hle := (List.subperm_of_subset hcons (List.cons_subset.mpr ⟨ha, hall⟩)).length_le
      simp only [List.length_cons] at hle
      omega
    have hmem' : b ∈ l := hperm'.mem_iff.mp (List.mem_append_left _ hb)
    have hb' : b ∈ rest := (List.mem_append.mp (hperm.mem_iff.mpr hmem')).resolve_left hbt
    have heq : key a = key b := le_antisymm (hbest' b hb a ha') (hbest a ha b hb')
    exact hbt (List.inj_on_of_nodup_map hl hmem hmem' heq ▸ ha)
  have hperm : top.Perm top' :=
    (List.perm_ext_iff_of_nodup (h.nodup hnodup) (h'.nodup hnodup)).mpr fun a =>
      ⟨fun ha => hsub h h' ha, fun ha => hsub h' h ha⟩
  obtain ⟨rest, hrest, -, -, hsorted⟩ := h
  obtain ⟨-, -, -, -, hsorted'⟩ := h'
  refine List.Perm.eq_of_pairwise (fun a b ha hb hab hba => ?_) hsorted hsorted' hperm
  refine List.inj_on_of_nodup_map hl (hrest.mem_iff.mp (List.mem_append_left _ ha)) ?_
    (le_antisymm hba hab)
  exact hrest.mem_iff.mp (List.mem_append_left _ (hperm.mem_iff.mpr hb))

/-- Without elements that all come after the others. -/
theorem Top.filter {p : α → Bool} (hp : ∀ a ∈ l, ∀ b ∈ l, p a = true → p b = false → key b < key a)
    (h : Top key k l top) : Top key k (l.filter p) (top.filter p) := by
  obtain ⟨rest, hperm, hlength, hbest, hsorted⟩ := h
  have hl : ∀ a, a ∈ l ↔ a ∈ top ∨ a ∈ rest := fun a => hperm.mem_iff.symm.trans List.mem_append
  have hfilter : (top.filter p ++ rest.filter p).Perm (l.filter p) := by
    rw [← List.filter_append]
    exact hperm.filter p
  refine ⟨rest.filter p, hfilter, ?_, fun a ha b hb =>
    hbest a (List.mem_of_mem_filter ha) b (List.mem_of_mem_filter hb),
    hsorted.sublist List.filter_sublist⟩
  have htotal := hfilter.length_eq
  rw [List.length_append] at htotal
  have hle := List.length_filter_le p top
  by_cases hall : ∀ a ∈ top, p a = true
  · -- nothing is left out
    have htop : top.filter p = top := List.filter_eq_self.mpr hall
    have hle' := List.length_filter_le p l
    rw [htop] at htotal ⊢
    omega
  · -- what is left out of `top` is worse than all that is not
    push Not at hall
    obtain ⟨b, hb, hpb⟩ := hall
    have hnone : rest.filter p = [] := by
      refine List.filter_eq_nil_iff.mpr fun a ha hpa => ?_
      have hlt := hp a ((hl a).mpr (.inr ha)) b ((hl b).mpr (.inl hb)) hpa
        (Bool.eq_false_iff.mpr hpb)
      exact absurd (hbest b hb a ha) (not_le.mpr hlt)
    rw [hnone, List.length_nil] at htotal
    omega

/-- Where nothing is left out but elements that come after the others, a selection of the rest is
one of all exactly if the rest are enough. -/
theorem top_filter_iff {p : α → Bool}
    (hp : ∀ a ∈ l, ∀ b ∈ l, p a = true → p b = false → key b < key a)
    (h : Top key k (l.filter p) top) : Top key k l top ↔ min k l.length ≤ (l.filter p).length := by
  have hle := List.length_filter_le p l
  constructor
  · intro hall
    obtain ⟨-, -, hlength, -⟩ := h
    obtain ⟨-, -, hlength', -⟩ := hall
    omega
  · intro henough
    obtain ⟨rest, hperm, hlength, hbest, hsorted⟩ := h
    have hmem : ∀ a ∈ top, a ∈ l ∧ p a = true := fun a ha =>
      List.mem_filter.mp (hperm.mem_iff.mp (List.mem_append_left _ ha))
    refine ⟨rest ++ l.filter fun a => !p a, ?_, by omega, fun a ha b hb => ?_, hsorted⟩
    · rw [← List.append_assoc]
      exact (hperm.append_right _).trans (List.filter_append_perm p l)
    · rcases List.mem_append.mp hb with hb | hb
      · exact hbest a ha b hb
      · obtain ⟨hbl, hpb⟩ := List.mem_filter.mp hb
        exact le_of_lt (hp a (hmem a ha).1 b hbl (hmem a ha).2 (Bool.not_eq_true' _ ▸ hpb))

/-- The best that pass, among the best `n` of all, are the best of those that pass exactly if they
are enough. -/
theorem top_take_filter_iff {n : Nat} {p : α → Bool} (h : Top key n l top) :
    Top key k (l.filter p) ((top.filter p).take k) ↔
      min k (l.filter p).length ≤ (top.filter p).length := by
  obtain ⟨rest, hperm, -, hbest, hsorted⟩ := h
  have hfilter : (top.filter p ++ rest.filter p).Perm (l.filter p) := by
    rw [← List.filter_append]
    exact hperm.filter p
  have htotal := hfilter.length_eq
  rw [List.length_append] at htotal
  constructor
  · rintro ⟨-, -, hlength, -⟩
    rw [List.length_take] at hlength
    omega
  · intro henough
    have hsorted' := hsorted.sublist (List.filter_sublist (p := p))
    refine ⟨(top.filter p).drop k ++ rest.filter p, ?_, ?_, fun a ha b hb =>
      ?_, hsorted'.sublist (List.take_sublist k _)⟩
    · rw [← List.append_assoc, List.take_append_drop]
      exact hfilter
    · rw [List.length_take]
      omega
    · rcases List.mem_append.mp hb with hb | hb
      · rw [← List.take_append_drop k (top.filter p), List.pairwise_append] at hsorted'
        exact hsorted'.2.2 a ha b hb
      · exact hbest a (List.mem_of_mem_filter (List.mem_of_mem_take ha)) b
          (List.mem_of_mem_filter hb)

/-- The first of a selection that is large enough. -/
theorem Top.take {n : Nat} (h : Top key n l top) (hk : min k l.length ≤ n) :
    Top key k l (top.take k) := by
  have hall := top_take_filter_iff (k := k) (p := fun _ => true) h
  obtain ⟨-, -, hlength, -⟩ := h
  rw [List.filter_true, List.filter_true] at hall
  exact hall.mpr (by omega)

/-- The parts of a list, by a key of its elements. -/
theorem perm_flatMap_filter {κ : Type*} [DecidableEq κ] (f : α → κ) {keys : List κ}
    (hkeys : keys.Nodup) (h : ∀ a ∈ l, f a ∈ keys) :
    (keys.flatMap fun k => l.filter fun a => f a = k).Perm l := by
  induction keys generalizing l with
  | nil =>
    cases l with
    | nil => exact .refl _
    | cons a l => exact absurd (h a List.mem_cons_self) List.not_mem_nil
  | cons k keys ih =>
    obtain ⟨hk, hkeys⟩ := List.nodup_cons.mp hkeys
    have hrest : (keys.flatMap fun k' => l.filter fun a => f a = k') =
        keys.flatMap fun k' => (l.filter fun a => !decide (f a = k)).filter fun a => f a = k' := by
      refine List.flatMap_congr fun k' hk' => ?_
      rw [List.filter_filter]
      refine List.filter_congr fun a _ => ?_
      by_cases ha : f a = k'
      · simp [ha, show k' ≠ k from fun he => hk (he ▸ hk')]
      · simp [ha]
    rw [List.flatMap_cons, hrest]
    refine ((ih hkeys fun a ha => ?_).append_left _).trans
      (List.filter_append_perm (fun a => f a = k) l)
    obtain ⟨hl, hne⟩ := List.mem_filter.mp ha
    exact (List.mem_cons.mp (h a hl)).resolve_left (by simpa using hne)

/-- What is left of the parts of a list when the best of each are taken. -/
theorem rest_of_parts {parts tops : List (List α)} (h : List.Forall₂ (Top key k) parts tops) :
    ∃ rest, (tops.flatten ++ rest).Perm parts.flatten ∧
      ∀ b ∈ rest, ∃ t ∈ tops, t.length = k ∧ ∀ a ∈ t, key b ≤ key a := by
  induction h with
  | nil => exact ⟨[], List.Perm.refl _, fun b hb => absurd hb List.not_mem_nil⟩
  | @cons l top parts tops htop _ ih =>
    obtain ⟨rest, hperm, hrest⟩ := ih
    obtain ⟨rest', hperm', hlength, hbest, -⟩ := htop
    refine ⟨rest' ++ rest, ?_, fun b hb => ?_⟩
    · rw [List.flatten_cons, List.flatten_cons]
      have hswap : (top ++ tops.flatten ++ (rest' ++ rest)).Perm
          (top ++ rest' ++ (tops.flatten ++ rest)) := by
        rw [List.append_assoc, List.append_assoc]
        exact (List.perm_append_comm_assoc _ _ _).append_left top
      exact hswap.trans (hperm'.append hperm)
    · rcases List.mem_append.mp hb with hb | hb
      · refine ⟨top, List.mem_cons_self, ?_, fun a ha => hbest a ha b hb⟩
        have htotal := hperm'.length_eq
        have hpos := List.length_pos_of_mem hb
        rw [List.length_append] at htotal
        omega
      · obtain ⟨t, ht, hkt, hbt⟩ := hrest b hb
        exact ⟨t, List.mem_cons_of_mem _ ht, hkt, hbt⟩

/-- The best of the best of the parts are the best of the whole. -/
theorem Top.of_parts {parts tops : List (List α)} (h : List.Forall₂ (Top key k) parts tops)
    (htop : Top key k tops.flatten top) : Top key k parts.flatten top := by
  obtain ⟨rest, hperm, hrest⟩ := rest_of_parts h
  obtain ⟨rest', hperm', hlength, hbest, hsorted⟩ := htop
  have htotal := hperm.length_eq
  rw [List.length_append] at htotal
  refine ⟨rest' ++ rest, ?_, ?_, fun a ha b hb => ?_, hsorted⟩
  · rw [← List.append_assoc]
    exact (hperm'.append_right rest).trans hperm
  · rcases rest with _ | ⟨b, rest⟩
    · rw [hlength, ← htotal, List.length_nil, Nat.add_zero]
    · obtain ⟨t, ht, hkt, -⟩ := hrest b List.mem_cons_self
      have hle := (List.sublist_flatten_of_mem ht).length_le
      omega
  · rcases List.mem_append.mp hb with hb | hb
    · exact hbest a ha b hb
    · -- otherwise the `k` best of the part of `b` are better than `a`, and `top` has room for
      -- them only
      by_contra hlt
      rw [not_le] at hlt
      obtain ⟨t, ht, hkt, hbt⟩ := hrest b hb
      have hall : t.countP (fun c => key a < key c) = t.length :=
        List.countP_eq_length.mpr fun c hc => decide_eq_true (hlt.trans_le (hbt c hc))
      have hnone : rest'.countP (fun c => key a < key c) = 0 :=
        List.countP_eq_zero.mpr fun c hc => by simpa using hbest a ha c hc
      have hfew : top.countP (fun c => key a < key c) < top.length :=
        List.countP_lt_length_iff.mpr ⟨a, ha, decide_eq_false (lt_irrefl _)⟩
      have hsub := (List.sublist_flatten_of_mem ht).countP_le (p := fun c => key a < key c)
      rw [← hperm'.countP_eq, List.countP_append] at hsub
      omega

end Framework
