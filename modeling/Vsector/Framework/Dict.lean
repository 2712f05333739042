import Mathlib

/-!
# Insertion-ordered dictionaries

A dictionary is a list of bindings with pairwise distinct keys, in the order
the keys were first bound: binding a bound key again replaces its value in
place (`set`), removing a key keeps the order of the others (`pop`).
-/

namespace Framework

variable {K V : Type*} [DecidableEq K]

/-- A dictionary from `K` to `V`. -/
structure Dict (K V : Type*) where
  entries : List (K × V)
  nodup : (entries.map Prod.fst).Nodup

namespace Dict

/-- The value bound to `k` in a list of bindings. -/
def lookup (k : K) : List (K × V) → Option V
  | [] => none
  | (a, v) :: l => if a = k then some v else lookup k l

/-- `k` bound to `v`, in place where `k` is bound already. -/
def insert (k : K) (v : V) : List (K × V) → List (K × V)
  | [] => [(k, v)]
  | (a, w) :: l => if a = k then (k, v) :: l else (a, w) :: insert k v l

theorem mem_keys_insert {k a : K} {v : V} {l : List (K × V)} :
    a ∈ (insert k v l).map Prod.fst ↔ a = k ∨ a ∈ l.map Prod.fst := by
  induction l with
  | nil => simp [insert]
  | cons p l ih =>
    obtain ⟨b, w⟩ := p
    simp only [insert]
    split
    · rename_i h; subst h; simp
    · simp only [List.map_cons, List.mem_cons, ih]; tauto

theorem nodup_insert {k : K} {v : V} {l : List (K × V)} (h : (l.map Prod.fst).Nodup) :
    ((insert k v l).map Prod.fst).Nodup := by
  induction l with
  | nil => simp [insert]
  | cons p l ih =>
    obtain ⟨b, w⟩ := p
    simp only [List.map_cons, List.nodup_cons] at h
    simp only [insert]
    split
    · rename_i hb; subst hb; simpa using h
    · rename_i hb
      simp only [List.map_cons, List.nodup_cons, mem_keys_insert, not_or]
      exact ⟨⟨hb, h.1⟩, ih h.2⟩

def empty : Dict K V := ⟨[], List.nodup_nil⟩

instance : EmptyCollection (Dict K V) := ⟨empty⟩
instance : Inhabited (Dict K V) := ⟨empty⟩

instance [DecidableEq V] : DecidableEq (Dict K V) := fun a b =>
  decidable_of_iff (a.entries = b.entries) (by cases a; cases b; simp)

omit [DecidableEq K] in
theorem eq_of_entries {a b : Dict K V} (h : a.entries = b.entries) : a = b := by
  cases a
  cases h
  rfl

/-- `d.get(k)`. -/
def get? (d : Dict K V) (k : K) : Option V := lookup k d.entries

/-- `d[k] = v`. -/
def set (d : Dict K V) (k : K) (v : V) : Dict K V := ⟨insert k v d.entries, nodup_insert d.nodup⟩

/-- `d.pop(k, None)`. -/
def pop (d : Dict K V) (k : K) : Dict K V :=
  ⟨d.entries.filter fun p => p.1 ≠ k, d.nodup.sublist (List.filter_sublist.map _)⟩

def keys (d : Dict K V) : List K := d.entries.map Prod.fst
def values (d : Dict K V) : List V := d.entries.map Prod.snd

theorem lookup_insert (k a : K) (v : V) (l : List (K × V)) :
    lookup a (insert k v l) = if a = k then some v else lookup a l := by
  induction l with
  | nil => simp [insert, lookup, eq_comm]
  | cons p l ih =>
    obtain ⟨b, w⟩ := p
    simp only [insert]
    by_cases hb : b = k
    · subst hb; by_cases ha : a = b <;> simp [lookup, ha, eq_comm]
    · by_cases ha : b = a
      · subst ha; simp [lookup, hb]
      · simp [lookup, hb, ha, ih]

theorem lookup_filter_ne (k a : K) (l : List (K × V)) :
    lookup a (l.filter fun p => p.1 ≠ k) = if a = k then none else lookup a l := by
  induction l with
  | nil => simp [lookup]
  | cons p l ih =>
    obtain ⟨b, w⟩ := p
    by_cases hb : b = k
    · subst hb
      by_cases ha : b = a
      · subst ha; simpa using ih
      · simp only [ne_eq, not_true_eq_false, decide_false, Bool.false_eq_true, not_false_eq_true,
          List.filter_cons_of_neg, ih, lookup, ha, ite_false]
    · simp only [ne_eq, hb, not_false_eq_true, decide_true, List.filter_cons_of_pos, lookup, ih]
      by_cases ha : b = a
      · subst ha; simp [hb]
      · simp [ha]

@[simp] theorem get?_empty (k : K) : (∅ : Dict K V).get? k = none := rfl

theorem get?_set (d : Dict K V) (k a : K) (v : V) :
    (d.set k v).get? a = if a = k then some v else d.get? a := lookup_insert k a v d.entries

@[simp] theorem get?_set_self (d : Dict K V) (k : K) (v : V) : (d.set k v).get? k = some v := by
  rw [get?_set, if_pos rfl]

theorem get?_set_ne (d : Dict K V) {k a : K} (v : V) (h : a ≠ k) :
    (d.set k v).get? a = d.get? a := by
  rw [get?_set, if_neg h]

theorem get?_pop (d : Dict K V) (k a : K) : (d.pop k).get? a = if a = k then none else d.get? a :=
  lookup_filter_ne k a d.entries

@[simp] theorem get?_pop_self (d : Dict K V) (k : K) : (d.pop k).get? k = none := by
  rw [get?_pop, if_pos rfl]

theorem get?_pop_ne (d : Dict K V) {k a : K} (h : a ≠ k) : (d.pop k).get? a = d.get? a := by
  rw [get?_pop, if_neg h]

theorem pop_pop (d : Dict K V) (k : K) : (d.pop k).pop k = d.pop k := by
  refine eq_of_entries ?_
  simp only [pop, List.filter_filter, Bool.and_self]

theorem lookup_eq_some {k : K} {v : V} {l : List (K × V)} (h : (l.map Prod.fst).Nodup) :
    lookup k l = some v ↔ (k, v) ∈ l := by
  induction l with
  | nil => simp [lookup]
  | cons p l ih =>
    obtain ⟨b, w⟩ := p
    simp only [List.map_cons, List.nodup_cons] at h
    by_cases hb : b = k
    · subst hb
      have : (b, v) ∉ l := fun hm => h.1 (List.mem_map_of_mem (f := Prod.fst) hm)
      simp [lookup, this, eq_comm]
    · simp [lookup, hb, ih h.2, Ne.symm hb]

/-- The bindings are what `get?` finds. -/
theorem mem_entries {d : Dict K V} {k : K} {v : V} : (k, v) ∈ d.entries ↔ d.get? k = some v :=
  (lookup_eq_some d.nodup).symm

theorem mem_keys {d : Dict K V} {k : K} : k ∈ d.keys ↔ (d.get? k).isSome := by
  simp only [keys, List.mem_map, Prod.exists, exists_and_right, exists_eq_right, mem_entries,
    Option.isSome_iff_exists]

theorem mem_values {d : Dict K V} {v : V} : v ∈ d.values ↔ ∃ k, d.get? k = some v := by
  simp only [values, List.mem_map, Prod.exists, exists_eq_right, mem_entries]

omit [DecidableEq K] in
theorem nodup_keys (d : Dict K V) : d.keys.Nodup := d.nodup

theorem keys_set_of_some {d : Dict K V} {k : K} {v : V} (h : (d.get? k).isSome) :
    (d.set k v).keys = d.keys := by
  obtain ⟨l, hl⟩ := d
  simp only [get?, keys, set] at *
  clear hl
  induction l with
  | nil => simp [lookup] at h
  | cons p l ih =>
    obtain ⟨b, w⟩ := p
    by_cases hb : b = k
    · simp [insert, hb]
    · simp only [lookup, hb, ite_false] at h
      simp [insert, hb, ih h]

theorem entries_set_of_none {d : Dict K V} {k : K} {v : V} (h : d.get? k = none) :
    (d.set k v).entries = d.entries ++ [(k, v)] := by
  obtain ⟨l, hl⟩ := d
  simp only [get?, set] at *
  clear hl
  induction l with
  | nil => rfl
  | cons p l ih =>
    obtain ⟨b, w⟩ := p
    by_cases hb : b = k
    · simp [lookup, hb] at h
    · simp only [lookup, hb, ite_false] at h
      simp [insert, hb, ih h]

/-- Binding fresh keys one after the other. -/
theorem entries_foldl_set {l : List (K × V)} {d : Dict K V} (h : (d.keys ++ l.map Prod.fst).Nodup) :
    (l.foldl (fun d p => d.set p.1 p.2) d).entries = d.entries ++ l := by
  induction l generalizing d with
  | nil => rw [List.foldl_nil, List.append_nil]
  | cons p l ih =>
    have hp : d.get? p.1 = none := by
      rw [← Option.not_isSome_iff_eq_none, ← mem_keys]
      exact fun hm => List.disjoint_of_nodup_append h hm List.mem_cons_self
    have hkeys : (d.set p.1 p.2).keys = d.keys ++ [p.1] := by
      rw [keys, entries_set_of_none hp, List.map_append]
      rfl
    rw [List.foldl_cons, ih, entries_set_of_none hp, List.append_assoc, List.singleton_append]
    rw [hkeys, List.append_assoc, List.singleton_append]
    exact h

/-- Several keys are bound to one value. -/
theorem get?_foldl_set {ι : Type*} (f : ι → K) (v : V) (l : List ι) (d : Dict K V) (a : K) :
    (l.foldl (fun d i => d.set (f i) v) d).get? a = if a ∈ l.map f then some v else d.get? a := by
  induction l generalizing d with
  | nil => simp
  | cons i l ih =>
    rw [List.foldl_cons, ih, get?_set]
    by_cases h : a = f i <;> simp [h]

/-- Several keys are dropped. -/
theorem entries_foldl_pop {ι : Type*} (f : ι → K) (l : List ι) (d : Dict K V) :
    (l.foldl (fun d i => d.pop (f i)) d).entries = d.entries.filter fun p => p.1 ∉ l.map f := by
  induction l generalizing d with
  | nil => simp
  | cons i l ih =>
    rw [List.foldl_cons, ih, pop, List.filter_filter]
    refine List.filter_congr fun p _ => ?_
    by_cases h : p.1 = f i <;> simp [h, List.map_cons, List.mem_cons]

theorem get?_foldl_pop {ι : Type*} (f : ι → K) (l : List ι) (d : Dict K V) (a : K) :
    (l.foldl (fun d i => d.pop (f i)) d).get? a = if a ∈ l.map f then none else d.get? a := by
  induction l generalizing d with
  | nil => simp
  | cons i l ih =>
    rw [List.foldl_cons, ih, get?_pop]
    by_cases h : a = f i <;> simp [h]

/-- Fresh keys are bound and dropped again. -/
theorem foldl_pop_foldl_set {ι : Type*} (f : ι → K) (v : V) {l : List ι} {d : Dict K V}
    (h : (d.keys ++ l.map f).Nodup) :
    l.foldl (fun d i => d.pop (f i)) (l.foldl (fun d i => d.set (f i) v) d) = d := by
  have hset : (l.foldl (fun d i => d.set (f i) v) d).entries = d.entries ++ l.map fun i =>
      (f i, v) := by
    have := entries_foldl_set (l := l.map fun i => (f i, v)) (d := d)
      (by simpa [List.map_map, Function.comp_def] using h)
    rwa [List.foldl_map] at this
  refine eq_of_entries ?_
  rw [entries_foldl_pop, hset, List.filter_append]
  have hold : d.entries.filter (fun p => p.1 ∉ l.map f) = d.entries := by
    refine List.filter_eq_self.mpr fun p hp => decide_eq_true fun hm => ?_
    exact List.disjoint_of_nodup_append h (List.mem_map_of_mem hp) hm
  have hnew : (l.map fun i => (f i, v)).filter (fun p => p.1 ∉ l.map f) = [] := by
    refine List.filter_eq_nil_iff.mpr fun p hp => ?_
    obtain ⟨i, hi, rfl⟩ := List.mem_map.mp hp
    simpa using ⟨i, hi, rfl⟩
  rw [hold, hnew, List.append_nil]

theorem keys_set_of_none {d : Dict K V} {k : K} {v : V} (h : d.get? k = none) :
    (d.set k v).keys = d.keys ++ [k] := by
  rw [keys, entries_set_of_none h, List.map_append]
  rfl

theorem values_set_of_none {d : Dict K V} {k : K} {v : V} (h : d.get? k = none) :
    (d.set k v).values = d.values ++ [v] := by
  rw [values, entries_set_of_none h, List.map_append]
  rfl

theorem entries_set_of_some {d : Dict K V} {k : K} {v w : V} (h : d.get? k = some w) :
    (d.set k v).entries = d.entries.map fun p => if p.1 = k then (k, v) else p := by
  obtain ⟨l, hl⟩ := d
  simp only [get?, set] at *
  induction l with
  | nil => cases h
  | cons p l ih =>
    obtain ⟨b, x⟩ := p
    simp only [List.map_cons, List.nodup_cons] at hl
    by_cases hb : b = k
    · subst hb
      have hrest : l.map (fun p => if p.1 = b then (b, v) else p) = l := by
        refine (List.map_congr_left fun p hp => ?_).trans (List.map_id l)
        have hne : p.1 ≠ b := fun he => hl.1 (he ▸ List.mem_map_of_mem hp)
        exact if_neg hne
      simp [insert, hrest]
    · simp only [lookup, hb, ite_false] at h
      simp [insert, hb, ih hl.2 h]

/-- Rebinding a key to a value with the same image changes no image. -/
theorem map_values_set {W : Type*} {g : V → W} {d : Dict K V} {k : K} {v w : V}
    (h : d.get? k = some w) (hg : g v = g w) : (d.set k v).values.map g = d.values.map g := by
  rw [values, values, entries_set_of_some h, List.map_map, List.map_map, List.map_map]
  refine List.map_congr_left fun p hp => ?_
  by_cases hk : p.1 = k
  · have hpw : d.get? k = some p.2 := mem_entries.mp (hk ▸ hp)
    rw [h] at hpw
    simp only [Function.comp, hk, if_true, hg, Option.some.inj hpw]
  · simp only [Function.comp, hk, if_false]

/-- A value takes the place of another. -/
theorem values_set_of_some {d : Dict K V} {k : K} {v w : V} (h : d.get? k = some w) :
    ∃ before after, d.values = before ++ w :: after ∧
      (d.set k v).values = before ++ v :: after := by
  obtain ⟨l, hl⟩ := d
  show ∃ before after, l.map Prod.snd = before ++ w :: after ∧
    (insert k v l).map Prod.snd = before ++ v :: after
  change lookup k l = some w at h
  clear hl
  induction l with
  | nil => cases h
  | cons p l ih =>
    obtain ⟨b, u⟩ := p
    rw [lookup] at h
    rw [insert]
    split at h
    · rename_i hb
      cases h
      rw [if_pos hb]
      exact ⟨[], l.map Prod.snd, rfl, rfl⟩
    · rename_i hb
      obtain ⟨before, after, hl, hins⟩ := ih h
      rw [if_neg hb, List.map_cons, List.map_cons, hl, hins]
      exact ⟨u :: before, after, rfl, rfl⟩

theorem set_eq_self {d : Dict K V} {k : K} {v : V} (h : d.get? k = some v) : d.set k v = d := by
  have he : (d.set k v).entries = d.entries := by
    rw [entries_set_of_some h]
    refine (List.map_congr_left fun p hp => ?_).trans (List.map_id _)
    by_cases hk : p.1 = k
    · have hpv : d.get? k = some p.2 := mem_entries.mp (hk ▸ hp)
      rw [h] at hpv
      rw [if_pos hk, Option.some.inj hpv, ← hk]
      rfl
    · rw [if_neg hk]; rfl
  cases d
  simpa [set] using he

/-- The bindings of two dictionaries in which every key has the same value. -/
theorem perm_entries {a b : Dict K V} (h : ∀ k, a.get? k = b.get? k) :
    a.entries.Perm b.entries := by
  refine (List.perm_ext_iff_of_nodup (List.Nodup.of_map _ a.nodup)
    (List.Nodup.of_map _ b.nodup)).mpr fun p => ?_
  rw [← Prod.mk.eta (p := p), mem_entries, mem_entries, h]

theorem perm_values {a b : Dict K V} (h : ∀ k, a.get? k = b.get? k) : a.values.Perm b.values :=
  (perm_entries h).map _

/-- Binding a key changes nothing that `p` selects where it selects neither the old value nor the
new one. -/
theorem filter_values_set {p : V → Bool} {d : Dict K V} {k : K} {v : V} (hv : p v = false)
    (h : ∀ w, d.get? k = some w → p w = false) :
    (d.set k v).values.filter p = d.values.filter p := by
  obtain ⟨l, hl⟩ := d
  simp only [get?, values, set] at *
  clear hl
  induction l with
  | nil => simp [insert, hv]
  | cons a l ih =>
    obtain ⟨b, w⟩ := a
    by_cases hb : b = k
    · have hw := h w (by simp [lookup, hb])
      simp [insert, hb, hv, hw]
    · have ih := ih fun u hu => h u (by simpa [lookup, hb] using hu)
      simp only [insert, hb, if_false, List.map_cons, List.filter_cons, ih]

theorem filter_values_pop {p : V → Bool} {d : Dict K V} {k : K}
    (h : ∀ w, d.get? k = some w → p w = false) :
    (d.pop k).values.filter p = d.values.filter p := by
  rw [values, values, pop, List.filter_map, List.filter_map, List.filter_filter]
  congr 1
  refine List.filter_congr fun a ha => ?_
  by_cases hk : a.1 = k
  · have hp : p a.2 = false := h a.2 (mem_entries.mp (hk ▸ ha))
    simp [hp]
  · simp [hk]

theorem length_pop_le (d : Dict K V) (k : K) : (d.pop k).entries.length ≤ d.entries.length :=
  List.length_filter_le _ _

end Dict

/-! ## Sets -/

/-- A set, in the order of insertion. -/
abbrev PySet (K : Type*) := Dict K Unit

namespace PySet

/-- `s.add(k)`. -/
def add (s : PySet K) (k : K) : PySet K := Dict.set s k ()

/-- `s.discard(k)`. -/
def discard (s : PySet K) (k : K) : PySet K := Dict.pop s k

/-- `k in s`. -/
def has (s : PySet K) (k : K) : Bool := (Dict.get? s k).isSome

/-- `set(keys)`. -/
def ofList (keys : List K) : PySet K := keys.foldl add ∅

@[simp] theorem has_empty (k : K) : has (∅ : PySet K) k = false := rfl

theorem has_add (s : PySet K) (k a : K) : (s.add k).has a = (decide (a = k) || s.has a) := by
  rw [has, add, Dict.get?_set]
  split <;> simp [has, *]

theorem add_add (s : PySet K) (k : K) : (s.add k).add k = s.add k :=
  Dict.set_eq_self (Dict.get?_set_self _ _ _)

theorem has_discard (s : PySet K) (k a : K) :
    (s.discard k).has a = (!decide (a = k) && s.has a) := by
  rw [has, discard, Dict.get?_pop]
  split <;> simp [has, *]

theorem has_iff_mem_keys {s : PySet K} {k : K} : s.has k = true ↔ k ∈ Dict.keys s :=
  Dict.mem_keys.symm

theorem has_ofList {keys : List K} {k : K} : (ofList keys).has k = true ↔ k ∈ keys := by
  have : ∀ s : PySet K, (keys.foldl add s).has k = true ↔ k ∈ keys ∨ s.has k = true := by
    induction keys with
    | nil => simp
    | cons a keys ih =>
      intro s
      rw [List.foldl_cons, ih, has_add]
      simp only [Bool.or_eq_true, decide_eq_true_eq, List.mem_cons]
      tauto
  rw [ofList, this]
  simp

end PySet

end Framework
