import Vsector.Framework.Dict

/-!
# Stacks of tables

A log-structured store keeps immutable tables of values and searches them
newest first: `newest` is the first value with a key. Writing the tables into
a dictionary from the oldest to the newest gives the same (`get?_setAll`), as
long as no table has two values with one key.
-/

namespace Framework

namespace Layers

variable {K V : Type*} [DecidableEq K] (key : V → K)

/-- The value with key `k` in a table. -/
def find (table : List V) (k : K) : Option V := table.find? fun v => key v = k

/-- The value with key `k` in the newest of the tables that has one; the newest table comes
first. -/
def newest : List (List V) → K → Option V
  | [], _ => none
  | t :: ts, k => (find key t k).or (newest ts k)

/-- The dictionary after the values of a table are written to it. -/
def setAll (d : Dict K V) (table : List V) : Dict K V := table.foldl (fun d v => d.set (key v) v) d

variable {key}

theorem key_of_find {t : List V} {k : K} {v : V} (h : find key t k = some v) : key v = k := by
  simpa using List.find?_some h

theorem mem_of_find {t : List V} {k : K} {v : V} (h : find key t k = some v) : v ∈ t :=
  List.mem_of_find?_eq_some h

theorem key_of_newest {ts : List (List V)} {k : K} {v : V} (h : newest key ts k = some v) :
    key v = k := by
  induction ts with
  | nil => cases h
  | cons t ts ih =>
    rcases Option.or_eq_some_iff.mp h with h | ⟨-, h⟩
    · exact key_of_find h
    · exact ih h

theorem mem_of_newest {ts : List (List V)} {k : K} {v : V} (h : newest key ts k = some v) :
    ∃ t ∈ ts, v ∈ t := by
  induction ts with
  | nil => cases h
  | cons t ts ih =>
    rcases Option.or_eq_some_iff.mp h with h | ⟨-, h⟩
    · exact ⟨t, List.mem_cons_self, mem_of_find h⟩
    · obtain ⟨t', ht, hv⟩ := ih h
      exact ⟨t', List.mem_cons_of_mem _ ht, hv⟩

theorem newest_append (ts ts' : List (List V)) (k : K) :
    newest key (ts ++ ts') k = (newest key ts k).or (newest key ts' k) := by
  induction ts with
  | nil => rfl
  | cons t ts ih => simp only [List.cons_append, newest, ih, Option.or_assoc]

theorem newest_eq_none {ts : List (List V)} {k : K} :
    newest key ts k = none ↔ ∀ t ∈ ts, find key t k = none := by
  induction ts with
  | nil => simp [newest]
  | cons t ts ih => simp [newest, ih, Option.or_eq_none_iff]

/-- Tables without the key can be left out. -/
theorem newest_filter {α : Type*} {f : α → List V} {p : α → Bool} {ts : List α} {k : K}
    (h : ∀ t ∈ ts, p t = false → find key (f t) k = none) :
    newest key ((ts.filter p).map f) k = newest key (ts.map f) k := by
  induction ts with
  | nil => rfl
  | cons t ts ih =>
    have ih := ih fun t' ht' => h t' (List.mem_cons_of_mem _ ht')
    cases hp : p t with
    | true => rw [List.filter_cons_of_pos hp, List.map_cons, List.map_cons, newest, newest, ih]
    | false =>
      rw [List.filter_cons_of_neg (by rw [hp]; exact Bool.false_ne_true), List.map_cons, newest,
        h t List.mem_cons_self hp, Option.none_or, ih]

/-- In a table without repeated keys a value is found under its key. -/
theorem find_of_mem {t : List V} (h : (t.map key).Nodup) {v : V} (hv : v ∈ t) :
    find key t (key v) = some v := by
  induction t with
  | nil => cases hv
  | cons w t ih =>
    rw [List.map_cons, List.nodup_cons] at h
    simp only [find, List.find?_cons]
    rcases List.mem_cons.mp hv with rfl | hv
    · simp
    · have hne : key w ≠ key v := fun he => h.1 (he ▸ List.mem_map_of_mem hv)
      simp only [hne, decide_false]
      exact ih h.2 hv

theorem find_eq_none {t : List V} {k : K} : find key t k = none ↔ ∀ v ∈ t, key v ≠ k := by
  simp [find]

/-- Tables without repeated keys have the same values exactly if they find the same under every
key. -/
theorem perm_iff_find {t t' : List V} (h : (t.map key).Nodup) (h' : (t'.map key).Nodup) :
    t.Perm t' ↔ ∀ k, find key t k = find key t' k := by
  constructor
  · intro hperm k
    refine Option.ext fun v => ?_
    constructor
    · intro hv
      have hmem := hperm.mem_iff.mp (mem_of_find hv)
      rw [← key_of_find hv]
      exact find_of_mem h' hmem
    · intro hv
      have hmem := hperm.mem_iff.mpr (mem_of_find hv)
      rw [← key_of_find hv]
      exact find_of_mem h hmem
  · intro hfind
    refine (List.perm_ext_iff_of_nodup (.of_map _ h) (.of_map _ h')).mpr fun v => ?_
    constructor
    · intro hv
      exact mem_of_find ((hfind (key v)).symm.trans (find_of_mem h hv))
    · intro hv
      exact mem_of_find ((hfind (key v)).trans (find_of_mem h' hv))

/-- The values of a dictionary that binds them under their own keys. -/
theorem find_values {d : Dict K V} (h : ∀ k v, d.get? k = some v → key v = k) (k : K) :
    find key d.values k = d.get? k := by
  have hkeys : d.values.map key = d.keys := by
    simp only [Dict.values, Dict.keys, List.map_map]
    refine List.map_congr_left fun p hp => ?_
    exact h p.1 p.2 (Dict.mem_entries.mp hp)
  have hn : (d.values.map key).Nodup := hkeys ▸ d.nodup_keys
  cases hk : d.get? k with
  | some v =>
    have := h k v hk
    subst this
    exact find_of_mem hn (Dict.mem_values.mpr ⟨_, hk⟩)
  | none =>
    refine find_eq_none.mpr fun v hv he => ?_
    obtain ⟨k', hk'⟩ := Dict.mem_values.mp hv
    rw [← h k' v hk', he, hk] at hk'
    cases hk'

theorem nodup_values {d : Dict K V} (h : ∀ k v, d.get? k = some v → key v = k) :
    (d.values.map key).Nodup := by
  have hkeys : d.values.map key = d.keys := by
    simp only [Dict.values, Dict.keys, List.map_map]
    exact List.map_congr_left fun p hp => h p.1 p.2 (Dict.mem_entries.mp hp)
  exact hkeys ▸ d.nodup_keys

/-- The values a filter leaves of such a dictionary. -/
theorem find_filter_values {d : Dict K V} (h : ∀ k v, d.get? k = some v → key v = k)
    (p : K × V → Bool) (k : K) :
    find key ((d.entries.filter p).map Prod.snd) k = (d.get? k).filter fun v => p (k, v) := by
  have hsub : ((d.entries.filter p).map Prod.snd).Sublist d.values := List.filter_sublist.map _
  have hn : (((d.entries.filter p).map Prod.snd).map key).Nodup :=
    (nodup_values h).sublist (hsub.map key)
  cases hk : ((d.get? k).filter fun v => p (k, v)) with
  | some v =>
    obtain ⟨hv, hp⟩ := Option.filter_eq_some_iff.mp hk
    rw [← h k v hv] at hp ⊢
    refine find_of_mem hn (List.mem_map.mpr ⟨(k, v),
      List.mem_filter.mpr ⟨Dict.mem_entries.mpr hv, ?_⟩, rfl⟩)
    rwa [h k v hv] at hp
  | none =>
    refine find_eq_none.mpr fun v hv he => ?_
    obtain ⟨⟨k', v'⟩, hm, rfl⟩ := List.mem_map.mp hv
    obtain ⟨hm, hp⟩ := List.mem_filter.mp hm
    have hk' := Dict.mem_entries.mp hm
    have : k' = k := (h k' v' hk').symm.trans he
    subst this
    rw [Option.filter_eq_none_iff] at hk
    exact hk v' hk' hp

/-- The last value with a key in a list. -/
def last (key : V → K) (l : List V) (k : K) : Option V := find key l.reverse k

theorem last_append_singleton (l : List V) (v : V) (k : K) :
    last key (l ++ [v]) k = if key v = k then some v else last key l k := by
  simp only [last, find, List.reverse_append, List.reverse_singleton, List.singleton_append,
    List.find?_cons]
  by_cases h : key v = k <;> simp [h]

theorem last_append (l l' : List V) (k : K) :
    last key (l ++ l') k = (last key l' k).or (last key l k) := by
  rw [last, List.reverse_append, find, List.find?_append]
  rfl

theorem last_eq_find {l : List V} (h : (l.map key).Nodup) (k : K) :
    last key l k = find key l k := by
  have hrev : (l.reverse.map key).Nodup := by
    rw [List.map_reverse]
    exact List.nodup_reverse.mpr h
  exact (perm_iff_find hrev h).mp (List.reverse_perm l) k

theorem key_of_last {l : List V} {k : K} {v : V} (h : last key l k = some v) : key v = k :=
  key_of_find h

theorem get?_setAll {d : Dict K V} {t : List V} (h : (t.map key).Nodup) (k : K) :
    (setAll key d t).get? k = (find key t k).or (d.get? k) := by
  induction t generalizing d with
  | nil => rfl
  | cons v t ih =>
    rw [List.map_cons, List.nodup_cons] at h
    have hd : setAll key d (v :: t) = setAll key (d.set (key v) v) t := rfl
    rw [hd, ih h.2, Dict.get?_set]
    simp only [find, List.find?_cons]
    by_cases hk : k = key v
    · subst hk
      have : t.find? (fun w => decide (key w = key v)) = none :=
        List.find?_eq_none.mpr fun w hw he =>
          h.1 (by rw [← of_decide_eq_true he]; exact List.mem_map_of_mem hw)
      simp [this]
    · simp [hk, Ne.symm hk]

theorem keyed_setAll {d : Dict K V} (h : ∀ k v, d.get? k = some v → key v = k) (t : List V) :
    ∀ k v, (setAll key d t).get? k = some v → key v = k := by
  induction t generalizing d with
  | nil => exact h
  | cons w t ih =>
    refine ih fun k v hk => ?_
    rw [Dict.get?_set] at hk
    split at hk
    · rename_i he; cases hk; exact he.symm
    · exact h k v hk

end Layers

end Framework
