import Vsector.Framework.Dict

/-!
# Dictionaries with other values

`mapValues f` has the keys of a dictionary, in their order, and `f` of its
values. It goes with binding, removing and looking up: so a store that keeps
its values in another form, which `f` reads, is the dictionary it stands for.
-/

namespace Framework

namespace Dict

variable {K V W : Type*} [DecidableEq K] {f : V → W} {d : Dict K V} {k : K} {v : V}

/-- The dictionary with `f` of every value. -/
def mapValues (f : V → W) (d : Dict K V) : Dict K W where
  entries := d.entries.map fun p => (p.1, f p.2)
  nodup := by
    rw [List.map_map]
    exact d.nodup

theorem lookup_mapValues (f : V → W) (k : K) (l : List (K × V)) :
    lookup k (l.map fun p => (p.1, f p.2)) = (lookup k l).map f := by
  induction l with
  | nil => rfl
  | cons p l ih =>
    simp only [List.map_cons, lookup]
    split
    · rfl
    · exact ih

@[simp] theorem get?_mapValues (f : V → W) (d : Dict K V) (k : K) :
    (d.mapValues f).get? k = (d.get? k).map f :=
  lookup_mapValues f k d.entries

theorem insert_mapValues (f : V → W) (k : K) (v : V) (l : List (K × V)) :
    (insert k v l).map (fun p => (p.1, f p.2)) = insert k (f v) (l.map fun p => (p.1, f p.2)) := by
  induction l with
  | nil => rfl
  | cons p l ih =>
    simp only [List.map_cons, insert]
    split
    · rfl
    · rw [List.map_cons, ih]

theorem mapValues_set (f : V → W) (d : Dict K V) (k : K) (v : V) :
    (d.set k v).mapValues f = (d.mapValues f).set k (f v) :=
  eq_of_entries (insert_mapValues f k v d.entries)

theorem mapValues_pop (f : V → W) (d : Dict K V) (k : K) :
    (d.pop k).mapValues f = (d.mapValues f).pop k := by
  refine eq_of_entries ?_
  simp only [mapValues, pop, List.filter_map]
  rfl

omit [DecidableEq K] in
@[simp] theorem mapValues_empty (f : V → W) : (∅ : Dict K V).mapValues f = ∅ := rfl

omit [DecidableEq K] in
theorem values_mapValues (f : V → W) (d : Dict K V) : (d.mapValues f).values = d.values.map f := by
  simp only [mapValues, values, List.map_map]
  rfl

/-- Binding what a dictionary binds, one after the other. -/
theorem foldl_set_entries (d : Dict K V) :
    d.entries.foldl (fun (e : Dict K V) p => e.set p.1 p.2) ∅ = d :=
  eq_of_entries (entries_foldl_set (d := ∅) d.nodup)

end Dict

end Framework
