import Vsector.Impl.Errors
import Vsector.Impl.Models.Namespace

/-!
# Index engines

`BaseIndex` of `index/base.py`, as far as writing to it goes: what a search
may return for an id is what the engine holds for it (`hits`); scoring and
top-k selection are left out. `FlatIndex` is the engine of `index/flat.py`;
its vectors are not rounded to `float32` here.
-/

namespace Vsector.Index

open Models

abbrev Metadata := List (String × Json)

/-- An engine a shard may keep its vectors in. -/
class BaseIndex (ι : Type) where
  /-- `create_index`. -/
  create : Namespace → ι
  add : ι → String → List PyFloat → Metadata → Except Exc ι
  delete : ι → String → ι
  /-- The vectors and metadata a search may return for an id. -/
  hits : ι → String → List (List PyFloat × Metadata)

/-- What is relied on: an index takes vectors of the dimension it was created for, and an operation
on one id leaves the others alone. -/
class LawfulIndex (ι : Type) [BaseIndex ι] where
  dimension : ι → Nat
  dimension_create : ∀ ns, dimension (BaseIndex.create ns : ι) = ns.dimension
  add_ok : ∀ (i : ι) id v md, v.length = dimension i → ∃ i', BaseIndex.add i id v md = .ok i'
  dimension_add : ∀ (i i' : ι) id v md, BaseIndex.add i id v md = .ok i' →
    dimension i' = dimension i
  dimension_delete : ∀ (i : ι) id, dimension (BaseIndex.delete i id) = dimension i
  hits_add : ∀ (i i' : ι) id v md a, BaseIndex.add i id v md = .ok i' → a ≠ id →
    BaseIndex.hits i' a = BaseIndex.hits i a
  hits_delete : ∀ (i : ι) id a, a ≠ id →
    BaseIndex.hits (BaseIndex.delete i id) a = BaseIndex.hits i a

/-! ## FlatIndex -/

/-- A row of the parallel lists `ids`, `vectors` and `metadatas`. -/
structure FlatRow where
  id : String
  vector : List PyFloat
  metadata : Metadata

structure FlatIndex where
  dimension : Nat
  rows : List FlatRow

namespace FlatIndex

def add (i : FlatIndex) (id : String) (vector : List PyFloat) (metadata : Metadata) :
    Except Exc FlatIndex :=
  if vector.length = i.dimension then .ok { i with rows := i.rows ++ [⟨id, vector, metadata⟩] }
  else .error .assertionError

def delete (i : FlatIndex) (id : String) : FlatIndex :=
  { i with rows := i.rows.filter fun r => r.id ≠ id }

def hits (i : FlatIndex) (id : String) : List (List PyFloat × Metadata) :=
  (i.rows.filter fun r => r.id = id).map fun r => (r.vector, r.metadata)

end FlatIndex

instance : BaseIndex FlatIndex where
  create ns := ⟨ns.dimension, []⟩
  add := FlatIndex.add
  delete := FlatIndex.delete
  hits := FlatIndex.hits

instance : LawfulIndex FlatIndex where
  dimension := FlatIndex.dimension
  dimension_create _ := rfl
  add_ok i id v md h := ⟨_, if_pos h⟩
  dimension_add i i' id v md h := by
    simp only [BaseIndex.add, FlatIndex.add] at h
    split at h
    · cases h; rfl
    · cases h
  dimension_delete _ _ := rfl
  hits_add i i' id v md a h ha := by
    simp only [BaseIndex.add, FlatIndex.add] at h
    split at h
    · cases h
      simp [BaseIndex.hits, FlatIndex.hits, List.filter_append, Ne.symm ha]
    · cases h
  hits_delete i id a ha := by
    simp only [BaseIndex.hits, BaseIndex.delete, FlatIndex.hits, FlatIndex.delete,
      List.filter_filter]
    congr 1
    refine List.filter_congr fun r _ => ?_
    by_cases hr : r.id = a <;> simp [hr, ha]

end Vsector.Index
