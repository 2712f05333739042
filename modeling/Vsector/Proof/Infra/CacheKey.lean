import Vsector.Impl.Infra.Cache
import Vsector.Proof.Models.JsonText

/-!
# What a cache key identifies

The text a key is the digest of is the namespace and the number of results
without anything between them, the first eight elements of the vector, and
the filters. It can be taken apart again but for the first two
(`hashedText_unique`): so queries of one key are the same query, unless they
only differ in where the namespace ends and in the elements after the eighth
(`key_identifies_iff`).
-/

namespace Vsector.Infra

open Framework Models

variable {X : Externals}

/-- The names `Namespace` accepts: `^[a-zA-Z0-9_\-\.]{1,64}$`. -/
def isNamespaceName (s : String) : Bool :=
  1 ≤ s.length && s.length ≤ 64 && s.toList.all fun c =>
    c.isAlphanum || c == '_' || c == '-' || c == '.'

/-- The same query: filters are compared as dictionaries. -/
def SameQuery (q q' : CacheQuery) : Prop :=
  q.ns = q'.ns ∧ q.vector = q'.vector ∧ q.topK = q'.topK ∧
    (Json.obj q.filters).sortKeys = (Json.obj q'.filters).sortKeys

/-- The number of results goes on where the name of the namespace ends, and the queries agree but
for that and the elements after the eighth. -/
def Confusable (q q' : CacheQuery) : Prop :=
  q.ns ++ toString q.topK = q'.ns ++ toString q'.topK ∧ q.vector.take 8 = q'.vector.take 8 ∧
    (Json.obj q.filters).sortKeys = (Json.obj q'.filters).sortKeys ∧
    (q.ns ≠ q'.ns ∨ q.vector.drop 8 ≠ q'.vector.drop 8)

theorem sortKeys_floats (xs : List PyFloat) :
    (Json.arr (xs.map .float)).sortKeys = .arr (xs.map .float) := by
  have hitems : Json.sortItems (xs.map .float) = xs.map .float := by
    induction xs with
    | nil => rfl
    | cons x xs ih => rw [List.map_cons, Json.sortItems, ih]; rfl
  rw [Json.sortKeys, hitems]

theorem floats_inj {xs ys : List PyFloat}
    (h : Json.arr (xs.map .float) = Json.arr (ys.map .float)) : xs = ys :=
  List.map_injective_iff.mpr (fun _ _ h => Json.float.inj h) (Json.arr.inj h)

/-- The characters before the vector are none of its. -/
theorem name_ne_bracket {ns : String} (h : isNamespaceName ns = true) (k : Int) :
    ∀ c ∈ (ns ++ toString k).toList, decide (c ≠ '[') = true := by
  intro c hc
  rw [String.toList_append, List.mem_append] at hc
  refine decide_eq_true fun he => ?_
  subst he
  rcases hc with hc | hc
  · rw [isNamespaceName, Bool.and_eq_true] at h
    exact absurd (List.all_eq_true.mp h.2 _ hc) (by decide)
  · rcases Json.int_chars k _ hc with hd | hd <;> exact absurd hd (by decide)

theorem hashedText_unique (hX : X.FloatRepr) {q q' : CacheQuery} (hn : isNamespaceName q.ns = true)
    (hn' : isNamespaceName q'.ns = true) (h : hashedText X q = hashedText X q') :
    q.ns ++ toString q.topK = q'.ns ++ toString q'.topK ∧ q.vector.take 8 = q'.vector.take 8 ∧
      (Json.obj q.filters).sortKeys = (Json.obj q'.filters).sortKeys := by
  have hlist : ∀ q : CacheQuery, (hashedText X q).toList = (q.ns ++ toString q.topK).toList ++
      '[' :: (Json.itemsText X .default ((q.vector.take 8).map .float) ++
        Json.text X .default (Json.obj q.filters).sortKeys) := by
    intro q
    rw [hashedText, String.toList_append, String.toList_append, Json.dumps, Json.dumps,
      String.toList_ofList, String.toList_ofList, sortKeys_floats, Json.text, List.append_assoc]
    rfl
  have hends : ∀ q :
      CacheQuery, Json.Ends (Json.text X .default (Json.obj q.filters).sortKeys) := by
    intro q c hc
    rw [Json.sortKeys, Json.text] at hc
    cases hc
    rfl
  have htext := congrArg String.toList h
  rw [hlist, hlist] at htext
  have hstop : ∀ s : List Char, ∀ c ∈ ('[' :: s).head?, decide (c ≠ '[') = false :=
    fun s c hc => by cases hc; rfl
  obtain ⟨hname, hrest⟩ := takeWhile_unique (name_ne_bracket hn q.topK)
    (name_ne_bracket hn' q'.topK) (hstop _) (hstop _) htext
  obtain ⟨hitems, hfilters⟩ := Json.itemsText_unique hX _ _ _ _ (List.cons.inj hrest).2
  have hend : ∀ c ∈ ([] : List Char).head?, Json.isScalarChar c = false := fun c hc => by cases hc
  have hobj : Json.text X .default (Json.obj q.filters).sortKeys ++
      [] = Json.text X .default (Json.obj q'.filters).sortKeys ++ [] := by
    rw [hfilters]
  exact ⟨String.toList_inj.mp hname, floats_inj (congrArg Json.arr hitems),
    (Json.text_unique hX _ _ _ _ hend hend hobj).1⟩

/-- Where the digests of the two texts do not collide, queries of one key are the same query if and
only if they are not confusable. -/
theorem key_identifies_iff (hX : X.FloatRepr) (q q' : CacheQuery) (hn : isNamespaceName q.ns = true)
    (hn' : isNamespaceName q'.ns = true)
    (hinj : hashQuery X q = hashQuery X q' → hashedText X q = hashedText X q') :
    (hashQuery X q = hashQuery X q' → SameQuery q q') ↔ ¬ Confusable q q' := by
  constructor
  · rintro hsame ⟨hname, htake, hfilters, hne⟩
    have htext : hashedText X q = hashedText X q' := by
      have hdumps : Json.dumps X .default (.obj q.filters) =
          Json.dumps X .default (.obj q'.filters) := by
        simp only [Json.dumps, hfilters]
      rw [hashedText, hashedText, hname, htake, hdumps]
    obtain ⟨hns, hvec, -, -⟩ := hsame (by rw [hashQuery, hashQuery, htext])
    rcases hne with hne | hne
    · exact hne hns
    · exact hne (by rw [hvec])
  · intro hnot hkey
    obtain ⟨hname, htake, hfilters⟩ := hashedText_unique hX hn hn' (hinj hkey)
    have hns : q.ns = q'.ns := by
      by_contra hne
      exact hnot ⟨hname, htake, hfilters, .inl hne⟩
    have hdrop : q.vector.drop 8 = q'.vector.drop 8 := by
      by_contra hne
      exact hnot ⟨hname, htake, hfilters, .inr hne⟩
    refine ⟨hns, ?_, ?_, hfilters⟩
    · rw [← List.take_append_drop 8 q.vector, ← List.take_append_drop 8 q'.vector, htake, hdrop]
    · rw [hns] at hname
      exact Int.repr_injective (String.append_right_inj q'.ns |>.mp hname)

section

private def someQuery (ns : String) (topK : Int) (last : ℚ) : CacheQuery :=
  ⟨ns, List.replicate 8 (.finite 1) ++ [.finite last], topK, [("k", .null)]⟩

/-- Filters in another order. -/
theorem key_identifies_reordered :
    let q := { someQuery "docs" 10 1 with filters := [("a", .null), ("b", .int 1)] }
    let q' := { someQuery "docs" 10 1 with filters := [("b", .int 1), ("a", .null)] }
    hashQuery fractional q = hashQuery fractional q' ∧ SameQuery q q' := by
  intro q q'
  have htext : hashedText fractional q = hashedText fractional q' := by decide +kernel
  have hkey : hashQuery fractional q = hashQuery fractional q' := by
    rw [hashQuery, hashQuery, htext]
  refine ⟨hkey, (key_identifies_iff fractional_floatRepr q q' (by decide) (by decide) fun _ =>
    htext).mpr ?_ hkey⟩
  rintro ⟨-, -, -, hne | hne⟩ <;> exact hne rfl

/-- 110 results of `docs` and 10 of `docs1`, and vectors that differ in the ninth element, have one
text. -/
theorem keys_of_two_namespaces :
    isNamespaceName "docs" = true ∧ isNamespaceName "docs1" = true ∧
      hashedText fractional (someQuery "docs" 110 1) =
        hashedText fractional (someQuery "docs1" 10 2) ∧
      hashQuery fractional (someQuery "docs" 110 1) =
        hashQuery fractional (someQuery "docs1" 10 2) ∧
      ¬ SameQuery (someQuery "docs" 110 1) (someQuery "docs1" 10 2) := by
  have htext : hashedText fractional (someQuery "docs" 110 1) =
      hashedText fractional (someQuery "docs1" 10 2) := by
    decide +kernel
  exact ⟨by decide, by decide, htext, by rw [hashQuery, hashQuery,
    htext], fun h => absurd h.1 (by decide)⟩

end

end Vsector.Infra
