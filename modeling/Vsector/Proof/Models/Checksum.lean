import Vsector.Framework.PrefixCode
import Vsector.Proof.Models.JsonText

/-!
# Checksums

The digest of a vector is that of the texts of its elements, with nothing
between them. Where the texts of two vectors have the same lengths position by
position the digest tells them apart (`checksum_inj_of_lengths`); otherwise
the end of one element and the start of the next can be moved: `0.0`, `6251.0`
and `0.0625`, `1.0` are the same text (`vectors_run_together`), whatever
follows them. So the checksum identifies the vectors of one dimension exactly
where that is 1 (`checksum_identifies_iff`).
-/

namespace Vsector.Models

variable {X : Externals}

/-- What is relied on of `float.__repr__`, the shortest decimal that is read back as the same
float: texts tell floats apart, whole numbers below 10¹⁵ end in `.0`, and 1/16 is `0.0625`. -/
structure Externals.ShortestDecimals (X : Externals) : Prop where
  inj : Function.Injective X.floatStr
  whole : ∀ n : ℕ, n < 10 ^ 15 → X.floatStr (.finite n) = toString n ++ ".0"
  sixteenth : X.floatStr (.finite (1 / 16)) = "0.0625"

/-- The records whose checksum was computed: the constructor's, and those `bump_version` made of
them. -/
inductive VectorRecord.Checksummed (X : Externals) : VectorRecord → Prop where
  | new {now id ns vector dimension metadata tags sourceSystem r}
      (h : VectorRecord.new X now id ns vector dimension metadata tags sourceSystem = some r) :
      Checksummed X r
  | bump {r} (now : DateTime) (h : Checksummed X r) : Checksummed X (r.bumpVersion X now)

theorem VectorRecord.Checksummed.checksum_eq {r : VectorRecord} (h : r.Checksummed X) :
    r.checksum = sha256Vector X r.vector := by
  induction h with
  | new h =>
    rw [VectorRecord.new] at h
    split at h
    · split at h
      · cases h
        rfl
      · cases h
    · cases h
  | bump now _ _ => rfl

/-- Every vector with an element is that of a record. -/
theorem exists_checksummed (X : Externals) (id : UUID) {vector : List PyFloat} (h : vector ≠ []) :
    ∃ r : VectorRecord, r.Checksummed X ∧ r.vector = vector := by
  obtain ⟨r, hr, hvector⟩ : ∃ r, VectorRecord.new X "" id "" vector vector.length [] [] "" =
      some r ∧ r.vector = vector := by
    rw [VectorRecord.new, dif_pos h, dif_pos rfl]
    exact ⟨_, rfl, rfl⟩
  exact ⟨r, .new hr, hvector⟩

/-! ## The hashed text -/

/-- The texts of the elements, one after the other. -/
def vectorText (X : Externals) (vector : List PyFloat) : List Char :=
  vector.flatMap fun x => (X.floatStr x).toList

theorem toList_joined (X : Externals) (vector : List PyFloat) :
    (String.join (vector.map X.floatStr)).toList = vectorText X vector := by
  rw [String.toList_join, List.flatMap_map]
  rfl

theorem sha256Vector_eq_iff (hs : Function.Injective X.sha256) {v w : List PyFloat} :
    sha256Vector X v = sha256Vector X w ↔ vectorText X v = vectorText X w := by
  rw [sha256Vector, sha256Vector, hs.eq_iff, ← String.toList_inj, toList_joined, toList_joined]

theorem checksum_inj_of_lengths (hX : X.ShortestDecimals) (hs : Function.Injective X.sha256)
    {v w : List PyFloat}
    (hl : List.Forall₂ (fun x y => (X.floatStr x).length = (X.floatStr y).length) v w)
    (h : sha256Vector X v = sha256Vector X w) : v = w := by
  have hinj : Function.Injective fun x => (X.floatStr x).toList :=
    fun _ _ h => hX.inj (String.toList_inj.mp h)
  refine Framework.flatMap_inj_of_length hinj ?_ ((sha256Vector_eq_iff hs).mp h)
  simpa only [String.length_toList] using hl

/-- `0.0`, `6251.0` and `0.0625`, `1.0`. -/
theorem vectors_run_together (hX : X.ShortestDecimals) (rest : List PyFloat) :
    vectorText X (.finite 0 :: .finite 6251 :: rest) =
      vectorText X (.finite (1 / 16) :: .finite 1 :: rest) := by
  have hzero : X.floatStr (.finite 0) = "0.0" := hX.whole 0 (by decide)
  have hone : X.floatStr (.finite 1) = "1.0" := by
    have h := hX.whole 1 (by decide)
    rwa [Nat.cast_one] at h
  have hlong : X.floatStr (.finite 6251) = "6251.0" := hX.whole 6251 (by decide)
  simp only [vectorText, List.flatMap_cons, hzero, hone, hlong, hX.sixteenth, ← List.append_assoc]
  congr 1

/-! ## Where the checksum identifies the vector -/

/-- Records of dimension `n` with equal checksums have equal vectors. -/
def ChecksumIdentifies (X : Externals) (n : Nat) : Prop :=
  ∀ r r' : VectorRecord, r.Checksummed X → r'.Checksummed X → r.dimension = n → r'.dimension = n →
    r.checksum = r'.checksum → r.vector = r'.vector

theorem not_checksumIdentifies (hX : X.ShortestDecimals) {n : Nat} (hn : 2 ≤ n) :
    ¬ ChecksumIdentifies X n := by
  intro h
  obtain ⟨rest, hrest⟩ : ∃ rest : List PyFloat, rest.length + 2 = n :=
    ⟨List.replicate (n - 2) (.finite 0), by rw [List.length_replicate]; omega⟩
  obtain ⟨r, hr, hv⟩ :=
    exists_checksummed X zeroId (List.cons_ne_nil (.finite 0) (.finite 6251 :: rest))
  obtain ⟨r', hr', hv'⟩ :=
    exists_checksummed X zeroId (List.cons_ne_nil (.finite (1 / 16)) (.finite 1 :: rest))
  have hdim : r.dimension = n := by rw [r.dimension_eq, hv, ← hrest]; rfl
  have hdim' : r'.dimension = n := by rw [r'.dimension_eq, hv', ← hrest]; rfl
  have hsum : r.checksum = r'.checksum := by
    rw [hr.checksum_eq, hr'.checksum_eq, hv, hv', sha256Vector, sha256Vector]
    refine congrArg X.sha256 (String.toList_inj.mp ?_)
    rw [toList_joined, toList_joined]
    exact vectors_run_together hX rest
  have heq := h r r' hr hr' hdim hdim' hsum
  rw [hv, hv', List.cons.injEq, PyFloat.finite.injEq] at heq
  exact absurd heq.1 (by norm_num)

theorem checksum_identifies_iff (hX : X.ShortestDecimals) (hs : Function.Injective X.sha256)
    (n : Nat) :
    (ChecksumIdentifies X n ↔ n ≤ 1) ∧
      ∀ r r' : VectorRecord, r.Checksummed X → r'.Checksummed X →
        List.Forall₂ (fun x y => (X.floatStr x).length = (X.floatStr y).length) r.vector r'.vector →
        r.checksum = r'.checksum → r.vector = r'.vector := by
  refine ⟨⟨fun h => ?_, fun hn r r' hr hr' hdim hdim' h => ?_⟩, fun r r' hr hr' hl h => ?_⟩
  · by_contra hn
    exact not_checksumIdentifies hX (by omega) h
  · rw [hr.checksum_eq, hr'.checksum_eq, sha256Vector_eq_iff hs] at h
    obtain ⟨x, hx⟩ : ∃ x, r.vector = [x] := by
      have hpos := List.length_pos_of_ne_nil r.vector_ne
      exact List.length_eq_one_iff.mp (by have := r.dimension_eq; omega)
    obtain ⟨y, hy⟩ : ∃ y, r'.vector = [y] := by
      have hpos := List.length_pos_of_ne_nil r'.vector_ne
      exact List.length_eq_one_iff.mp (by have := r'.dimension_eq; omega)
    rw [hx, hy, vectorText, vectorText, List.flatMap_singleton, List.flatMap_singleton,
      String.toList_inj] at h
    rw [hx, hy, hX.inj h]
  · rw [hr.checksum_eq, hr'.checksum_eq] at h
    exact checksum_inj_of_lengths hX hs hl h

/-! ## Two elements -/

/-- The text of 1/16 as `float.__repr__` has it. -/
def shortStr (x : PyFloat) : String := if x = .finite (1 / 16) then "0.0625" else fractionStr x

/-- `fractional`, with that text and a digest that tells texts apart. -/
def hashed : Externals := { fractional with floatStr := shortStr, sha256 := fun text => text }

theorem fractionStr_injective : Function.Injective fractionStr := by
  have hword : ∀ x (text : String), fractionStr (.finite x) = text → '.' ∈ text.toList := by
    rintro x _ rfl
    rw [toList_fractionStr]
    exact List.mem_append_right _ List.mem_cons_self
  intro x y h
  cases x with
  | finite x =>
    cases y with
    | finite y => rw [fractional_floatRepr.inj x y h]
    | nan => exact absurd (hword x "nan" h) (by decide)
    | inf => exact absurd (hword x "inf" h) (by decide)
    | negInf => exact absurd (hword x "-inf" h) (by decide)
  | nan =>
    cases y with
    | finite y => exact absurd (hword y "nan" h.symm) (by decide)
    | nan => rfl
    | inf => exact absurd h (by decide)
    | negInf => exact absurd h (by decide)
  | inf =>
    cases y with
    | finite y => exact absurd (hword y "inf" h.symm) (by decide)
    | nan => exact absurd h (by decide)
    | inf => rfl
    | negInf => exact absurd h (by decide)
  | negInf =>
    cases y with
    | finite y => exact absurd (hword y "-inf" h.symm) (by decide)
    | nan => exact absurd h (by decide)
    | inf => exact absurd h (by decide)
    | negInf => rfl

theorem fractionStr_ne (x : PyFloat) : fractionStr x ≠ "0.0625" := by
  intro h
  cases x with
  | finite x =>
    have hchars : (toString x.num).toList ++ '.' ::
        (if x.den = 1 then "0" else toString x.den).toList =
        (toString (0 : Int)).toList ++ '.' :: "0625".toList := by
      rw [← toList_fractionStr, h]
      rfl
    have hpoint : ∀ n : Int, ∀ c ∈ (toString n).toList, decide (c ≠ '.') = true := by
      intro n c hc
      refine decide_eq_true fun he => ?_
      rcases Json.int_chars n c hc with h | h
      · rw [he] at h
        exact absurd h (by decide)
      · rw [he] at h
        exact absurd h (by decide)
    obtain ⟨hnum, hden⟩ := Framework.takeWhile_unique (hpoint x.num) (hpoint 0)
      (fun c hc => by cases hc; rfl)
      (fun c hc => by cases hc; rfl) hchars
    have hzero : x = 0 := Rat.num_eq_zero.mp (Int.repr_injective (String.toList_inj.mp hnum))
    rw [hzero, Rat.den_ofNat, if_pos rfl] at hden
    exact absurd hden (by decide)
  | nan => exact absurd h (by decide)
  | inf => exact absurd h (by decide)
  | negInf => exact absurd h (by decide)

theorem hashed_shortestDecimals : hashed.ShortestDecimals where
  inj x y h := by
    have h : shortStr x = shortStr y := h
    rw [shortStr, shortStr] at h
    split at h
    · split at h
      · simp_all
      · exact absurd h.symm (fractionStr_ne y)
    · split at h
      · exact absurd h (fractionStr_ne x)
      · exact fractionStr_injective h
  whole n _ := by
    show shortStr (.finite n) = _
    rw [shortStr, if_neg, fractionStr, Rat.num_natCast, Rat.den_natCast, if_pos rfl,
      String.append_assoc]
    · rfl
    · intro h
      have h := congrArg Rat.den (PyFloat.finite.inj h)
      rw [Rat.den_natCast] at h
      exact absurd h (by decide +kernel)
  sixteenth := if_pos rfl

theorem hashed_collisionFree : Function.Injective hashed.sha256 := fun _ _ h => h

/-- One element is told by its digest. -/
theorem checksum_of_one_element : ChecksumIdentifies hashed 1 :=
  (checksum_identifies_iff hashed_shortestDecimals hashed_collisionFree 1).1.mpr (Nat.le_refl 1)

/-- Two elements are not. -/
theorem checksum_of_two_elements : hashed.ShortestDecimals ∧ Function.Injective hashed.sha256 ∧
    sha256Vector hashed [.finite 0, .finite 6251] =
      sha256Vector hashed [.finite (1 / 16), .finite 1] ∧
      ¬ ChecksumIdentifies hashed 2 := by
  refine ⟨hashed_shortestDecimals, hashed_collisionFree, ?_,
    not_checksumIdentifies hashed_shortestDecimals (Nat.le_refl 2)⟩
  exact (sha256Vector_eq_iff hashed_collisionFree).mpr
    (vectors_run_together hashed_shortestDecimals [])

end Vsector.Models
