import Vsector.Proof.Models.JsonText
import Vsector.Proof.Sharding.ShardTransfer

/-!
# What a digest says of a shard

`compute_digest_iff`: two shards have one digest exactly if the records of one
are those of the other, as they are written, and the tombstones are too,
whatever order they come in. The two sorts forget the order, and of records
with different ids nothing else.
-/

namespace Vsector.Sharding

open Framework Models Storage

variable {X : Externals} {records records' : List VectorRecord} {deleted deleted' : List String}

/-- What is relied on of `model_dump`: a record is written as fields with different names, and one
of them is its id. -/
structure DumpsId (X : Externals) : Prop where
  fields : ∀ r, ∃ fields, X.modelDump r = .obj fields ∧ (fields.map Prod.fst).Nodup ∧
    fields.lookup "id" = some (.str r.id.text)

/-- The canonical encoding tells documents apart, but for the order of their fields. -/
def EncodesUniquely (X : Externals) : Prop :=
  ∀ j j', Json.dumps X ⟨false, false⟩ j = Json.dumps X ⟨false, false⟩ j' → j.sortKeys = j'.sortKeys

/-- A record as it is written, its fields sorted. -/
def written (X : Externals) (r : VectorRecord) : Json := (X.modelDump r).sortKeys

/-- The id a record was written with. -/
def writtenId (j : Json) : String := ((j.get? "id").bind asStr).getD ""

theorem DumpsId.writtenId (h : DumpsId X) (r : VectorRecord) :
    writtenId (written X r) = r.id.text := by
  obtain ⟨fields, hdump, hnames, hid⟩ := h.fields r
  have hget : (written X r).get? "id" = some (.str r.id.text) := by
    rw [written, hdump, Json.get?_sortKeys hnames]
    exact congrArg (Option.map Json.sortKeys) hid
  rw [Sharding.writtenId, hget]
  rfl

/-- The document of a digest, its fields sorted: the records by their ids and the tombstones. -/
theorem digestDocument_sortKeys (records : List VectorRecord) (deleted : List String) :
    (digestDocument X records deleted).sortKeys =
      .obj [("deleted", .arr ((deleted.insertionSort (· ≤ ·)).map .str)),
        ("records", .arr ((byId records).map (written X)))] := by
  have hrecords : Json.sortItems ((byId records).map X.modelDump) =
      (byId records).map (written X) := by
    rw [Json.sortItems_eq, List.map_map]
    rfl
  have hdocument : digestDocument X records deleted =
      .obj [("records", .arr ((byId records).map X.modelDump)),
      ("deleted", .arr ((deleted.insertionSort (· ≤ ·)).map .str))] := rfl
  rw [hdocument]
  have horder : ¬ ("records" ≤ "deleted") := by decide
  simp only [Json.sortKeys, Json.sortFields, hrecords, sortItems_strs, List.insertionSort_cons,
    List.insertionSort_nil, List.orderedInsert_nil, List.orderedInsert, horder, ↓reduceIte]

/-- Records that are written alike come in the same order. -/
theorem written_byId (hX : DumpsId X) (hn : (records.map idOf).Nodup)
    (h : (records.map (written X)).Perm (records'.map (written X))) :
    (byId records).map (written X) = (byId records').map (written X) := by
  have hperm (rs : List VectorRecord) : ((byId rs).map (written X)).Perm (rs.map (written X)) :=
    (List.perm_insertionSort _ rs).map _
  have hsorted (rs : List VectorRecord) : ((byId rs).map (written X)).Pairwise fun a b =>
      writtenId a ≤ writtenId b := by
    refine List.pairwise_map.mpr ((List.pairwise_insertionSort _ rs).imp fun hab => ?_)
    rw [hX.writtenId, hX.writtenId]
    exact hab
  have hids : ((records.map (written X)).map writtenId).Nodup := by
    rw [List.map_map]
    exact (List.map_congr_left fun r _ => (hX.writtenId r).symm : records.map idOf = _) ▸ hn
  refine ((hperm records).trans (h.trans (hperm records').symm)).eq_of_pairwise
    (fun a b ha hb hab hba => ?_)
    (hsorted records) (hsorted records')
  have ha' := (hperm records).mem_iff.mp ha
  have hb' := h.mem_iff.mpr ((hperm records').mem_iff.mp hb)
  exact List.inj_on_of_nodup_map hids ha' hb' (le_antisymm hab hba)

theorem insertionSort_eq_iff {l l' : List String} :
    l.insertionSort (· ≤ ·) = l'.insertionSort (· ≤ ·) ↔ l.Perm l' := by
  constructor
  · intro h
    exact (List.perm_insertionSort (· ≤ ·) l).symm.trans (h ▸ List.perm_insertionSort (· ≤ ·) l')
  · intro h
    refine ((List.perm_insertionSort _ l).trans
      (h.trans (List.perm_insertionSort _ l').symm)).eq_of_pairwise
      (fun a b _ _ => le_antisymm) (List.pairwise_insertionSort _ l)
        (List.pairwise_insertionSort _ l')

/-- Two digests are the same exactly if the contents are, up to their order. -/
theorem compute_digest_iff (hsha : Function.Injective X.sha256) (hjson : EncodesUniquely X)
    (hX : DumpsId X) (hn : (records.map idOf).Nodup) :
    computeDigest X records deleted = computeDigest X records' deleted' ↔
      (records.map (written X)).Perm (records'.map (written X)) ∧ deleted.Perm deleted' := by
  constructor
  · intro h
    have hdoc := hjson _ _ (hsha h)
    rw [digestDocument_sortKeys, digestDocument_sortKeys] at hdoc
    simp only [Json.obj.injEq, List.cons.injEq, Prod.mk.injEq, Json.arr.injEq, true_and,
      and_true] at hdoc
    obtain ⟨hdeleted, hrecords⟩ := hdoc
    constructor
    · exact ((List.perm_insertionSort _ records).map _).symm.trans
        (hrecords ▸ (List.perm_insertionSort _ records').map _)
    · exact insertionSort_eq_iff.mp
        (List.map_injective_iff.mpr (fun _ _ he => Json.str.inj he) hdeleted)
  · rintro ⟨hrecords, hdeleted⟩
    rw [computeDigest, computeDigest, Json.dumps, Json.dumps, digestDocument_sortKeys,
      digestDocument_sortKeys, written_byId hX hn hrecords, insertionSort_eq_iff.mpr hdeleted]

/-! One record and one tombstone. -/

theorem encodesUniquely_of_floatRepr (hX : X.FloatRepr) : EncodesUniquely X := by
  intro j j' h
  have hend : Json.Ends [] := fun c hc => by cases hc
  exact (Json.dumps_unique hX hend hend (congrArg (fun t => t.toList ++ []) h)).1

theorem fractional_dumpsId : DumpsId fractional where
  fields r := by
    obtain ⟨fields, hnames, hdump, -⟩ := dumpRecord_sorted r
    refine ⟨fields, hdump, hnames, ?_⟩
    have hid : (dumpRecord r).get? "id" = some (.str r.id.text) := rfl
    rw [hdump] at hid
    exact hid

theorem compute_digest_unit :
    computeDigest fractional [unitRecord zeroId [], unitRecord oneId []] ["a", "b"] =
      computeDigest fractional [unitRecord oneId [], unitRecord zeroId []] ["b", "a"] := by
  have hsha : Function.Injective fractional.sha256 := fun _ _ h => h
  have hn : ([unitRecord zeroId [], unitRecord oneId []].map idOf).Nodup := by decide +kernel
  exact (compute_digest_iff hsha (encodesUniquely_of_floatRepr fractional_floatRepr)
    fractional_dumpsId hn).mpr ⟨.swap _ _ _, .swap _ _ _⟩

end Vsector.Sharding
