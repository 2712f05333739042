import Mathlib.Data.List.Sort
import Vsector.Impl.Models.JsonText
import Vsector.Proof.Models.Documents

/-!
# Documents with sorted fields

What `sort_keys=True` does to a document: it is idempotent
(`sortKeys_sortKeys`) and keeps what is found under each name
(`get?_sortKeys`). `VectorRecord.sorted` is a record whose metadata went
through it, and `Externals.ByName` what is relied on of pydantic then.
-/

namespace Vsector.Models

namespace Json

/-- Fields sorted by name. -/
def byName (fields : List (String × Json)) : List (String × Json) :=
  fields.insertionSort fun a b => a.1 ≤ b.1

theorem sortItems_eq (js : List Json) : sortItems js = js.map sortKeys := by
  induction js with
  | nil => rfl
  | cons j js ih => rw [sortItems, ih, List.map_cons]

theorem sortFields_eq (fs : List (String × Json)) :
    sortFields fs = fs.map fun f => (f.1, f.2.sortKeys) := by
  induction fs with
  | nil => rfl
  | cons f fs ih => rw [sortFields, ih, List.map_cons]

theorem sortFields_byName (fs : List (String × Json)) :
    sortFields (byName fs) = byName (sortFields fs) := by
  rw [sortFields_eq, sortFields_eq, byName, byName]
  exact List.map_insertionSort _ _ _ _ fun _ _ _ _ => Iff.rfl

theorem byName_byName (fs : List (String × Json)) : byName (byName fs) = byName fs :=
  List.Pairwise.insertionSort_eq (List.pairwise_insertionSort _ fs)

mutual

theorem sortKeys_sortKeys (j : Json) : j.sortKeys.sortKeys = j.sortKeys := by
  match j with
  | .arr items => rw [sortKeys, sortKeys, sortItems_sortItems items]
  | .obj fields =>
    show obj (byName (sortFields (byName (sortFields fields)))) = obj (byName (sortFields fields))
    rw [sortFields_byName, sortFields_sortFields fields, byName_byName]
  | .null | .bool _ | .int _ | .float _ | .str _ => rfl

theorem sortItems_sortItems (js : List Json) : sortItems (sortItems js) = sortItems js := by
  match js with
  | [] => rfl
  | j :: js => rw [sortItems, sortItems, sortKeys_sortKeys j, sortItems_sortItems js]

theorem sortFields_sortFields (fs : List (String × Json)) :
    sortFields (sortFields fs) = sortFields fs := by
  match fs with
  | [] => rfl
  | (k, j) :: fs => rw [sortFields, sortFields, sortKeys_sortKeys j, sortFields_sortFields fs]

end

theorem isObj_sortKeys (j : Json) : j.sortKeys.isObj = j.isObj := by
  cases j <;> rfl

theorem lookup_sortFields (fs : List (String × Json)) (k : String) :
    (sortFields fs).lookup k = (fs.lookup k).map sortKeys := by
  induction fs with
  | nil => rfl
  | cons f fs ih =>
    obtain ⟨a, j⟩ := f
    rw [sortFields, List.lookup_cons, List.lookup_cons]
    cases k == a
    · exact ih
    · rfl

/-- Names that occur once are looked up the same in any order. -/
theorem lookup_perm {fs fs' : List (String × Json)} (h : fs.Perm fs') (hn : (fs.map Prod.fst).Nodup)
    (k : String) :
    fs.lookup k = fs'.lookup k := by
  induction h with
  | nil => rfl
  | cons f _ ih =>
    rw [List.lookup_cons, List.lookup_cons, ih (List.nodup_cons.mp hn).2]
  | swap f g fs =>
    have hne : g.1 ≠ f.1 := fun he =>
      (List.nodup_cons.mp hn).1 (by rw [he]; exact List.mem_cons_self)
    rw [List.lookup_cons, List.lookup_cons, List.lookup_cons, List.lookup_cons]
    by_cases hg : k = g.1
    · rw [hg, beq_self_eq_true, beq_eq_false_iff_ne.mpr hne]
    · rw [beq_eq_false_iff_ne.mpr hg]
  | trans h₁ _ ih₁ ih₂ => rw [ih₁ hn, ih₂ ((h₁.map Prod.fst).nodup_iff.mp hn)]

/-- What is found under a name is there still, sorted. -/
theorem get?_sortKeys {fs : List (String × Json)} (hn : (fs.map Prod.fst).Nodup) (k : String) :
    (obj fs).sortKeys.get? k = ((obj fs).get? k).map sortKeys := by
  have hkeys : ((sortFields fs).map Prod.fst).Nodup := by
    rw [sortFields_eq, List.map_map]
    exact hn
  show (byName (sortFields fs)).lookup k = (fs.lookup k).map sortKeys
  rw [← lookup_sortFields]
  exact (lookup_perm (List.perm_insertionSort _ _).symm hkeys k).symm

theorem allFieldsFinite_perm {fs fs' : List (String × Json)} (h : fs.Perm fs') :
    allFieldsFinite fs = allFieldsFinite fs' := by
  induction h with
  | nil => rfl
  | cons f _ ih => rw [allFieldsFinite, allFieldsFinite, ih]
  | swap f g fs =>
    rw [allFieldsFinite, allFieldsFinite, allFieldsFinite, allFieldsFinite, Bool.and_left_comm]
  | trans _ _ ih₁ ih₂ => rw [ih₁, ih₂]

mutual

theorem isFinite_sortKeys (j : Json) : j.sortKeys.isFinite = j.isFinite := by
  match j with
  | .arr items => rw [sortKeys, isFinite, isFinite, allFinite_sortItems items]
  | .obj fields =>
    show allFieldsFinite (byName (sortFields fields)) = allFieldsFinite fields
    rw [← allFieldsFinite_sortFields fields]
    exact allFieldsFinite_perm (List.perm_insertionSort _ _)
  | .null | .bool _ | .int _ | .float _ | .str _ => rfl

theorem allFinite_sortItems (js : List Json) : allFinite (sortItems js) = allFinite js := by
  match js with
  | [] => rfl
  | j :: js => rw [sortItems, allFinite, allFinite, isFinite_sortKeys j, allFinite_sortItems js]

theorem allFieldsFinite_sortFields (fs : List (String × Json)) :
    allFieldsFinite (sortFields fs) = allFieldsFinite fs := by
  match fs with
  | [] => rfl
  | (k, j) :: fs =>
    rw [sortFields, allFieldsFinite, allFieldsFinite, isFinite_sortKeys j,
      allFieldsFinite_sortFields fs]

end

end Json

/-! ## Records -/

/-- A record whose metadata went through `sort_keys`: equal to it for Python. -/
def VectorRecord.sorted (r : VectorRecord) : VectorRecord :=
  { r with metadata := Json.byName (Json.sortFields r.metadata) }

/-- What is relied on of pydantic: records are validated by the names of their fields, in any
order, and the metadata is kept in the order it is given in. -/
structure Externals.ByName (X : Externals) : Prop where
  isObj : ∀ r, (X.modelDump r).isObj = true
  validate : ∀ r : VectorRecord, r.Finite → X.modelValidate (X.modelDump r).sortKeys = some r.sorted
  dump : ∀ r, (X.modelDump r.sorted).sortKeys = (X.modelDump r).sortKeys

theorem VectorRecord.sorted_sorted (r : VectorRecord) : r.sorted.sorted = r.sorted := by
  have hmeta : Json.byName (Json.sortFields (Json.byName (Json.sortFields r.metadata))) =
      Json.byName (Json.sortFields r.metadata) := by
    rw [Json.sortFields_byName, Json.sortFields_sortFields, Json.byName_byName]
  show { r with metadata := Json.byName (Json.sortFields
    (Json.byName (Json.sortFields r.metadata))) } = r.sorted
  rw [hmeta]
  rfl

theorem VectorRecord.Finite.sorted {r : VectorRecord} (h : r.Finite) : r.sorted.Finite := by
  refine ⟨h.1, ?_⟩
  have hsort : Json.allFieldsFinite (Json.byName (Json.sortFields r.metadata)) =
      Json.allFieldsFinite r.metadata :=
    (Json.allFieldsFinite_perm (List.perm_insertionSort _ _)).trans
      (Json.allFieldsFinite_sortFields r.metadata)
  exact hsort.trans h.2

/-! ## Documents read by name -/

/-- The names of the fields of a record. -/
def fieldNames : List String :=
  ["id", "namespace", "vector", "dimension", "metadata", "created_at", "updated_at",
    "version", "ttl", "tags", "source_system", "checksum"]

/-- `readRecord`, whatever the order of the fields. -/
def readByName (j : Json) : Option VectorRecord :=
  (fieldNames.mapM fun k => (j.get? k).map fun v => (k, v)).bind fun fields =>
    readRecord (.obj fields)

/-- `fieldwise`, with records read by the names of their fields. -/
def named : Externals :=
  { fieldwise with modelValidate := readByName, modelValidateJson := readByName }

theorem readByName_dump (r : VectorRecord) :
    readByName (dumpRecord r) = readRecord (dumpRecord r) := rfl

theorem sortItems_floats (xs : List PyFloat) :
    Json.sortItems (xs.map dumpFloat) = xs.map dumpFloat := by
  rw [Json.sortItems_eq, List.map_map]
  refine List.map_congr_left fun x _ => ?_
  rw [Function.comp_apply, dumpFloat]
  split <;> rfl

theorem sortItems_strs (xs : List String) : Json.sortItems (xs.map Json.str) = xs.map Json.str := by
  rw [Json.sortItems_eq, List.map_map]
  exact List.map_congr_left fun _ _ => rfl

theorem sortKeys_dumpOptional (t : Option DateTime) :
    (dumpOptional t).sortKeys = dumpOptional t := by
  cases t <;> rfl

/-- A record with sorted metadata is written as the same fields, each of them sorted. -/
theorem dumpRecord_sorted (r : VectorRecord) :
    ∃ fields, (fields.map Prod.fst).Nodup ∧ dumpRecord r = .obj fields ∧
    dumpRecord r.sorted = .obj (Json.sortFields fields) := by
  refine ⟨_, ?_, rfl, ?_⟩
  · show fieldNames.Nodup
    decide
  · simp only [Json.sortFields, Json.sortKeys, sortItems_floats, sortItems_strs,
      sortKeys_dumpOptional]
    rfl

theorem readByName_sortKeys {r : VectorRecord} (h : r.Finite) :
    readByName (dumpRecord r).sortKeys = some r.sorted := by
  obtain ⟨fields, hn, hr, hs⟩ := dumpRecord_sorted r
  have hget : ∀ k, (dumpRecord r).sortKeys.get? k = (dumpRecord r.sorted).get? k := by
    intro k
    rw [hr, hs, Json.get?_sortKeys hn]
    exact (Json.lookup_sortFields fields k).symm
  have hread : readByName (dumpRecord r).sortKeys = readByName (dumpRecord r.sorted) := by
    simp only [readByName, hget]
  rw [hread, readByName_dump]
  exact readRecord_dump h.sorted

theorem dumpRecord_sortKeys (r : VectorRecord) :
    (dumpRecord r.sorted).sortKeys = (dumpRecord r).sortKeys := by
  obtain ⟨fields, -, hr, hs⟩ := dumpRecord_sorted r
  rw [hr, hs, Json.sortKeys, Json.sortKeys, Json.sortFields_sortFields]

theorem modelDump_named (r : VectorRecord) : named.modelDump r = dumpRecord r := rfl

theorem modelValidate_named (j : Json) : named.modelValidate j = readByName j := rfl

theorem named_byName : named.ByName where
  isObj _ := rfl
  validate r h := by
    rw [modelDump_named, modelValidate_named]
    exact readByName_sortKeys h
  dump r := by
    rw [modelDump_named, modelDump_named]
    exact dumpRecord_sortKeys r

theorem named_lawful : named.Lawful where
  validate_dump _ h := readRecord_dump h
  validate_modelDump _ h := readRecord_dump h
  validateJson_dump _ h := readRecord_dump h
  validate_id _ _ h := id_of_readRecord h
  dump_obj _ := rfl
  dump_op _ := rfl
  uuid_text := fieldwise_lawful.uuid_text

end Vsector.Models
