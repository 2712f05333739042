import Vsector.Proof.Models.Documents

/-!
# Floats that are not finite

No JSON document has a NaN or an infinity. pydantic writes them as `null`
(`Json.nulled`) and rejects `null` for a float (`NullsFloats`), so a record
that is read back has only finite floats, and is the one that was written
only where that one had (`NullsFloats.finite`).
-/

namespace Vsector.Models

namespace Json

mutual

/-- The document that is written: `null` for each float that is not finite. -/
def nulled : Json → Json
  | float x => dumpFloat x
  | arr items => arr (nulledItems items)
  | obj fields => obj (nulledFields fields)
  | j => j

def nulledItems : List Json → List Json
  | [] => []
  | j :: js => j.nulled :: nulledItems js

def nulledFields : List (String × Json) → List (String × Json)
  | [] => []
  | (k, j) :: fs => (k, j.nulled) :: nulledFields fs

end

theorem isFinite_dumpFloat (x : PyFloat) : (dumpFloat x).isFinite = true := by
  rw [dumpFloat]
  split
  · assumption
  · rfl

mutual

theorem isFinite_nulled (j : Json) : j.nulled.isFinite = true := by
  match j with
  | .float x => exact isFinite_dumpFloat x
  | .arr items => exact allFinite_nulledItems items
  | .obj fields => exact allFieldsFinite_nulledFields fields
  | .null | .bool _ | .int _ | .str _ => rfl

theorem allFinite_nulledItems (js : List Json) : allFinite (nulledItems js) = true := by
  match js with
  | [] => rfl
  | j :: js => rw [nulledItems, allFinite, isFinite_nulled j, allFinite_nulledItems js]; rfl

theorem allFieldsFinite_nulledFields (fs : List (String × Json)) :
    allFieldsFinite (nulledFields fs) = true := by
  match fs with
  | [] => rfl
  | (k, j) :: fs =>
    rw [nulledFields, allFieldsFinite, isFinite_nulled j, allFieldsFinite_nulledFields fs]; rfl

end

mutual

theorem nulled_eq_self (j : Json) (h : j.isFinite = true) : j.nulled = j := by
  match j with
  | .float x => exact if_pos h
  | .arr items => rw [nulled, nulledItems_eq_self items h]
  | .obj fields => rw [nulled, nulledFields_eq_self fields h]
  | .null | .bool _ | .int _ | .str _ => rfl

theorem nulledItems_eq_self (js : List Json) (h : allFinite js = true) : nulledItems js = js := by
  match js with
  | [] => rfl
  | j :: js =>
    rw [allFinite, Bool.and_eq_true] at h
    rw [nulledItems, nulled_eq_self j h.1, nulledItems_eq_self js h.2]

theorem nulledFields_eq_self (fs : List (String × Json)) (h : allFieldsFinite fs = true) :
    nulledFields fs = fs := by
  match fs with
  | [] => rfl
  | (k, j) :: fs =>
    rw [allFieldsFinite, Bool.and_eq_true] at h
    rw [nulledFields, nulled_eq_self j h.1, nulledFields_eq_self fs h.2]

end

end Json

/-! ## Writing and validating -/

/-- The defaults of pydantic for floats that are not finite: JSON output writes them as `null`, in
the vector and in the metadata; `null` is rejected for a float of the vector, and the metadata are
what the document has. -/
structure NullsFloats (dump : VectorRecord → Json) (validate : Json → Option VectorRecord) :
    Prop where
  dump_vector : ∀ r, (dump r).get? "vector" = some (.arr (r.vector.map dumpFloat))
  dump_metadata : ∀ r, (dump r).get? "metadata" = some (.obj (Json.nulledFields r.metadata))
  validate_vector : ∀ j items, j.get? "vector" = some (.arr items) → .null ∈ items →
    validate j = none
  validate_metadata : ∀ j r fields, validate j = some r → j.get? "metadata" = some (.obj fields) →
    r.metadata = fields

/-- `model_validate` and `model_validate_json` of what `model_dump_json` writes. -/
structure Externals.NullsFloats (X : Externals) : Prop where
  validate : Models.NullsFloats X.modelDumpJson X.modelValidate
  validateJson : Models.NullsFloats X.modelDumpJson X.modelValidateJson

variable {dump : VectorRecord → Json} {validate : Json → Option VectorRecord} {r r' : VectorRecord}

theorem null_mem_dumpFloat {xs : List PyFloat} (h : ¬ xs.all PyFloat.isFinite) :
    .null ∈ xs.map dumpFloat := by
  rw [List.all_eq_true] at h
  push Not at h
  obtain ⟨x, hx, hfin⟩ := h
  exact List.mem_map.mpr ⟨x, hx, if_neg hfin⟩

namespace NullsFloats

/-- A record whose vector is not finite cannot be read back. -/
theorem unreadable (h : NullsFloats dump validate) (hr : ¬ r.vector.all PyFloat.isFinite) :
    validate (dump r) = none :=
  h.validate_vector _ _ (h.dump_vector r) (null_mem_dumpFloat hr)

/-- A record that is read back unchanged is finite. -/
theorem finite (h : NullsFloats dump validate) (hr : validate (dump r) = some r) : r.Finite := by
  constructor
  · by_contra hv
    rw [h.unreadable hv] at hr
    cases hr
  · rw [h.validate_metadata _ _ _ hr (h.dump_metadata r)]
    exact Json.allFieldsFinite_nulledFields r.metadata

end NullsFloats

/-! ## An example -/

/-- `float(value)`, for the numbers and the text of a NaN. -/
def floatOfText (value : Json) : Except Exc PyFloat :=
  if value.isStr "nan" then .ok .nan else fieldwise.floatOf value

/-- `dumpRecord`, with `null` for the floats of the metadata that are not finite. -/
def dumpNulled (r : VectorRecord) : Json :=
  dumpRecord { r with metadata := Json.nulledFields r.metadata }

/-- `fieldwise`, with `null` for every float that is not finite, and floats as texts. -/
def nulling : Externals := { fieldwise with floatOf := floatOfText, modelDumpJson := dumpNulled }

theorem dumpNulled_of_finite (h : r.Finite) : dumpNulled r = dumpRecord r := by
  rw [dumpNulled, Json.nulledFields_eq_self r.metadata h.2]

theorem nulling_lawful : nulling.Lawful :=
  ⟨fun _ h => (congrArg readRecord (dumpNulled_of_finite h)).trans (readRecord_dump h),
    fieldwise_lawful.validate_modelDump,
    fun _ h => (congrArg readRecord (dumpNulled_of_finite h)).trans (readRecord_dump h),
    fun r _ h => id_of_readRecord (r := { r with metadata := Json.nulledFields r.metadata }) h,
      fun _ => rfl, fun _ => rfl, fieldwise_lawful.uuid_text⟩

theorem readFloat_null {items : List Json} (h : .null ∈ items) : items.mapM readFloat = none := by
  induction items with
  | nil => exact absurd h List.not_mem_nil
  | cons j js ih =>
    rw [List.mapM_cons]
    rcases List.mem_cons.mp h with rfl | h
    · rfl
    · rw [ih h]
      cases readFloat j <;> rfl

theorem nullsFloats_dumpNulled : NullsFloats dumpNulled readRecord := by
  refine ⟨fun _ => rfl, fun _ => rfl, fun j items hv hnull => ?_, fun j r fields hr hm => ?_⟩
  · unfold readRecord
    split
    · cases hv
      rw [readFloat_null hnull]
    · rfl
  · unfold readRecord at hr
    split at hr
    · cases hm
      split at hr
      · split at hr
        · cases hr
          rfl
        · cases hr
      · cases hr
    · cases hr

theorem nulling_nullsFloats : nulling.NullsFloats :=
  ⟨nullsFloats_dumpNulled, nullsFloats_dumpNulled⟩

end Vsector.Models
