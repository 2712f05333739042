import Vsector.Impl.Models.VectorRecord

/-!
# Records as documents

An `Externals` that is lawful: a record is the object of its fields, and it
is read back field by field. The digest is the text itself, and the hash of
a text its length.
-/

namespace Vsector.Models

/-- A float that is not finite is written as `null`. -/
def dumpFloat (x : PyFloat) : Json := if x.isFinite then .float x else .null

def dumpOptional : Option DateTime → Json
  | some t => .str t
  | none => .null

def dumpRecord (r : VectorRecord) : Json :=
  .obj
    [("id", .str r.id.text), ("namespace", .str r.ns), ("vector", .arr (r.vector.map dumpFloat)),
      ("dimension", .int r.dimension), ("metadata", .obj r.metadata),
        ("created_at", .str r.createdAt),
      ("updated_at", .str r.updatedAt), ("version", .int r.version), ("ttl", dumpOptional r.ttl),
      ("tags", .arr (r.tags.map .str)), ("source_system", .str r.sourceSystem),
        ("checksum", .str r.checksum)]

def readFloat : Json → Option PyFloat
  | .float x => some x
  | _ => none

def readStr : Json → Option String
  | .str s => some s
  | _ => none

def readOptional : Json → Option (Option DateTime)
  | .str t => some (some t)
  | .null => some none
  | _ => none

/-- Reading back what `dumpRecord` writes. -/
def readRecord : Json → Option VectorRecord
  | .obj
    [("id", .str id), ("namespace", .str ns), ("vector", .arr vector),
      ("dimension", .int dimension),
      ("metadata", .obj metadata), ("created_at", .str createdAt), ("updated_at", .str updatedAt),
      ("version", .int version), ("ttl", ttl), ("tags", .arr tags),
        ("source_system", .str sourceSystem),
      ("checksum", .str checksum)] =>
    match vector.mapM readFloat, tags.mapM readStr, readOptional ttl with
    | some vector, some tags, some ttl =>
      if h : isCanonicalUUID id ∧ vector ≠ [] ∧ dimension.toNat = vector.length ∧
        0 < version.toNat then
        some
          { id := ⟨id,
            h.1⟩, ns := ns, vector := vector, dimension := dimension.toNat, metadata := metadata,
            createdAt := createdAt, updatedAt := updatedAt,
            version := ⟨version.toNat, h.2.2.2⟩, ttl := ttl,
            tags := tags, sourceSystem := sourceSystem, checksum := checksum, vector_ne := h.2.1,
            dimension_eq := h.2.2.1 }
      else none
    | _, _, _ => none
  | _ => none

/-- Externals that write records as their fields. -/
def fieldwise : Externals where
  floatStr x := match x with
    | .finite x => toString x
    | .nan => "nan"
    | .inf => "inf"
    | .negInf => "-inf"
  floatOf value := match value with
    | .float x => .ok x
    | .int n => .ok (.finite n)
    | _ => .error (.typeError "float() argument must be a string or a real number")
  jsonStr _ := ""
  maskReprs text := text
  sha256 text := text
  mmh3 text := text.length
  uuid text := if h : isCanonicalUUID text then some ⟨text, h⟩ else none
  modelDumpJson := dumpRecord
  modelDump := dumpRecord
  modelValidate := readRecord
  modelValidateJson := readRecord

theorem mapM_readFloat {xs : List PyFloat} (h : xs.all PyFloat.isFinite) :
    (xs.map dumpFloat).mapM readFloat = some xs := by
  induction xs with
  | nil => rfl
  | cons x xs ih =>
    rw [List.all_cons, Bool.and_eq_true] at h
    rw [List.map_cons, List.mapM_cons, ih h.2, dumpFloat, if_pos h.1]
    rfl

theorem mapM_readStr (xs : List String) : (xs.map Json.str).mapM readStr = some xs := by
  induction xs with
  | nil => rfl
  | cons x xs ih => rw [List.map_cons, List.mapM_cons, ih]; rfl

theorem readOptional_dump (t : Option DateTime) : readOptional (dumpOptional t) = some t := by
  cases t <;> rfl

theorem readRecord_dump {r : VectorRecord} (h : r.Finite) : readRecord (dumpRecord r) = some r := by
  simp only [dumpRecord, readRecord, mapM_readFloat h.1, mapM_readStr, readOptional_dump]
  rw [dif_pos ⟨r.id.canonical, r.vector_ne, r.dimension_eq, r.version.pos⟩]
  rfl

theorem id_of_readRecord {r r' : VectorRecord} (h : readRecord (dumpRecord r) = some r') :
    r'.id = r.id := by
  simp only [dumpRecord, readRecord] at h
  split at h
  · split at h
    · cases h; rfl
    · cases h
  · cases h

theorem fieldwise_lawful : fieldwise.Lawful where
  validate_dump _ h := readRecord_dump h
  validate_modelDump _ h := readRecord_dump h
  validateJson_dump _ h := readRecord_dump h
  validate_id _ _ h := id_of_readRecord h
  dump_obj _ := rfl
  dump_op _ := rfl
  uuid_text u := dif_pos u.canonical

/-! ## Some records -/

def zeroId : UUID := ⟨"00000000-0000-0000-0000-000000000000", by decide +kernel⟩
def oneId : UUID := ⟨"11111111-1111-1111-1111-111111111111", by decide +kernel⟩

/-- A record of the vector `[1]`, as the ingest service makes them. -/
def unitRecord (id : UUID) (metadata : List (String × Json)) : VectorRecord where
  id := id
  ns := "docs"
  vector := [.finite 1]
  dimension := 1
  metadata := metadata
  createdAt := "2026-01-01T00:00:00Z"
  updatedAt := "2026-01-01T00:00:00Z"
  version := Nat.succPNat 0
  ttl := none
  tags := []
  sourceSystem := "api"
  checksum := sha256Vector fieldwise [.finite 1]
  vector_ne := List.cons_ne_nil _ _
  dimension_eq := rfl

/-- The same with the vector `[x]`. -/
def unitRecordAt (x : PyFloat) (checksum : String) (id : UUID) (metadata : List (String × Json)) :
    VectorRecord :=
  { unitRecord id metadata with
    vector := [x], checksum := checksum, vector_ne := List.cons_ne_nil _ _, dimension_eq := rfl }

end Vsector.Models
