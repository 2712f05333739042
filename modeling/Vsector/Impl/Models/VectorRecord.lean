import Vsector.Impl.Errors

/-!
# Records

`VectorRecord` of `models/vector_record.py`. Other people's code is a
parameter (`Externals`): above all, how pydantic writes a record as a JSON
document and validates it when it is read back. What its documentation
promises is `Externals.Lawful`; a float that is not finite is written as
`null`, and `null` is not a float.

A document stands for the text that spells it, so `json.dumps` and
`json.loads` do not appear.
-/

namespace Vsector.Models

/-- A `float`; a finite one is the number it denotes. -/
inductive PyFloat where
  | finite (x : ℚ)
  | nan
  | inf
  | negInf
deriving DecidableEq, Inhabited

def PyFloat.isFinite : PyFloat → Bool
  | finite _ => true
  | _ => false

/-- What `json.loads` returns. The keys of an object are distinct. -/
inductive Json where
  | null
  | bool (b : Bool)
  | int (n : Int)
  | float (x : PyFloat)
  | str (s : String)
  | arr (items : List Json)
  | obj (fields : List (String × Json))
deriving Inhabited

namespace Json

/-- `d.get(key)` of a `dict`. -/
def get? (key : String) : Json → Option Json
  | obj fields => fields.lookup key
  | _ => none

/-- `isinstance(d, dict)`. -/
def isObj : Json → Bool
  | obj _ => true
  | _ => false

/-- `value == text`, for a text. -/
def isStr (text : String) : Json → Bool
  | str s => s == text
  | _ => false

mutual

/-- No float in it is a NaN or an infinity. -/
def isFinite : Json → Bool
  | float x => x.isFinite
  | arr items => allFinite items
  | obj fields => allFieldsFinite fields
  | _ => true

def allFinite : List Json → Bool
  | [] => true
  | j :: js => j.isFinite && allFinite js

def allFieldsFinite : List (String × Json) → Bool
  | [] => true
  | (_, j) :: fs => j.isFinite && allFieldsFinite fs

end

end Json

/-! ## Identifiers -/

/-- Lower-case hexadecimal digits in groups of 8, 4, 4, 4 and 12: what `str` of a `uuid.UUID` is. -/
def isCanonicalUUID (s : String) : Bool :=
  s.length == 36 && s.toList.zipIdx.all fun (c, i) =>
    if i = 8 ∨ i = 13 ∨ i = 18 ∨ i = 23 then c == '-' else c.isDigit || ('a' ≤ c && c ≤ 'f')

/-- A `uuid.UUID`, by its text. -/
structure UUID where
  text : String
  canonical : isCanonicalUUID text
deriving DecidableEq

/-- A `datetime`, by its ISO text. -/
abbrev DateTime := String

/-! ## Records -/

/-- A record whose fields have passed their validators and `model_post_init`. -/
structure VectorRecord where
  id : UUID
  ns : String
  vector : List PyFloat
  dimension : Nat
  metadata : List (String × Json)
  createdAt : DateTime
  updatedAt : DateTime
  version : ℕ+
  ttl : Option DateTime
  tags : List String
  sourceSystem : String
  checksum : String
  vector_ne : vector ≠ []
  dimension_eq : dimension = vector.length

/-- Every float of the record is finite. -/
def VectorRecord.Finite (r : VectorRecord) : Prop :=
  r.vector.all PyFloat.isFinite ∧ Json.allFieldsFinite r.metadata

instance (r : VectorRecord) : Decidable r.Finite := inferInstanceAs (Decidable (_ ∧ _))

/-- What the code takes from pydantic, hashlib, mmh3, `uuid`, `re`, and the conversions of
floats. -/
structure Externals where
  /-- `str(x)`. -/
  floatStr : PyFloat → String
  /-- `float(value)`. -/
  floatOf : Json → Except Exc PyFloat
  /-- `str(value)`, where the value is no text. -/
  jsonStr : Json → String
  /-- `re.sub(r"<[^>]*? at 0x[0-9a-fA-F]+>", "<...>", text)`. -/
  maskReprs : String → String
  /-- `hashlib.sha256(text.encode()).hexdigest()`. -/
  sha256 : String → String
  /-- `mmh3.hash128(text, signed=False)`. -/
  mmh3 : String → Nat
  /-- `uuid.UUID(text)`. -/
  uuid : String → Option UUID
  /-- `r.model_dump_json()`. -/
  modelDumpJson : VectorRecord → Json
  /-- `r.model_dump(mode="json")`. -/
  modelDump : VectorRecord → Json
  /-- `VectorRecord.model_validate`. -/
  modelValidate : Json → Option VectorRecord
  /-- `VectorRecord.model_validate_json`. -/
  modelValidateJson : Json → Option VectorRecord

/-- The documented behaviour of an `Externals`. -/
structure Externals.Lawful (X : Externals) : Prop where
  validate_dump : ∀ r : VectorRecord, r.Finite → X.modelValidate (X.modelDumpJson r) = some r
  validate_modelDump : ∀ r : VectorRecord, r.Finite → X.modelValidate (X.modelDump r) = some r
  validateJson_dump : ∀ r : VectorRecord, r.Finite →
    X.modelValidateJson (X.modelDumpJson r) = some r
  /-- A document that is read back at all has kept its id. -/
  validate_id : ∀ r r' : VectorRecord, X.modelValidate (X.modelDumpJson r) = some r' → r'.id = r.id
  /-- A record is an object with the fields of the model, and `__op` is none of them. -/
  dump_obj : ∀ r, (X.modelDumpJson r).isObj = true
  dump_op : ∀ r, (X.modelDumpJson r).get? "__op" = none
  uuid_text : ∀ u : UUID, X.uuid u.text = some u

/-- `_sha256_vector`: the digest of the texts of the elements, one after the other. -/
def sha256Vector (X : Externals) (vector : List PyFloat) : String :=
  X.sha256 (String.join (vector.map X.floatStr))

/-- `VectorRecord(id=…, namespace=…, vector=…, dimension=…, metadata=…, tags=…, source_system=…)`:
`none` where a validator or `model_post_init` raises. -/
def VectorRecord.new (X : Externals) (now : DateTime) (id : UUID) (ns : String)
    (vector : List PyFloat) (dimension : Nat) (metadata : List (String × Json)) (tags : List String)
    (sourceSystem : String) :
    Option VectorRecord :=
  if hv : vector ≠ [] then
    if hd : dimension = vector.length then
      some
        { id := id, ns := ns, vector := vector, dimension := dimension, metadata := metadata,
          createdAt := now, updatedAt := now, version := Nat.succPNat 0, ttl := none, tags := tags,
          sourceSystem := sourceSystem, checksum := sha256Vector X vector, vector_ne := hv,
          dimension_eq := hd }
    else none
  else none

/-- `bump_version`. -/
def VectorRecord.bumpVersion (X : Externals) (now : DateTime) (r : VectorRecord) : VectorRecord :=
  { r with version := r.version + 1, updatedAt := now, checksum := sha256Vector X r.vector }

/-- `to_payload(include_vector=True)`. -/
structure Payload where
  id : String
  ns : String
  metadata : List (String × Json)
  tags : List String
  sourceSystem : String
  createdAt : DateTime
  updatedAt : DateTime
  version : ℕ+
  checksum : String
  vector : List PyFloat
  dimension : Nat

def VectorRecord.toPayload (r : VectorRecord) : Payload where
  id := r.id.text
  ns := r.ns
  metadata := r.metadata
  tags := r.tags
  sourceSystem := r.sourceSystem
  createdAt := r.createdAt
  updatedAt := r.updatedAt
  version := r.version
  checksum := r.checksum
  vector := r.vector
  dimension := r.dimension

end Vsector.Models
