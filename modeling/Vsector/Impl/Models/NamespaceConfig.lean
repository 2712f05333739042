import Vsector.Impl.Models.Namespace

/-!
# Namespaces as documents

All the settings of `Namespace` (`models/namespace.py`), with what pydantic
has checked of them, and the document they are written as and read from. Where
a value of a document is of another type than the field it is for, reading it
counts as an exception; `model_dump` writes no such value.
-/

namespace Vsector.Models

inductive CompressionType where
  | none
  | pq
  | sq8
  | bf16
deriving DecidableEq

def DistanceMetric.value : DistanceMetric → String
  | cosine => "COSINE"
  | euclidean => "EUCLIDEAN"
  | dotProduct => "DOT_PRODUCT"
  | manhattan => "MANHATTAN"

def IndexType.value : IndexType → String
  | hnsw => "HNSW"
  | ivfPq => "IVF_PQ"
  | flat => "FLAT"
  | scann => "SCANN"

def CompressionType.value : CompressionType → String
  | none => "NONE"
  | pq => "PQ"
  | sq8 => "SQ8"
  | bf16 => "BF16"

/-- `DistanceMetric(value)`. -/
def DistanceMetric.ofValue? (value : String) : Option DistanceMetric :=
  [cosine, euclidean, dotProduct, manhattan].find? fun m => m.value == value

/-- `IndexType(value)`. -/
def IndexType.ofValue? (value : String) : Option IndexType :=
  [hnsw, ivfPq, flat, scann].find? fun t => t.value == value

/-- `CompressionType(value)`. -/
def CompressionType.ofValue? (value : String) : Option CompressionType :=
  [none, pq, sq8, bf16].find? fun c => c.value == value

/-- `^[a-zA-Z0-9_\-\.]{1,64}$`. -/
def matchesNamePattern (s : String) : Bool :=
  1 ≤ s.length && s.length ≤ 64 && s.toList.all fun c =>
    c.isAlphanum || c == '_' || c == '-' || c == '.'

/-- A `Namespace` whose fields have passed their validators. -/
structure NamespaceConfig where
  name : String
  dimension : Nat
  distanceMetric : DistanceMetric
  indexType : IndexType
  replicationFactor : Nat
  requiredAcks : Nat
  shardCount : Nat
  compression : CompressionType
  tenantId : UUID
  expectedRecords : Option Nat
  name_ok : matchesNamePattern name = true
  dimension_ok : 1 ≤ dimension ∧ dimension ≤ 65536
  replicationFactor_ok : 1 ≤ replicationFactor ∧ replicationFactor ≤ 7
  requiredAcks_ok : 1 ≤ requiredAcks ∧ requiredAcks ≤ 7
  shardCount_ok : 1 ≤ shardCount ∧ shardCount ≤ 1024
  expectedRecords_ok : ∀ n, expectedRecords = some n → 1 ≤ n
deriving DecidableEq

namespace NamespaceConfig

/-- The settings that the write and read paths look at. -/
def toNamespace (c : NamespaceConfig) : Namespace :=
  ⟨c.name, c.dimension, c.distanceMetric, c.indexType, c.requiredAcks⟩

open Json

/-- `model_dump(mode="json")`. -/
def modelDump (c : NamespaceConfig) : Json :=
  obj [("name", str c.name), ("dimension", int c.dimension),
    ("distance_metric", str c.distanceMetric.value),
    ("index_type", str c.indexType.value), ("replication_factor", int c.replicationFactor),
    ("required_acks", int c.requiredAcks), ("shard_count", int c.shardCount),
      ("compression", str c.compression.value),
    ("tenant_id", str c.tenantId.text),
    ("expected_records", match c.expectedRecords with
      | some n => int n
      | none => null)]

/-- A field by its key; a required one has no default. -/
def field {α : Type} (v : Json) (key : String) (default : Option α) (read : Json → Option α) :
    Option α :=
  match v.get? key with
  | none => default
  | some j => read j

def readStr : Json → Option String
  | str s => some s
  | _ => none

def readEnum {α : Type} (ofValue? : String → Option α) : Json → Option α
  | str s => ofValue? s
  | _ => none

def readInt : Json → Option Nat
  | int (.ofNat n) => some n
  | _ => none

def readIntOrNull : Json → Option (Option Nat)
  | null => some none
  | j => (readInt j).map some

variable (X : Externals)

/-- `model_validate(v)`; `fresh` is what `uuid.uuid4()` returns. -/
def modelValidate (fresh : UUID) (v : Json) : Option NamespaceConfig :=
  if v.isObj then do
    let name ← field v "name" none readStr
    let dimension ← field v "dimension" none readInt
    let distanceMetric ← field v "distance_metric" (some .cosine) (readEnum DistanceMetric.ofValue?)
    let indexType ← field v "index_type" (some .hnsw) (readEnum IndexType.ofValue?)
    let replicationFactor ← field v "replication_factor" (some 3) readInt
    let requiredAcks ← field v "required_acks" (some 1) readInt
    let shardCount ← field v "shard_count" (some 8) readInt
    let compression ← field v "compression" (some .none) (readEnum CompressionType.ofValue?)
    let tenantId ← field v "tenant_id" (some fresh) (readEnum X.uuid)
    let expectedRecords ← field v "expected_records" (some none) readIntOrNull
    if h : matchesNamePattern name = true ∧ (1 ≤ dimension ∧ dimension ≤ 65536) ∧
        (1 ≤ replicationFactor ∧ replicationFactor ≤ 7) ∧ (1 ≤ requiredAcks ∧ requiredAcks ≤ 7) ∧
        (1 ≤ shardCount ∧ shardCount ≤ 1024) ∧ expectedRecords.all (1 ≤ ·) then
      some
        { name := name, dimension := dimension, distanceMetric := distanceMetric,
          indexType := indexType, replicationFactor := replicationFactor,
          requiredAcks := requiredAcks, shardCount := shardCount,
          compression := compression, tenantId := tenantId, expectedRecords := expectedRecords,
          name_ok := h.1,
          dimension_ok := h.2.1, replicationFactor_ok := h.2.2.1, requiredAcks_ok := h.2.2.2.1,
          shardCount_ok := h.2.2.2.2.1,
          expectedRecords_ok := fun n hn => by simpa [hn] using h.2.2.2.2.2 }
    else none
  else none

end NamespaceConfig

end Vsector.Models
