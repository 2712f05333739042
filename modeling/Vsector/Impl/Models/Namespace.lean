import Vsector.Impl.Models.VectorRecord

/-!
# Namespaces

The settings of `Namespace` (`models/namespace.py`) that the write and read
paths look at.
-/

namespace Vsector.Models

inductive DistanceMetric where
  | cosine
  | euclidean
  | dotProduct
  | manhattan
deriving DecidableEq

inductive IndexType where
  | hnsw
  | ivfPq
  | flat
  | scann
deriving DecidableEq

structure Namespace where
  name : String
  dimension : Nat
  distanceMetric : DistanceMetric
  indexType : IndexType
  requiredAcks : Nat

end Vsector.Models
