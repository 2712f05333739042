import Vsector.Impl.Errors

/-!
# Shard auto-tuning

`auto_shard_count` (`models/cost.py`) and `Namespace.auto_tune`
(`models/namespace.py`), in exact arithmetic. The dimension, the compression
and the replication factor are arguments that the code does not read.
-/

namespace Vsector.Models

/-- `int(x)`. -/
def pyInt (x : ℚ) : ℤ := if 0 ≤ x then ⌊x⌋ else ⌈x⌉

/-- The default of `target_utilization`. -/
def targetUtilization : ℚ := 7 / 10

/-- The default of `min_shards`. -/
def minShards : ℤ := 1

/-- The default of `max_shards`. -/
def maxShards : ℤ := 1024

/-- `effective_capacity`. -/
def effectiveCapacity (shardMaxVectors : ℤ) (utilization : ℚ) : ℤ :=
  pyInt (shardMaxVectors * utilization)

def autoShardCount (expectedRecords shardMaxVectors : ℤ) (utilization : ℚ)
    (minShards maxShards : ℤ) : Except Exc ℤ :=
  if expectedRecords ≤ 0 then .ok minShards
  else
    let capacity := effectiveCapacity shardMaxVectors utilization
    if capacity = 0 then .error (.other "ZeroDivisionError" "division by zero")
    else
      let shards := ⌈(expectedRecords : ℚ) / capacity⌉
      .ok (max minShards (min maxShards shards))

/-- What `auto_tune` reads and writes of a namespace. -/
structure Sharded where
  expectedRecords : Option ℤ
  shardCount : ℤ
deriving DecidableEq

/-- `auto_tune(shard_max_vectors)`: what it returns, and the namespace it leaves. -/
def Sharded.autoTune (n : Sharded) (shardMaxVectors : ℤ) : Except Exc (ℤ × Sharded) :=
  match n.expectedRecords with
  | none | some 0 => .ok (n.shardCount, n)
  | some expectedRecords => do
    let tuned ← autoShardCount expectedRecords shardMaxVectors targetUtilization minShards maxShards
    .ok (tuned, { n with shardCount := tuned })

end Vsector.Models
