import Vsector.Impl.Models.Cost

/-!
# What auto-tuning returns

`auto_shard_count_iff`: the number of shards is sufficient, and one less is
not, exactly where a shard may hold two vectors; a shard of one vector has no
capacity left at seven tenths of it, and the division fails
(`shard_of_one_vector`).
-/

namespace Vsector.Models

/-- What is asked of the number of shards, `capacity` vectors to a shard. -/
def SufficientShards (expectedRecords capacity shards : ℤ) : Prop :=
  1 ≤ shards ∧ shards ≤ 1024 ∧
    (shards < 1024 → expectedRecords ≤ shards * capacity ∧
      (shards - 1) * capacity < expectedRecords)

theorem pyInt_of_nonneg {x : ℚ} (h : 0 ≤ x) : pyInt x = ⌊x⌋ := if_pos h

/-- The least number of shards of capacity `c` that hold `e` records. -/
theorem le_mul_ceil_div {e c : ℤ} (hc : 0 < c) :
    e ≤ ⌈(e : ℚ) / c⌉ * c ∧ (⌈(e : ℚ) / c⌉ - 1) * c < e := by
  have hcq : (0 : ℚ) < c := by exact_mod_cast hc
  have hup : (e : ℚ) / c ≤ ⌈(e : ℚ) / c⌉ := Int.le_ceil _
  have hdown : ((⌈(e : ℚ) / c⌉ : ℤ) : ℚ) - 1 < (e : ℚ) / c := by
    have := Int.ceil_lt_add_one ((e : ℚ) / c)
    linarith
  rw [div_le_iff₀ hcq] at hup
  rw [lt_div_iff₀ hcq] at hdown
  exact ⟨by exact_mod_cast hup, by exact_mod_cast hdown⟩

theorem autoShardCount_ok {e m : ℤ} {u : ℚ} (he : 1 ≤ e) (hc : 0 < effectiveCapacity m u) :
    ∃ r, autoShardCount e m u minShards maxShards = .ok r ∧
      SufficientShards e (effectiveCapacity m u) r := by
  have hneed := le_mul_ceil_div (e := e) hc
  have hone : 1 ≤ ⌈(e : ℚ) / effectiveCapacity m u⌉ := by
    rw [Int.one_le_ceil_iff]
    exact div_pos (by exact_mod_cast he) (by exact_mod_cast hc)
  rw [autoShardCount, if_neg (show ¬ e ≤ 0 by omega)]
  simp only [show effectiveCapacity m u ≠ 0 by omega, ↓reduceIte]
  generalize ⌈(e : ℚ) / effectiveCapacity m u⌉ = shards at hneed hone ⊢
  refine ⟨_, rfl, ?_, ?_, fun hlt => ?_⟩
  · exact le_max_left 1 _
  · simp only [minShards, maxShards]
    omega
  · have hr : max minShards (min maxShards shards) = shards := by
      simp only [minShards, maxShards] at hlt ⊢
      omega
    rwa [hr]

theorem effectiveCapacity_eq {m : ℤ} (hm : 0 ≤ m) :
    effectiveCapacity m targetUtilization = ⌊(7 / 10 : ℚ) * m⌋ := by
  have h : (0 : ℚ) ≤ m := by exact_mod_cast hm
  rw [effectiveCapacity, targetUtilization, mul_comm, pyInt_of_nonneg (mul_nonneg (by norm_num) h)]

/-- Seven tenths of two vectors are one vector, and seven tenths of one are none. -/
theorem effectiveCapacity_pos_iff {m : ℤ} (hm : 1 ≤ m) :
    0 < effectiveCapacity m targetUtilization ↔ 2 ≤ m := by
  rw [effectiveCapacity_eq (by omega), Int.floor_pos]
  constructor
  · intro h
    by_contra hlt
    have h1 : m = 1 := by omega
    subst h1
    norm_num at h
  · intro h
    have h2 : (2 : ℚ) ≤ m := by exact_mod_cast h
    linarith

/-- What `auto_shard_count` returns, for every number of records and every size of a shard. -/
theorem auto_shard_count_iff {expectedRecords shardMaxVectors : ℤ} (he : 1 ≤ expectedRecords)
    (hm : 1 ≤ shardMaxVectors) :
    (∃ r, autoShardCount expectedRecords shardMaxVectors targetUtilization minShards
      maxShards = .ok r ∧
      SufficientShards expectedRecords ⌊(7 / 10 : ℚ) * shardMaxVectors⌋ r) ↔
        2 ≤ shardMaxVectors := by
  rw [← effectiveCapacity_pos_iff hm, ← effectiveCapacity_eq (by omega)]
  constructor
  · rintro ⟨r, hr, -⟩
    by_contra hc
    have h0 : effectiveCapacity shardMaxVectors targetUtilization = 0 := by
      have : 0 ≤ effectiveCapacity shardMaxVectors targetUtilization := by
        rw [effectiveCapacity_eq (by omega)]
        exact Int.floor_nonneg.mpr
          (mul_nonneg (by norm_num) (by exact_mod_cast (by omega : 0 ≤ shardMaxVectors)))
      omega
    rw [autoShardCount, if_neg (by omega), h0] at hr
    simp at hr
  · exact autoShardCount_ok he

theorem auto_shard_count_three :
    ∃ r, autoShardCount 3 2 targetUtilization minShards maxShards = .ok r ∧
      SufficientShards 3 ⌊(7 / 10 : ℚ) * (2 : ℤ)⌋ r :=
  (auto_shard_count_iff (by decide) (by decide)).mpr (by decide)

/-- A shard of one vector. -/
theorem shard_of_one_vector :
    autoShardCount 1 1 targetUtilization minShards maxShards =
      .error (.other "ZeroDivisionError" "division by zero") := by
  decide +kernel

theorem autoShardCount_bounds {e m r : ℤ} {u : ℚ}
    (h : autoShardCount e m u minShards maxShards = .ok r) :
    1 ≤ r ∧ r ≤ 1024 := by
  simp only [autoShardCount, minShards, maxShards] at h
  split at h
  · cases h
    decide
  · split at h <;> cases h
    omega

/-- What `auto_tune` leaves in the namespace is what it returns, within the bounds of the field. -/
theorem autoTune_bounds {n n' : Sharded} {shardMaxVectors tuned : ℤ}
    (hn : 1 ≤ n.shardCount ∧ n.shardCount ≤ 1024)
    (h : n.autoTune shardMaxVectors = .ok (tuned, n')) :
    n' = { n with shardCount := tuned } ∧ 1 ≤ tuned ∧ tuned ≤ 1024 := by
  unfold Sharded.autoTune at h
  split at h
  · cases h
    exact ⟨rfl, hn⟩
  · cases h
    exact ⟨rfl, hn⟩
  · rename_i e _ _
    cases hr : autoShardCount e shardMaxVectors targetUtilization minShards maxShards with
    | error x => simp [hr, bind, Except.bind] at h
    | ok r =>
      simp only [hr, bind, Except.bind, Except.ok.injEq, Prod.mk.injEq] at h
      obtain ⟨rfl, rfl⟩ := h
      exact ⟨rfl, autoShardCount_bounds hr⟩

end Vsector.Models
