import Mathlib

/-!
# Numbers as big-endian bytes

`beBytes w n` is `n` modulo `256 ^ w` in `w` bytes, most significant first,
and `beNat` reads it back (`beNat_beBytes`).
-/

namespace Framework

/-- The `w` bytes of `n`, most significant first. -/
def beBytes : Nat → Nat → List UInt8
  | 0, _ => []
  | w + 1, n => beBytes w (n / 256) ++ [UInt8.ofNat n]

/-- The number a byte string writes, most significant byte first. -/
def beNat (bs : List UInt8) : Nat := bs.foldl (fun n b => n * 256 + b.toNat) 0

@[simp] theorem length_beBytes (w n : Nat) : (beBytes w n).length = w := by
  induction w generalizing n with
  | zero => rfl
  | succ w ih => simp [beBytes, ih]

theorem beNat_beBytes {w n : Nat} (h : n < 256 ^ w) : beNat (beBytes w n) = n := by
  induction w generalizing n with
  | zero => rw [Nat.pow_zero] at h; simp only [beBytes, beNat, List.foldl_nil]; omega
  | succ w ih =>
    have hd : n / 256 < 256 ^ w := by
      rw [Nat.pow_succ] at h; exact Nat.div_lt_of_lt_mul (by rwa [Nat.mul_comm])
    have hn := ih hd
    simp only [beNat] at hn
    simp only [beBytes, beNat, List.foldl_append, List.foldl_cons, List.foldl_nil, hn,
      UInt8.toNat_ofNat']
    omega

end Framework
