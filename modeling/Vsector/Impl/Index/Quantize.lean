import Vsector.Framework.HalfEven
import Vsector.Impl.Errors

/-!
# Scalar quantisation

`sq8_quantize` and `sq8_dequantize` (`index/quantize.py`), in exact arithmetic.
The `BF16` format cuts the bits of a float and is left out.
-/

namespace Vsector.Index

open Framework

/-- `np.clip(x, 0, 255)`, of a whole number. -/
def clip (x : ℤ) : ℤ := max 0 (min 255 x)

/-- What `sq8_quantize` returns of one vector. -/
structure Sq8 where
  codes : List Nat
  scale : ℚ
  zp : ℚ
deriving DecidableEq

/-- The code of `x`, the least element of whose vector is `zp`. -/
def sq8Code (scale zp x : ℚ) : Nat := (clip (roundHalfEven ((x - zp) / scale))).toNat

/-- `sq8_quantize(v)`; `v.min()` has no value where `v` is empty. -/
def sq8Quantize (v : List ℚ) : Except Exc Sq8 :=
  match v.min?, v.max? with
  | some vmin, some vmax =>
    if vmax = vmin then .ok ⟨v.map fun _ => 0, 1, vmin⟩
    else
      let scale := (vmax - vmin) / 255
      .ok ⟨v.map (sq8Code scale vmin), scale, vmin⟩
  | _, _ =>
    .error (.valueError "zero-size array to reduction operation minimum which has no identity")

/-- `sq8_dequantize(codes, scale, zp)`. -/
def sq8Dequantize (q : Sq8) : List ℚ := q.codes.map fun code : Nat => (code : ℚ) * q.scale + q.zp

end Vsector.Index
