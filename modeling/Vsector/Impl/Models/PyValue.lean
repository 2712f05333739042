import Vsector.Impl.Models.VectorRecord

/-!
# Python's operators on JSON values

`==`, `<`, `in`, `str` and iteration, as Python has them for what
`json.loads` returns.
-/

namespace Vsector.Models

/-- `x == y`. -/
def PyFloat.eq : PyFloat → PyFloat → Bool
  | finite x, finite y => x = y
  | inf, inf | negInf, negInf => true
  | _, _ => false

/-- `x < y`. -/
def PyFloat.lt : PyFloat → PyFloat → Bool
  | finite x, finite y => x < y
  | negInf, finite _ | negInf, inf | finite _, inf => true
  | _, _ => false

namespace Json

/-- `type(value).__name__`. -/
def className : Json → String
  | null => "NoneType"
  | bool _ => "bool"
  | int _ => "int"
  | float _ => "float"
  | str _ => "str"
  | arr _ => "list"
  | obj _ => "dict"

/-- The number a `bool`, an `int` or a `float` is. -/
def number : Json → Option PyFloat
  | bool b => some (.finite (if b then 1 else 0))
  | int n => some (.finite n)
  | float x => some x
  | _ => none

mutual

/-- `a == b`. -/
def pyEq : Json → Json → Bool
  | null, null => true
  | str s, str t => s == t
  | arr xs, arr ys => pyEqItems xs ys
  | obj fs, obj gs => fs.length == gs.length && pyEqFields fs gs
  | bool b, j => (number (bool b)).any fun x => (number j).any x.eq
  | int n, j => (number (int n)).any fun x => (number j).any x.eq
  | float x, j => (number j).any x.eq
  | _, _ => false

def pyEqItems : List Json → List Json → Bool
  | [], [] => true
  | x :: xs, y :: ys => pyEq x y && pyEqItems xs ys
  | _, _ => false

/-- Every field has an equal one. -/
def pyEqFields : List (String × Json) → List (String × Json) → Bool
  | [], _ => true
  | (k, v) :: fs, gs => (gs.lookup k).any (pyEq v) && pyEqFields fs gs

end

def ltError (a b : Json) : Exc :=
  .typeError
    s!"'<' not supported between instances of {pyRepr a.className} and {pyRepr b.className}"

mutual

/-- `a < b`. -/
def pyLt : Json → Json → Except Exc Bool
  | str s, str t => .ok (s < t)
  | arr xs, arr ys => pyLtItems xs ys
  | a, b =>
    match number a, number b with
    | some x, some y => .ok (x.lt y)
    | _, _ => .error (ltError a b)

/-- Lists are compared at the first place they differ. -/
def pyLtItems : List Json → List Json → Except Exc Bool
  | _, [] => .ok false
  | [], _ :: _ => .ok true
  | x :: xs, y :: ys => if pyEq x y then pyLtItems xs ys else pyLt x y

end

/-- `value in container`. -/
def pyIn (value : Json) : Json → Except Exc Bool
  | arr items => .ok (items.any fun item => pyEq item value)
  | str s =>
    match value with
    | str t => .ok (decide (t.toList <:+: s.toList))
    | _ =>
      .error (.typeError s!"'in <string>' requires string as left operand, not {value.className}")
  | obj fields =>
    match value with
    | str t => .ok (fields.any fun f => f.1 == t)
    | arr _ | obj _ => .error (.typeError s!"unhashable type: {pyRepr value.className}")
    | _ => .ok false
  | container =>
    .error (.typeError s!"argument of type {pyRepr container.className} is not iterable")

/-- What `for item in value` goes through. -/
def pyIter : Json → Except Exc (List Json)
  | arr items => .ok items
  | str s => .ok (s.toList.map fun c => .str (String.singleton c))
  | obj fields => .ok (fields.map fun f => .str f.1)
  | value => .error (.typeError s!"{pyRepr value.className} object is not iterable")

/-- `any(p(item) for item in items)`. -/
def pyAny (p : Json → Except Exc Bool) : List Json → Except Exc Bool
  | [] => .ok false
  | item :: items =>
    match p item with
    | .error e => .error e
    | .ok true => .ok true
    | .ok false => pyAny p items

/-- `str(value)`. -/
def pyStr (X : Externals) : Json → String
  | str s => s
  | value => X.jsonStr value

end Json

end Vsector.Models
