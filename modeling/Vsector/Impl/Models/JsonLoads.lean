import Vsector.Framework.Dict
import Vsector.Impl.Models.JsonText

/-!
# Reading and printing JSON

`json.loads` and `json.dumps(value, indent=2)` of Python's standard library.
A number or a word is read as one token: whatever else may follow it is
refused in any case. Strings with lone surrogates, which a Lean string cannot
hold, are refused.
-/

namespace Vsector.Models

namespace Json

open Framework

/-! ## Reading -/

/-- Whitespace between tokens. -/
def isBlank (c : Char) : Bool := c == ' ' || c == '\t' || c == '\n' || c == '\r'

def skipBlanks (s : List Char) : List Char := s.dropWhile isBlank

/-- The characters of the tokens of numbers and words. -/
def isTokenChar (c : Char) : Bool := c.isAlphanum || c == '.' || c == '+' || c == '-'

/-- The character that an escape stands for. -/
def escaped? (c : Char) : Option Char :=
  if c = '"' then some '"' else if c = '\\' then some '\\' else if c = '/' then some '/'
  else if c = 'b' then some (Char.ofNat 8) else if c = 'f' then some (Char.ofNat 12)
    else if c = 'n' then some '\n'
  else if c = 'r' then some '\r' else if c = 't' then some '\t' else none

def hexValue? (c : Char) : Option Nat :=
  if '0' ≤ c ∧ c ≤ '9' then some (c.toNat - 48) else if 'a' ≤ c ∧ c ≤ 'f' then some (c.toNat - 87)
  else if 'A' ≤ c ∧ c ≤ 'F' then some (c.toNat - 55) else none

/-- `_decode_uXXXX`. -/
def scanHex : List Char → Option (Nat × List Char)
  | a :: b :: c :: d :: s =>
    match hexValue? a, hexValue? b, hexValue? c, hexValue? d with
    | some a, some b, some c, some d => some (a * 4096 + b * 256 + c * 16 + d, s)
    | _, _, _, _ => none
  | _ => none

/-- What follows `\u`. -/
def scanUnicode (s : List Char) : Option (Char × List Char) :=
  match scanHex s with
  | none => none
  | some (n, s) =>
    if n < 55296 ∨ 57343 < n then some (Char.ofNat n, s)
    else
      match s with
      | '\\' :: 'u' :: s =>
        match scanHex s with
        | none => none
        | some (m, s) =>
          if n < 56320 ∧ 56320 ≤ m ∧ m ≤ 57343 then
            some (Char.ofNat (65536 + (n - 55296) * 1024 + (m - 56320)), s)
          else none
      | _ => none

/-- One character of a string. -/
def scanChar : List Char → Option (Char × List Char)
  | [] => none
  | c :: s =>
    if c = '\\' then
      match s with
      | [] => none
      | k :: s => if k = 'u' then scanUnicode s else (escaped? k).map fun c => (c, s)
    else if c.toNat < 32 then none
    else some (c, s)

/-- A string, behind its opening quote. -/
def scanString : Nat → List Char → Option (List Char × List Char)
  | 0, _ => none
  | _ + 1, [] => none
  | fuel + 1, c :: s =>
    if c = '"' then some ([], s)
    else
      match scanChar (c :: s) with
      | none => none
      | some (c, s) => (scanString fuel s).map fun p => (c :: p.1, p.2)

/-- Digits, without leading zeros. -/
def readNat (ds : List Char) : Option Nat :=
  if Nat.toDigits 10 (Nat.ofDigitChars 10 ds 0) = ds then some (Nat.ofDigitChars 10 ds 0) else none

def readInt : List Char → Option Int
  | '-' :: ds => (readNat ds).map fun (n : Nat) => -(n : Int)
  | ds => (readNat ds).map fun (n : Nat) => (n : Int)

/-- `e`, a sign and digits, or nothing. -/
def isExponent : List Char → Bool
  | [] => true
  | c :: s =>
    let digits := match s with
      | '+' :: s => s
      | '-' :: s => s
      | s => s
    (c == 'e' || c == 'E') && digits ≠ [] && digits.all Char.isDigit

/-- An integer, a fraction and an exponent. -/
def isFloatText (token : List Char) : Bool :=
  let rest := token.dropWhile fun c => c.isDigit || c == '-'
  (readInt (token.takeWhile fun c => c.isDigit || c == '-')).isSome &&
    match rest with
    | '.' :: s => s.takeWhile Char.isDigit ≠ [] && isExponent (s.dropWhile Char.isDigit)
    | s => isExponent s

variable (X : Externals)

def readToken (token : List Char) : Option Json :=
  if token = "null".toList then some null
  else if token = "true".toList then some (bool true)
  else if token = "false".toList then some (bool false)
  else if token = "NaN".toList then some (float .nan)
  else if token = "Infinity".toList then some (float .inf)
  else if token = "-Infinity".toList then some (float .negInf)
  else
    match readInt token with
    | some n => some (int n)
    | none =>
      if isFloatText token then (X.floatOf (.str (String.ofList token))).toOption.map float
        else none

def scanToken (s : List Char) : Option (Json × List Char) :=
  (readToken X (s.takeWhile isTokenChar)).map fun j => (j, s.dropWhile isTokenChar)

/-- `dict(pairs)`. -/
def dictOf (pairs : List (String × Json)) : List (String × Json) :=
  (pairs.foldl (fun d p => d.set p.1 p.2) (∅ : Dict String Json)).entries

/-- What is behind `c`, where that is next but for whitespace. -/
def expect (c : Char) (s : List Char) : Option (List Char) :=
  match skipBlanks s with
  | [] => none
  | d :: s => if d = c then some s else none

mutual

/-- `scan_once`, behind whitespace. -/
def scanValue : Nat → List Char → Option (Json × List Char)
  | 0, _ => none
  | _ + 1, [] => none
  | fuel + 1, c :: s =>
    if c = '"' then (scanString fuel s).map fun p => (str (String.ofList p.1), p.2)
    else if c = '[' then
      match expect ']' s with
      | some s => some (arr [], s)
      | none => (scanItems fuel (skipBlanks s)).map fun p => (arr p.1, p.2)
    else if c = '{' then
      match expect '}' s with
      | some s => some (obj [], s)
      | none => (scanFields fuel (skipBlanks s)).map fun p => (obj (dictOf p.1), p.2)
    else scanToken X (c :: s)

/-- The items of an array, from a first one to the bracket. -/
def scanItems : Nat → List Char → Option (List Json × List Char)
  | 0, _ => none
  | fuel + 1, s =>
    match scanValue fuel s with
    | none => none
    | some (j, s) =>
      match expect ']' s, expect ',' s with
      | some s, _ => some ([j], s)
      | none, some s => (scanItems fuel (skipBlanks s)).map fun p => (j :: p.1, p.2)
      | none, none => none

/-- The fields of an object, from a first one to the brace. -/
def scanFields : Nat → List Char → Option (List (String × Json) × List Char)
  | 0, _ => none
  | _ + 1, [] => none
  | fuel + 1, c :: s =>
    if c = '"' then
      match scanString fuel s with
      | none => none
      | some (k, s) =>
        match expect ':' s with
        | none => none
        | some s =>
          match scanValue fuel (skipBlanks s) with
          | none => none
          | some (j, s) =>
            match expect '}' s, expect ',' s with
            | some s, _ => some ([(String.ofList k, j)], s)
            | none, some s =>
              (scanFields fuel (skipBlanks s)).map fun p => ((String.ofList k, j) :: p.1, p.2)
            | none, none => none
    else none

end

/-- `json.loads`; `none` where it raises. -/
def loads (s : List Char) : Option Json :=
  if s.head? = some (Char.ofNat 65279) then none
  else
    match scanValue X (s.length + 1) (skipBlanks s) with
    | some (j, rest) => if skipBlanks rest = [] then some j else none
    | none => none

/-! ## Printing -/

/-- A new line, indented. -/
def newline (depth : Nat) : List Char := '\n' :: List.replicate (2 * depth) ' '

mutual

/-- `json.dumps(value, indent=2)`, where the value is `depth` levels deep. -/
def pretty (depth : Nat) : Json → List Char
  | arr [] => ['[', ']']
  | arr (j :: js) =>
    '[' :: (newline (depth + 1) ++
      (pretty (depth + 1) j ++ (prettyItems (depth + 1) js ++ (newline depth ++ [']']))))
  | obj [] => ['{', '}']
  | obj ((k, j) :: fs) =>
    '{' :: (newline (depth + 1) ++ (strText .default k ++ (':' :: ' ' :: (pretty (depth + 1) j ++
      (prettyFields (depth + 1) fs ++ (newline depth ++ ['}']))))))
  | j => text X .default j

/-- The items behind the first one. -/
def prettyItems (depth : Nat) : List Json → List Char
  | [] => []
  | j :: js => ',' :: (newline depth ++ (pretty depth j ++ prettyItems depth js))

def prettyFields (depth : Nat) : List (String × Json) → List Char
  | [] => []
  | (k, j) :: fs =>
    ',' :: (newline depth ++
      (strText .default k ++ (':' :: ' ' :: (pretty depth j ++ prettyFields depth fs))))

end

end Json

/-- What is relied on of `float.__repr__` and `float()`: the text of a finite float is a number
with a point or an exponent, and is read back; a float is itself as a float. -/
structure Externals.FloatReads (X : Externals) : Prop where
  text : ∀ x, Json.isFloatText (X.floatStr (.finite x)).toList = true
  notInt : ∀ x, Json.readInt (X.floatStr (.finite x)).toList = none
  chars : ∀ x, ∀ c ∈ (X.floatStr (.finite x)).toList, Json.isTokenChar c = true
  reads : ∀ x, X.floatOf (.str (X.floatStr (.finite x))) = .ok (.finite x)
  self : ∀ x, X.floatOf (.float x) = .ok x

end Vsector.Models
