import Vsector.Impl.Models.VectorRecord

/-!
# JSON texts

`json.dumps(value, sort_keys=True)` of Python's standard library: the text of
a document, the fields of every object sorted by name.
-/

namespace Vsector.Models

namespace Json

/-! ## Sorting -/

mutual

/-- The fields of every object by name. -/
def sortKeys : Json → Json
  | arr items => arr (sortItems items)
  | obj fields => obj ((sortFields fields).insertionSort fun a b => a.1 ≤ b.1)
  | j => j

def sortItems : List Json → List Json
  | [] => []
  | j :: js => j.sortKeys :: sortItems js

def sortFields : List (String × Json) → List (String × Json)
  | [] => []
  | (k, j) :: fs => (k, j.sortKeys) :: sortFields fs

end

/-! ## Texts -/

/-- `ensure_ascii`, and whether the separators are `", "` and `": "` or `","` and `":"`. -/
structure Style where
  ensureAscii : Bool
  spaced : Bool

/-- The style of `json.dumps` without further arguments. -/
def Style.default : Style := ⟨true, true⟩

def Style.space (st : Style) : List Char := if st.spaced then [' '] else []

def hexDigit (n : Nat) : Char :=
  if n % 16 < 10 then Char.ofNat (48 + n % 16) else Char.ofNat (87 + n % 16)

/-- `\uXXXX`. -/
def unicodeEscape (n : Nat) : List Char :=
  ['\\', 'u', hexDigit (n / 4096), hexDigit (n / 256), hexDigit (n / 16), hexDigit n]

/-- The escapes of one character: above `\uffff` a surrogate pair. -/
def escapeChar (st : Style) (c : Char) : List Char :=
  if c = '"' then ['\\', '"']
  else if c = '\\' then ['\\', '\\']
  else if c = '\n' then ['\\', 'n']
  else if c = '\r' then ['\\', 'r']
  else if c = '\t' then ['\\', 't']
  else if c.toNat = 12 then ['\\', 'f']
  else if c.toNat = 8 then ['\\', 'b']
  else if 32 ≤ c.toNat ∧ (c.toNat ≤ 126 ∨ ¬ st.ensureAscii) then [c]
  else if c.toNat < 65536 then unicodeEscape c.toNat
  else
    unicodeEscape (55296 + (c.toNat - 65536) / 1024) ++
      unicodeEscape (56320 + (c.toNat - 65536) % 1024)

/-- A text in quotes. -/
def strText (st : Style) (s : String) : List Char :=
  '"' :: (s.toList.flatMap (escapeChar st) ++ ['"'])

variable (X : Externals)

def floatText (x : PyFloat) : List Char :=
  match x with
  | .nan => "NaN".toList
  | .inf => "Infinity".toList
  | .negInf => "-Infinity".toList
  | .finite _ => (X.floatStr x).toList

variable (st : Style)

mutual

def text : Json → List Char
  | null => "null".toList
  | bool b => if b then "true".toList else "false".toList
  | int n => (toString n).toList
  | float x => floatText X x
  | str s => strText st s
  | arr items => '[' :: itemsText items
  | obj fields => '{' :: fieldsText fields

/-- The items of an array and its closing bracket. -/
def itemsText : List Json → List Char
  | [] => [']']
  | j :: js => text j ++ itemsTail js

def itemsTail : List Json → List Char
  | [] => [']']
  | j :: js => ',' :: (st.space ++ (text j ++ itemsTail js))

/-- The fields of an object and its closing brace. -/
def fieldsText : List (String × Json) → List Char
  | [] => ['}']
  | (k, j) :: fs => strText st k ++ (':' :: (st.space ++ (text j ++ fieldsTail fs)))

def fieldsTail : List (String × Json) → List Char
  | [] => ['}']
  | (k, j) :: fs =>
    ',' :: (st.space ++ (strText st k ++ (':' :: (st.space ++ (text j ++ fieldsTail fs)))))

end

/-- `json.dumps(value, sort_keys=True)`. -/
def dumps (j : Json) : String := String.ofList (text X st j.sortKeys)

end Json

/-- What is relied on of `float.__repr__`: finite floats that differ have different texts, of
digits, signs, a point and an exponent, with a point or an exponent. -/
structure Externals.FloatRepr (X : Externals) : Prop where
  inj : ∀ x y, X.floatStr (.finite x) = X.floatStr (.finite y) → x = y
  chars : ∀ x, ∀ c ∈ (X.floatStr (.finite x)).toList, c.isDigit ∨ c = '.' ∨ c = 'e' ∨
    c = '+' ∨ c = '-'
  float : ∀ x, '.' ∈ (X.floatStr (.finite x)).toList ∨ 'e' ∈ (X.floatStr (.finite x)).toList

end Vsector.Models
