import Vsector.Framework.PrefixCode
import Vsector.Impl.Models.JsonText
import Vsector.Proof.Models.Documents

/-!
# JSON texts can be read back

A document's text, followed by anything that does not go on with a number or
a word, says which document it is and where it ends (`text_unique`): strings
are escaped by a prefix code (`escapeChar_prefixCode`), arrays and objects
end with their bracket, and a number or a word ends at the first character
that is none of its own (`scalar_unique`).
-/

namespace Vsector.Models

namespace Json

open Framework

variable {X : Externals} {st : Style}

/-! ## Strings -/

/-- The value of a hexadecimal digit. -/
def hexValue (c : Char) : Nat := if c.toNat < 58 then c.toNat - 48 else c.toNat - 87

theorem hexValue_hexDigit (n : Nat) : hexValue (hexDigit n) = n % 16 := by
  have hn := Nat.mod_lt n (show 16 > 0 by decide)
  rw [hexDigit]
  generalize n % 16 = d at *
  interval_cases d <;> rfl

def hexValue4 (a b c d : Char) : Nat :=
  hexValue a * 4096 + hexValue b * 256 + hexValue c * 16 + hexValue d

theorem hexValue4_hexDigit {n : Nat} (h : n < 65536) :
    hexValue4 (hexDigit (n / 4096)) (hexDigit (n / 256)) (hexDigit (n / 16)) (hexDigit n) = n := by
  simp only [hexValue4, hexValue_hexDigit]
  omega

/-- The character of a short escape. -/
def shortEscape (c : Char) : Char :=
  if c = 'n' then '\n' else if c = 'r' then '\r' else if c = 't' then '\t'
    else if c = 'f' then Char.ofNat 12
  else if c = 'b' then Char.ofNat 8 else c

/-- Reading back what follows `\u`. -/
def unescapeUnicode : List Char → Option (Char × List Char)
  | a :: b :: c :: d :: s =>
    let n := hexValue4 a b c d
    if n < 55296 ∨ 57343 < n then some (Char.ofNat n, s)
    else
      match s with
      | _ :: _ :: a :: b :: c :: d :: s =>
        some (Char.ofNat (65536 + (n - 55296) * 1024 + (hexValue4 a b c d - 56320)), s)
      | _ => none
  | _ => none

/-- Reading back one character. -/
def unescape : List Char → Option (Char × List Char)
  | [] => none
  | c :: s =>
    if c = '\\' then
      match s with
      | [] => none
      | k :: s => if k = 'u' then unescapeUnicode s else some (shortEscape k, s)
    else some (c, s)

theorem not_surrogate (c : Char) : c.toNat < 55296 ∨ 57343 < c.toNat := by
  rcases c.valid with h | ⟨h, -⟩
  · exact .inl h
  · exact .inr h

theorem toNat_lt (c : Char) : c.toNat < 1114112 := by
  rcases c.valid with h | ⟨-, h⟩
  · exact lt_trans h (by decide)
  · exact h

theorem unescape_escapeChar (c : Char) (s : List Char) :
    unescape (escapeChar st c ++ s) = some (c, s) := by
  rw [escapeChar]
  split_ifs with hq hb hn hr ht hf hbs hp hu
  · subst hq; rfl
  · subst hb; rfl
  · subst hn; rfl
  · subst hr; rfl
  · subst ht; rfl
  · rw [show c = Char.ofNat 12 by rw [← hf, Char.ofNat_toNat]]; rfl
  · rw [show c = Char.ofNat 8 by rw [← hbs, Char.ofNat_toNat]]; rfl
  · simp only [List.cons_append, List.nil_append, unescape, if_neg hb]
  · have hval := hexValue4_hexDigit hu
    simp only [unescapeUnicode, unicodeEscape, List.cons_append, List.nil_append,
      unescape, if_true, hval, if_pos (not_surrogate c), Char.ofNat_toNat]
  · have hlt := toNat_lt c
    have hhigh := hexValue4_hexDigit (n := 55296 + (c.toNat - 65536) / 1024) (by omega)
    have hlow := hexValue4_hexDigit (n := 56320 + (c.toNat - 65536) % 1024) (by omega)
    have hsur : ¬ (55296 + (c.toNat - 65536) / 1024 < 55296 ∨
        57343 < 55296 + (c.toNat - 65536) / 1024) := by omega
    have hnat : 65536 + (55296 + (c.toNat - 65536) / 1024 - 55296) * 1024 +
        (56320 + (c.toNat - 65536) % 1024 - 56320) = c.toNat := by omega
    simp only [unescapeUnicode, unicodeEscape, List.cons_append, List.nil_append, unescape, if_true,
      hhigh, if_neg hsur, hlow, hnat, Char.ofNat_toNat]

theorem escapeChar_prefixCode : PrefixCode (escapeChar st) :=
  prefixCode_of_decode unescape unescape_escapeChar

/-- No escape begins with a quote. -/
theorem escapeChar_ne_quote (c : Char) (s t : List Char) : escapeChar st c ++ s ≠ '"' :: t := by
  intro h
  by_cases hc : c = '"'
  · subst hc
    have hhead : '\\' = '"' := (List.cons.inj h).1
    exact absurd hhead (by decide)
  · have hd : unescape (escapeChar st c ++ s) = some (c, s) := unescape_escapeChar c s
    have hquote : unescape ('"' :: t) = some ('"', t) := rfl
    rw [h, hquote, Option.some.injEq, Prod.mk.injEq] at hd
    exact hc hd.1.symm

theorem strText_unique {k k' : String} {s t : List Char}
    (h : strText st k ++ s = strText st k' ++ t) : k = k' ∧ s = t := by
  simp only [strText, List.cons_append, List.append_assoc, List.nil_append,
    List.cons.injEq, true_and] at h
  obtain ⟨hk, hs⟩ := escapeChar_prefixCode.flatMap_stop escapeChar_ne_quote _ _ _ _ h
  exact ⟨String.toList_inj.mp hk, hs⟩

/-! ## Numbers and words -/

/-- The characters of numbers and words. -/
def isScalarChar (c : Char) : Bool := c.isAlphanum || c == '.' || c == '+' || c == '-'

/-- What may follow a number or a word. -/
def Ends (s : List Char) : Prop := ∀ c ∈ s.head?, isScalarChar c = false

/-- Whether a document is a number or a word. -/
def isScalar : Json → Bool
  | null | bool _ | int _ | float _ => true
  | _ => false

theorem nat_chars (n : Nat) : ∀ c ∈ n.repr.toList, c.isDigit := by
  intro c hc
  rw [Nat.repr_eq_ofList_toDigits, String.toList_ofList] at hc
  exact Nat.isDigit_of_mem_toDigits (by decide) (by decide) hc

theorem int_chars (n : Int) : ∀ c ∈ (toString n).toList, c.isDigit ∨ c = '-' := by
  intro c hc
  rw [show toString n = n.repr from rfl, Int.repr_eq_if] at hc
  split at hc
  · exact .inl (nat_chars _ c hc)
  · rw [String.toList_append, List.mem_append] at hc
    rcases hc with hc | hc
    · exact .inr (List.mem_singleton.mp hc)
    · exact .inl (nat_chars _ c hc)

theorem isScalarChar_of_isDigit {c : Char} (h : c.isDigit) : isScalarChar c = true := by
  simp [isScalarChar, Char.isAlphanum, h]

/-- The word a document is. -/
def word : Json → Option String
  | null => some "null"
  | bool true => some "true"
  | bool false => some "false"
  | float .nan => some "NaN"
  | float .inf => some "Infinity"
  | float .negInf => some "-Infinity"
  | _ => none

/-- The number a document is. -/
def IsNumber (j : Json) : Prop := (∃ n, j = int n) ∨ ∃ x, j = float (.finite x)

def isNumberChar (c : Char) : Bool := c.isDigit || c == '.' || c == 'e' || c == '+' || c == '-'

theorem scalar_cases {j : Json} (hj : j.isScalar) : (∃ w, word j = some w) ∨ IsNumber j := by
  cases j with
  | null => exact .inl ⟨_, rfl⟩
  | bool b => cases b <;> exact .inl ⟨_, rfl⟩
  | int n => exact .inr (.inl ⟨n, rfl⟩)
  | float x =>
    cases x with
    | finite x => exact .inr (.inr ⟨x, rfl⟩)
    | nan => exact .inl ⟨_, rfl⟩
    | inf => exact .inl ⟨_, rfl⟩
    | negInf => exact .inl ⟨_, rfl⟩
  | str s => cases hj
  | arr items => cases hj
  | obj fields => cases hj

theorem word_ok {j : Json} {w : String} (h : word j = some w) : text X st j = w.toList ∧
    w ∈ ["null", "true", "false", "NaN", "Infinity", "-Infinity"] := by
  unfold word at h
  split at h <;> cases h <;> exact ⟨rfl, by decide⟩

theorem word_inj {j j' : Json} {w : String} (h : word j = some w) (h' : word j' = some w) :
    j = j' := by
  unfold word at h h'
  split at h <;> cases h <;> split at h' <;> first | rfl | exact absurd h' (by decide)

theorem word_scalar {w : String}
    (h : w ∈ ["null", "true", "false", "NaN", "Infinity", "-Infinity"]) :
    w.toList.all isScalarChar = true ∧ w.toList.any (fun c => !isNumberChar c) = true := by
  revert w
  decide

theorem number_chars (hX : X.FloatRepr) {j : Json} (hj : IsNumber j) :
    ∀ c ∈ text X st j, isNumberChar c = true := by
  intro c hc
  rcases hj with ⟨n, rfl⟩ | ⟨x, rfl⟩
  · rcases int_chars n c hc with h | rfl
    · simp [isNumberChar, h]
    · rfl
  · rcases hX.chars x c hc with h | rfl | rfl | rfl | rfl
    · simp [isNumberChar, h]
    all_goals rfl

theorem isScalarChar_of_isNumberChar {c : Char} (h : isNumberChar c = true) :
    isScalarChar c = true := by
  simp only [isNumberChar, Bool.or_eq_true, beq_iff_eq] at h
  rcases h with (((h | rfl) | rfl) | rfl) | rfl
  · simp [isScalarChar, Char.isAlphanum, h]
  all_goals rfl

theorem scalar_chars (hX : X.FloatRepr) {j : Json} (hj : j.isScalar) :
    ∀ c ∈ text X st j, isScalarChar c = true := by
  rcases scalar_cases hj with ⟨w, hw⟩ | hn
  · obtain ⟨ht, hmem⟩ := word_ok hw
    rw [ht]
    exact List.all_eq_true.mp (word_scalar hmem).1
  · exact fun c hc => isScalarChar_of_isNumberChar (number_chars hX hn c hc)

theorem number_inj (hX : X.FloatRepr) {j j' : Json} (hj : IsNumber j) (hj' : IsNumber j')
    (h : text X st j = text X st j') :
    j = j' := by
  have hmixed : ∀ (n : Int) (x : ℚ), text X st (int n) ≠ text X st (float (.finite x)) := by
    intro n x he
    have hpoint : ∀ c ∈ text X st (int n), c ≠ '.' ∧ c ≠ 'e' := by
      intro c hc
      rcases int_chars n c hc with h | rfl
      · exact ⟨fun he =>
          by
          rw [he] at h; exact absurd h (by decide), fun he => by
            rw [he] at h; exact absurd h (by decide)⟩
      · decide
    rw [he] at hpoint
    rcases hX.float x with h | h
    · exact (hpoint _ h).1 rfl
    · exact (hpoint _ h).2 rfl
  rcases hj with ⟨n, rfl⟩ | ⟨x, rfl⟩ <;> rcases hj' with ⟨n', rfl⟩ | ⟨x', rfl⟩
  · rw [Int.repr_injective (String.toList_inj.mp h)]
  · exact absurd h (hmixed n x')
  · exact absurd h.symm (hmixed n' x)
  · rw [hX.inj x x' (String.toList_inj.mp h)]

theorem scalar_inj (hX : X.FloatRepr) {j j' : Json} (hj : j.isScalar) (hj' : j'.isScalar)
    (h : text X st j = text X st j') :
    j = j' := by
  have hmixed : ∀ {j j' : Json} {w : String}, word j = some w → IsNumber j' →
      text X st j ≠ text X st j' := by
    intro j j' w hw hn he
    obtain ⟨ht, hmem⟩ := word_ok hw
    obtain ⟨c, hc, hnot⟩ := List.any_eq_true.mp (word_scalar hmem).2
    rw [← ht, he] at hc
    rw [number_chars hX hn c hc] at hnot
    cases hnot
  rcases scalar_cases hj with ⟨w, hw⟩ | hn <;> rcases scalar_cases hj' with ⟨w', hw'⟩ | hn'
  · have he : w = w' := by
      rw [(word_ok hw).1, (word_ok hw').1] at h
      exact String.toList_inj.mp h
    subst he
    exact word_inj hw hw'
  · exact absurd h (hmixed hw hn')
  · exact absurd h.symm (hmixed hw' hn)
  · exact number_inj hX hn hn' h

/-- A number or a word ends where its characters do. -/
theorem scalar_unique (hX : X.FloatRepr) {j j' : Json} {s t : List Char} (hj : j.isScalar)
    (hj' : j'.isScalar) (hs : Ends s) (ht : Ends t) (h : text X st j ++ s = text X st j' ++ t) :
    j = j' ∧ s = t := by
  obtain ⟨htext, hst⟩ := takeWhile_unique (scalar_chars hX hj) (scalar_chars hX hj') hs ht h
  exact ⟨scalar_inj hX hj hj' htext, hst⟩

/-! ## Documents -/

/-- The kinds of documents by their first character. -/
inductive Kind where
  | scalar
  | str
  | arr
  | obj
deriving DecidableEq

def kind : Json → Kind
  | str _ => .str
  | arr _ => .arr
  | obj _ => .obj
  | _ => .scalar

def charKind (c : Char) : Kind := if c = '"' then .str else if c = '[' then .arr
    else if c = '{' then .obj else .scalar

theorem charKind_scalar {c : Char} (h : isScalarChar c = true) :
    charKind c = .scalar ∧ c ≠ ']' := by
  have hne : ∀ d : Char, isScalarChar d = false → c ≠ d := fun d hd he => by
    rw [he, hd] at h; cases h
  rw [charKind, if_neg (hne '"' rfl), if_neg (hne '[' rfl), if_neg (hne '{' rfl)]
  exact ⟨rfl, hne ']' rfl⟩

theorem scalar_ne_nil (hX : X.FloatRepr) {j : Json} (hj : j.isScalar) : text X st j ≠ [] := by
  rcases scalar_cases hj with ⟨w, hw⟩ | ⟨n, rfl⟩ | ⟨x, rfl⟩
  · obtain ⟨ht, hmem⟩ := word_ok hw
    obtain ⟨c, hc, -⟩ := List.any_eq_true.mp (word_scalar hmem).2
    rw [ht]
    exact List.ne_nil_of_mem hc
  · intro h
    have hempty : n.repr = "" := String.toList_inj.mp h
    rw [Int.repr_eq_if] at hempty
    split at hempty
    · exact Nat.repr_ne_empty hempty
    · have hlen := congrArg String.length hempty
      rw [String.length_append] at hlen
      exact absurd hlen (by simp)
  · rcases hX.float x with h | h <;> exact List.ne_nil_of_mem h

theorem text_cons (hX : X.FloatRepr) (j : Json) :
    ∃ c s, text X st j = c :: s ∧ charKind c = j.kind ∧ c ≠ ']' := by
  have hscalar : ∀ {j : Json}, j.isScalar → j.kind = .scalar →
      ∃ c s, text X st j = c :: s ∧ charKind c = j.kind ∧ c ≠ ']' := by
    intro j hj hk
    cases ht : text X st j with
    | nil => exact absurd ht (scalar_ne_nil hX hj)
    | cons c s =>
      have hc := scalar_chars hX hj c (by rw [ht]; exact List.mem_cons_self)
      rw [hk]
      exact ⟨c, s, rfl, charKind_scalar hc⟩
  cases j with
  | str s => exact ⟨'"', _, rfl, rfl, by decide⟩
  | arr items => exact ⟨'[', _, rfl, rfl, by decide⟩
  | obj fields => exact ⟨'{', _, rfl, rfl, by decide⟩
  | null => exact hscalar rfl rfl
  | bool b => exact hscalar rfl rfl
  | int n => exact hscalar rfl rfl
  | float x => exact hscalar rfl rfl

theorem kind_eq (hX : X.FloatRepr) {j j' : Json} {s t : List Char}
    (h : text X st j ++ s = text X st j' ++ t) :
    j.kind = j'.kind := by
  obtain ⟨c, u, hj, hk, -⟩ := text_cons hX j
  obtain ⟨c', u', hj', hk', -⟩ := text_cons hX j'
  rw [hj, hj', List.cons_append, List.cons_append] at h
  rw [← hk, ← hk', (List.cons.inj h).1]

theorem ends_itemsTail (js : List Json) (s : List Char) : Ends (itemsTail X st js ++ s) := by
  intro c hc
  cases js <;> cases hc <;> rfl

theorem ends_fieldsTail (fs : List (String × Json)) (s : List Char) :
    Ends (fieldsTail X st fs ++ s) := by
  intro c hc
  cases fs with
  | nil => cases hc; rfl
  | cons f fs => cases hc; rfl

mutual

/-- A document's text says which document it is and where it ends. -/
theorem text_unique (hX : X.FloatRepr) (j j' : Json) (s t : List Char) (hs : Ends s) (ht : Ends t)
    (h : text X st j ++ s = text X st j' ++ t) : j = j' ∧ s = t := by
  have hk := kind_eq hX h
  match j, j' with
  | .str k, .str k' =>
    obtain ⟨rfl, hst⟩ := strText_unique h
    exact ⟨rfl, hst⟩
  | .arr items, .arr items' =>
    obtain ⟨rfl, hst⟩ := itemsText_unique hX items items' s t (List.cons.inj h).2
    exact ⟨rfl, hst⟩
  | .obj fields, .obj fields' =>
    obtain ⟨rfl, hst⟩ := fieldsText_unique hX fields fields' s t (List.cons.inj h).2
    exact ⟨rfl, hst⟩
  | .null, j' | .bool _, j' | .int _, j' | .float _, j' =>
    have hj' : j'.isScalar := by cases j' <;> first | rfl | cases hk
    exact scalar_unique hX rfl hj' hs ht h

theorem itemsText_unique (hX : X.FloatRepr) (js js' : List Json) (s t : List Char)
    (h : itemsText X st js ++ s = itemsText X st js' ++ t) : js = js' ∧ s = t := by
  match js, js' with
  | [], [] => exact ⟨rfl, (List.cons.inj h).2⟩
  | [], j' :: js' =>
    obtain ⟨c, u, hj, -, hne⟩ := text_cons hX j'
    rw [itemsText, itemsText, hj] at h
    exact absurd (List.cons.inj h).1.symm hne
  | j :: js, [] =>
    obtain ⟨c, u, hj, -, hne⟩ := text_cons hX j
    rw [itemsText, itemsText, hj] at h
    exact absurd (List.cons.inj h).1 hne
  | j :: js, j' :: js' =>
    rw [itemsText, itemsText, List.append_assoc, List.append_assoc] at h
    obtain ⟨rfl, hrest⟩ := text_unique hX j j' _ _ (ends_itemsTail js s) (ends_itemsTail js' t) h
    obtain ⟨rfl, hst⟩ := itemsTail_unique hX js js' s t hrest
    exact ⟨rfl, hst⟩

theorem itemsTail_unique (hX : X.FloatRepr) (js js' : List Json) (s t : List Char)
    (h : itemsTail X st js ++ s = itemsTail X st js' ++ t) : js = js' ∧ s = t := by
  match js, js' with
  | [], [] => exact ⟨rfl, (List.cons.inj h).2⟩
  | [], j' :: js' => exact absurd (List.cons.inj h).1 (by decide)
  | j :: js, [] => exact absurd (List.cons.inj h).1 (by decide)
  | j :: js, j' :: js' =>
    have h := (List.cons.inj h).2
    simp only [List.append_eq, List.append_assoc, List.append_cancel_left_eq] at h
    obtain ⟨rfl, hrest⟩ := text_unique hX j j' _ _ (ends_itemsTail js s) (ends_itemsTail js' t) h
    obtain ⟨rfl, hst⟩ := itemsTail_unique hX js js' s t hrest
    exact ⟨rfl, hst⟩

theorem fieldsText_unique (hX : X.FloatRepr) (fs fs' : List (String × Json)) (s t : List Char)
    (h : fieldsText X st fs ++ s = fieldsText X st fs' ++ t) : fs = fs' ∧ s = t := by
  match fs, fs' with
  | [], [] => exact ⟨rfl, (List.cons.inj h).2⟩
  | [], (k', j') :: fs' => exact absurd (List.cons.inj h).1 (by decide)
  | (k, j) :: fs, [] => exact absurd (List.cons.inj h).1 (by decide)
  | (k, j) :: fs, (k', j') :: fs' =>
    rw [fieldsText, fieldsText, List.append_assoc, List.append_assoc] at h
    obtain ⟨rfl, hrest⟩ := strText_unique h
    have hrest := (List.cons.inj hrest).2
    simp only [List.append_eq, List.append_assoc, List.append_cancel_left_eq] at hrest
    obtain ⟨rfl, htail⟩ :=
      text_unique hX j j' _ _ (ends_fieldsTail fs s) (ends_fieldsTail fs' t) hrest
    obtain ⟨rfl, hst⟩ := fieldsTail_unique hX fs fs' s t htail
    exact ⟨rfl, hst⟩

theorem fieldsTail_unique (hX : X.FloatRepr) (fs fs' : List (String × Json)) (s t : List Char)
    (h : fieldsTail X st fs ++ s = fieldsTail X st fs' ++ t) : fs = fs' ∧ s = t := by
  match fs, fs' with
  | [], [] => exact ⟨rfl, (List.cons.inj h).2⟩
  | [], (k', j') :: fs' => exact absurd (List.cons.inj h).1 (by decide)
  | (k, j) :: fs, [] => exact absurd (List.cons.inj h).1 (by decide)
  | (k, j) :: fs, (k', j') :: fs' =>
    have h := (List.cons.inj h).2
    simp only [List.append_eq, List.append_assoc, List.append_cancel_left_eq] at h
    obtain ⟨rfl, hrest⟩ := strText_unique h
    have hrest := (List.cons.inj hrest).2
    simp only [List.append_eq, List.append_assoc, List.append_cancel_left_eq] at hrest
    obtain ⟨rfl, htail⟩ :=
      text_unique hX j j' _ _ (ends_fieldsTail fs s) (ends_fieldsTail fs' t) hrest
    obtain ⟨rfl, hst⟩ := fieldsTail_unique hX fs fs' s t htail
    exact ⟨rfl, hst⟩

end

/-- What `dumps` writes, followed by what ends it. -/
theorem dumps_unique (hX : X.FloatRepr) {j j' : Json} {s t : List Char} (hs : Ends s) (ht : Ends t)
    (h : (dumps X st j).toList ++ s = (dumps X st j').toList ++ t) :
    j.sortKeys = j'.sortKeys ∧ s = t := by
  rw [dumps, dumps, String.toList_ofList, String.toList_ofList] at h
  exact text_unique hX _ _ _ _ hs ht h

end Json

/-! ## Texts of floats -/

/-- A float as the text of its numerator and denominator; `1.0`, `-3.0` and so on where it is a
whole number. -/
def fractionStr (x : PyFloat) : String :=
  match x with
  | .finite x => toString x.num ++ "." ++ (if x.den = 1 then "0" else toString x.den)
  | .nan => "nan"
  | .inf => "inf"
  | .negInf => "-inf"

/-- `fieldwise` with texts of floats that can be told apart. -/
def fractional : Externals := { fieldwise with floatStr := fractionStr }

theorem fractional_lawful : fractional.Lawful where
  validate_dump := fieldwise_lawful.validate_dump
  validate_modelDump := fieldwise_lawful.validate_modelDump
  validateJson_dump := fieldwise_lawful.validateJson_dump
  validate_id := fieldwise_lawful.validate_id
  dump_obj := fieldwise_lawful.dump_obj
  dump_op := fieldwise_lawful.dump_op
  uuid_text := fieldwise_lawful.uuid_text

theorem toList_fractionStr (x : ℚ) : (fractionStr (.finite x)).toList =
    (toString x.num).toList ++ '.' :: (if x.den = 1 then "0" else toString x.den).toList := by
  rw [fractionStr, String.toList_append, String.toList_append, List.append_assoc]
  rfl

theorem fractional_floatRepr : fractional.FloatRepr where
  inj x y h := by
    have h : (fractionStr (.finite x)).toList = (fractionStr (.finite y)).toList :=
      congrArg String.toList h
    rw [toList_fractionStr, toList_fractionStr] at h
    have hpoint : ∀ n : Int, ∀ c ∈ (toString n).toList, decide (c ≠ '.') = true := by
      intro n c hc
      rcases Json.int_chars n c hc with h | rfl
      · refine decide_eq_true fun he => ?_
        rw [he] at h
        exact absurd h (by decide)
      · decide
    obtain ⟨hnum, hden⟩ := Framework.takeWhile_unique (hpoint x.num) (hpoint y.num)
      (fun c hc => by cases hc; rfl) (fun c hc => by cases hc; rfl) h
    have hnum : x.num = y.num := Int.repr_injective (String.toList_inj.mp hnum)
    have hden : (if x.den = 1 then "0" else toString x.den) = if y.den = 1 then "0"
        else toString y.den :=
      String.toList_inj.mp (List.cons.inj hden).2
    have hzero : ∀ n : Nat, "0" = toString n → n = 0 :=
      fun n h => (Nat.repr_injective (m := 0) h).symm
    refine Rat.ext hnum ?_
    by_cases hx : x.den = 1
    · by_cases hy : y.den = 1
      · rw [hx, hy]
      · rw [if_pos hx, if_neg hy] at hden
        exact absurd (hzero _ hden) y.den_nz
    · by_cases hy : y.den = 1
      · rw [if_neg hx, if_pos hy] at hden
        exact absurd (hzero _ hden.symm) x.den_nz
      · rw [if_neg hx, if_neg hy] at hden
        exact Nat.repr_injective hden
  chars x c hc := by
    have hc : c ∈ (fractionStr (.finite x)).toList := hc
    rw [toList_fractionStr, List.mem_append, List.mem_cons] at hc
    rcases hc with hc | rfl | hc
    · rcases Json.int_chars _ c hc with h | rfl
      · exact .inl h
      · exact .inr (.inr (.inr (.inr rfl)))
    · exact .inr (.inl rfl)
    · split at hc
      · rw [List.mem_singleton.mp hc]; exact .inl rfl
      · exact .inl (Json.nat_chars _ c hc)
  float x := by
    refine .inl ?_
    show '.' ∈ (fractionStr (.finite x)).toList
    rw [toList_fractionStr]
    exact List.mem_append_right _ List.mem_cons_self

end Vsector.Models
