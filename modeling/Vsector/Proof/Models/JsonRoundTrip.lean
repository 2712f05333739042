import Vsector.Proof.Models.JsonLoads

/-!
# What is printed is read back, and no part of it is

`json.loads` inverts `json.dumps(…, indent=2)` (`loads_pretty`), and refuses
the text of an object that is cut short (`loads_cut`).
-/

namespace Vsector.Models

namespace Json

open Framework

variable {X : Externals}

/-! ## Strings -/

theorem hexValue?_hexDigit (n : Nat) : hexValue? (hexDigit n) = some (n % 16) := by
  have hn := Nat.mod_lt n (show 16 > 0 by decide)
  rw [hexDigit]
  generalize n % 16 = d at *
  interval_cases d <;> rfl

theorem scanHex_hexDigit {n : Nat} (h : n < 65536) (s : List Char) :
    scanHex (hexDigit (n / 4096) :: hexDigit (n / 256) :: hexDigit (n / 16) :: hexDigit n :: s) =
      some (n, s) := by
  have hn : n / 4096 % 16 * 4096 + n / 256 % 16 * 256 + n / 16 % 16 * 16 + n % 16 = n := by omega
  simp only [scanHex, hexValue?_hexDigit, hn]

/-- A character below `\\uffff`. -/
theorem scanUnicode_escape {c : Char} (h : c.toNat < 65536) (s : List Char) :
    scanChar (unicodeEscape c.toNat ++ s) = some (c, s) := by
  have hscan : scanChar (unicodeEscape c.toNat ++ s) =
      scanUnicode (hexDigit (c.toNat / 4096) :: hexDigit (c.toNat / 256) ::
      hexDigit (c.toNat / 16) :: hexDigit c.toNat :: s) := rfl
  rw [hscan, scanUnicode, scanHex_hexDigit h]
  dsimp only
  rw [if_pos (not_surrogate c), Char.ofNat_toNat]

/-- A surrogate pair. -/
theorem scanUnicode_pair {n m : Nat} (hn : 55296 ≤ n) (hn' : n < 56320) (hm : 56320 ≤ m)
    (hm' : m ≤ 57343) (s : List Char) :
    scanChar (unicodeEscape n ++ (unicodeEscape m ++ s)) =
      some (Char.ofNat (65536 + (n - 55296) * 1024 + (m - 56320)), s) := by
  have hscan : scanChar (unicodeEscape n ++ (unicodeEscape m ++ s)) =
      scanUnicode (hexDigit (n / 4096) :: hexDigit (n / 256) ::
      hexDigit (n / 16) :: hexDigit n :: '\\' :: 'u' :: hexDigit (m / 4096) :: hexDigit (m / 256) ::
      hexDigit (m / 16) :: hexDigit m :: s) := rfl
  have hsur : ¬ (n < 55296 ∨ 57343 < n) := by omega
  have hlow : m < 65536 := by omega
  rw [hscan, scanUnicode, scanHex_hexDigit (by omega)]
  dsimp only
  rw [if_neg hsur]
  simp only [scanHex_hexDigit hlow]
  rw [if_pos ⟨hn', hm, hm'⟩]

theorem scanChar_escapeChar (st : Style) (c : Char) (s : List Char) :
    scanChar (escapeChar st c ++ s) = some (c, s) := by
  rw [escapeChar]
  split_ifs with hq hb hn hr ht hf hbs hp hu
  · subst hq; rfl
  · subst hb; rfl
  · subst hn; rfl
  · subst hr; rfl
  · subst ht; rfl
  · rw [show c = Char.ofNat 12 by rw [← hf, Char.ofNat_toNat]]; rfl
  · rw [show c = Char.ofNat 8 by rw [← hbs, Char.ofNat_toNat]]; rfl
  · rw [List.cons_append, List.nil_append]
    unfold scanChar
    dsimp only
    rw [if_neg hb, if_neg (by omega)]
  · exact scanUnicode_escape hu s
  · have hlt := toNat_lt c
    have hnat : 65536 + (55296 + (c.toNat - 65536) / 1024 - 55296) * 1024 +
        (56320 + (c.toNat - 65536) % 1024 - 56320) = c.toNat := by omega
    rw [List.append_assoc, scanUnicode_pair (by omega) (by omega) (by omega) (by omega),
      hnat, Char.ofNat_toNat]

theorem scanString_escape (k s : List Char) {n : Nat} (h : k.length < n) :
    scanString n (k.flatMap (escapeChar .default) ++ '"' :: s) = some (k, s) := by
  induction k generalizing n with
  | nil =>
    obtain ⟨n, rfl⟩ : ∃ m, n = m + 1 := ⟨n - 1, by simp only [List.length_nil] at h; omega⟩
    rfl
  | cons c k ih =>
    rw [List.length_cons] at h
    obtain ⟨n, rfl⟩ : ∃ m, n = m + 1 := ⟨n - 1, by omega⟩
    rw [List.flatMap_cons, List.append_assoc]
    have hscan := scanChar_escapeChar .default c (k.flatMap (escapeChar .default) ++ '"' :: s)
    have hquote : ∀ t, escapeChar .default c ++
        (k.flatMap (escapeChar .default) ++ '"' :: s) ≠ '"' :: t :=
      escapeChar_ne_quote c (k.flatMap (escapeChar .default) ++ '"' :: s)
    generalize hw : escapeChar .default c ++ (k.flatMap (escapeChar .default) ++ '"' :: s) =
      w at hscan hquote
    rcases w with _ | ⟨d, w⟩
    · cases hscan
    · rw [scanString, if_neg fun hd => hquote w (by rw [hd]), hscan]
      dsimp only
      rw [ih (by omega)]
      rfl

theorem length_strText (k : String) : k.toList.length + 2 ≤ (strText .default k).length := by
  have hchar : ∀ c, 1 ≤ (escapeChar .default c).length := by
    intro c
    have hne := scanChar_escapeChar .default c []
    rcases hc : escapeChar .default c with _ | ⟨d, w⟩
    · rw [hc] at hne
      cases hne
    · exact Nat.succ_le_of_lt (Nat.succ_pos _)
  have hflat : ∀ k : List Char, k.length ≤ (k.flatMap (escapeChar .default)).length := by
    intro k
    induction k with
    | nil => exact Nat.zero_le _
    | cons c k ih =>
      rw [List.flatMap_cons, List.length_append, List.length_cons]
      have := hchar c
      omega
  have := hflat k.toList
  rw [strText, List.length_cons, List.length_append, List.length_singleton]
  omega

/-! ## Numbers and words -/

theorem readNat_toDigits (n : Nat) : readNat (Nat.toDigits 10 n) = some n := by
  rw [readNat, Nat.ofDigitChars_ten_toDigits, if_pos rfl]

theorem readInt_toDigits (n : Nat) : readInt (Nat.toDigits 10 n) = some (n : Int) := by
  unfold readInt
  split
  · rename_i ds h
    have hsign : '-' ∈ Nat.toDigits 10 n := by
      rw [h]
      exact List.mem_cons_self
    exact absurd (Nat.isDigit_of_mem_toDigits (by decide) (by decide) hsign) (by decide)
  · rw [readNat_toDigits]
    rfl

theorem readInt_text (n : Int) : readInt (toString n).toList = some n := by
  rw [show toString n = n.repr from rfl, Int.repr_eq_if]
  split
  · rename_i hn
    rw [Nat.toList_repr, readInt_toDigits, Int.toNat_of_nonneg hn]
  · rename_i hn
    have hval : -((-n).toNat : Int) = n := by omega
    rw [String.toList_append, Nat.toList_repr, show "-".toList = ['-'] from rfl, List.cons_append,
      List.nil_append, readInt, readNat_toDigits, Option.map_some, hval]

theorem readToken_word {j : Json} {w : String} (h : word j = some w) :
    readToken X w.toList = some j := by
  unfold word at h
  split at h <;> cases h <;> rfl

theorem readToken_number {token : List Char}
    (h : ∀ w ∈ ["null", "true", "false", "NaN", "Infinity", "-Infinity"], token ≠ w.toList) :
    readToken X token =
      match readInt token with
      | some n => some (int n)
      | none =>
        if isFloatText token then (X.floatOf (.str (String.ofList token))).toOption.map float
          else none := by
  rewrite [readToken, if_neg (h "null" (by decide)), if_neg (h "true" (by decide)),
    if_neg (h "false" (by decide)), if_neg (h "NaN" (by decide)), if_neg (h "Infinity" (by decide)),
    if_neg (h "-Infinity" (by decide))]
  rfl

/-- Numbers and words are read back, and are tokens. -/
theorem readToken_text (hX : X.FloatReads) {j : Json} (hj : j.isScalar) :
    readToken X (text X .default j) = some j ∧
    (∀ c ∈ text X .default j, isTokenChar c = true) ∧ text X .default j ≠ [] := by
  rcases scalar_cases hj with ⟨w, hw⟩ | ⟨n, rfl⟩ | ⟨x, rfl⟩
  · obtain ⟨ht, hmem⟩ : text X .default j = w.toList ∧
        w ∈ ["null", "true", "false", "NaN", "Infinity", "-Infinity"] := word_ok hw
    obtain ⟨hchars, hany⟩ := word_scalar hmem
    obtain ⟨c, hc, -⟩ := List.any_eq_true.mp hany
    rw [ht]
    exact ⟨readToken_word hw, List.all_eq_true.mp hchars, List.ne_nil_of_mem hc⟩
  · have hread : readInt (text X .default (int n)) = some n := readInt_text n
    have hnumber : ∀ c ∈ text X .default (int n), isNumberChar c = true := by
      intro c hc
      rcases int_chars n c hc with h | rfl
      · simp [isNumberChar, h]
      · rfl
    refine ⟨?_, fun c hc => isScalarChar_of_isNumberChar (hnumber c hc), ?_⟩
    · rw [readToken_number, hread]
      intro w hw he
      obtain ⟨c, hc, hnot⟩ := List.any_eq_true.mp (word_scalar hw).2
      rw [← he] at hc
      rw [hnumber c hc] at hnot
      cases hnot
    · intro hnil
      rw [hnil] at hread
      cases hread
  · have htext : text X .default (float (.finite x)) = (X.floatStr (.finite x)).toList := rfl
    rw [htext]
    refine ⟨?_, hX.chars x, ?_⟩
    · rw [readToken_number, hX.notInt x, if_pos (hX.text x), String.ofList_toList, hX.reads x]
      · rfl
      · intro w hw he
        have hfloat := hX.text x
        rw [he] at hfloat
        revert hw hfloat
        simp only [List.mem_cons, List.not_mem_nil, or_false]
        rintro (rfl | rfl | rfl | rfl | rfl | rfl) hfloat <;> cases hfloat
    · intro hnil
      have hfloat := hX.text x
      rw [hnil] at hfloat
      cases hfloat

/-! ## Between the tokens -/

theorem skipBlanks_cons {c : Char} (h : isBlank c = false) (s : List Char) :
    skipBlanks (c :: s) = c :: s := by
  rw [skipBlanks, List.dropWhile_cons, h]
  rfl

theorem skipBlanks_newline (depth : Nat) (s : List Char) :
    skipBlanks (newline depth ++ s) = skipBlanks s := by
  have hall : ∀ c ∈ newline depth, isBlank c = true := by
    intro c hc
    rcases List.mem_cons.mp hc with rfl | hc
    · rfl
    · rw [List.eq_of_mem_replicate hc]
      rfl
  rw [skipBlanks, List.dropWhile_append_of_pos hall]
  rfl

theorem expect_newline {c : Char} (h : isBlank c = false) (depth : Nat) (s : List Char) :
    expect c (newline depth ++ c :: s) = some s := by
  rw [expect, skipBlanks_newline, skipBlanks_cons h]
  exact if_pos rfl

theorem expect_other {c d : Char} (h : isBlank d = false) (hd : d ≠ c) (s : List Char) :
    expect c (d :: s) = none := by
  rw [expect, skipBlanks_cons h]
  exact if_neg hd

theorem scanItems_last {n : Nat} {s t : List Char} {j : Json} {depth : Nat}
    (hv : scanValue X n s = some (j, newline depth ++ ']' :: t)) :
    scanItems X (n + 1) s = some ([j], t) := by
  rw [scanItems, hv]
  dsimp only
  rw [expect_newline rfl]

theorem scanItems_next {n : Nat} {s t u : List Char} {j : Json} {js : List Json} {depth : Nat}
    (hv : scanValue X n s = some (j, ',' :: (newline depth ++ u))) (hu : skipBlanks u = u)
    (hi : scanItems X n u = some (js, t)) : scanItems X (n + 1) s = some (j :: js, t) := by
  rw [scanItems, hv]
  dsimp only
  rw [expect_other rfl (by decide),
    show expect ',' (',' :: (newline depth ++ u)) = some (newline depth ++ u) from rfl]
  dsimp only
  rw [skipBlanks_newline, hu, hi]
  rfl

theorem scanFields_cons {n : Nat} {k : String} {s t : List Char} {j : Json}
    (hk : k.toList.length < n) (hs : skipBlanks s = s) (hv : scanValue X n s = some (j, t)) :
    scanFields X (n + 1) (strText .default k ++ ':' :: ' ' :: s) =
      match expect '}' t, expect ',' t with
      | some t, _ => some ([(k, j)], t)
      | none, some t => (scanFields X n (skipBlanks t)).map fun p => ((k, j) :: p.1, p.2)
      | none, none => none := by
  rw [strText, List.cons_append, List.append_assoc, List.singleton_append, scanFields, if_pos rfl,
    scanString_escape _ _ hk]
  dsimp only
  rw [show expect ':' (':' :: ' ' :: s) = some (' ' :: s) from rfl]
  dsimp only
  rewrite [show skipBlanks (' ' :: s) = skipBlanks s from rfl, hs, hv, String.ofList_toList]
  rfl

theorem scanFields_last {n : Nat} {k : String} {s t : List Char} {j : Json} {depth : Nat}
    (hk : k.toList.length < n) (hs : skipBlanks s = s)
    (hv : scanValue X n s = some (j, newline depth ++ '}' :: t)) :
    scanFields X (n + 1) (strText .default k ++ ':' :: ' ' :: s) = some ([(k, j)], t) := by
  rw [scanFields_cons hk hs hv, expect_newline rfl]

theorem scanFields_next {n : Nat} {k : String} {s t u : List Char} {j : Json}
    {fs : List (String × Json)} {depth : Nat} (hk : k.toList.length < n) (hs : skipBlanks s = s)
    (hv : scanValue X n s = some (j, ',' :: (newline depth ++ u))) (hu : skipBlanks u = u)
    (hf : scanFields X n u = some (fs, t)) :
    scanFields X (n + 1) (strText .default k ++ ':' :: ' ' :: s) = some ((k, j) :: fs, t) := by
  rw [scanFields_cons hk hs hv, expect_other rfl (by decide),
    show expect ',' (',' :: (newline depth ++ u)) = some (newline depth ++ u) from rfl]
  dsimp only
  rw [skipBlanks_newline, hu, hf]
  rfl

/-! ## Documents -/

mutual

/-- The keys of every object are distinct. -/
def KeysNodup : Json → Prop
  | arr items => ItemsNodup items
  | obj fields => (fields.map Prod.fst).Nodup ∧ FieldsNodup fields
  | _ => True

def ItemsNodup : List Json → Prop
  | [] => True
  | j :: js => j.KeysNodup ∧ ItemsNodup js

def FieldsNodup : List (String × Json) → Prop
  | [] => True
  | (_, j) :: fs => j.KeysNodup ∧ FieldsNodup fs

end

theorem dictOf_eq_self {pairs : List (String × Json)} (h : (pairs.map Prod.fst).Nodup) :
    dictOf pairs = pairs :=
  Dict.entries_foldl_set (d := ∅) h

theorem pretty_scalar {j : Json} (hj : j.isScalar) (depth : Nat) :
    pretty X depth j = text X .default j := by
  cases j <;> first | rfl | cases hj

/-- No text begins with a blank or a byte order mark, or ends an array. -/
theorem pretty_cons (hX : X.FloatReads) (depth : Nat) (j : Json) :
    ∃ c s, pretty X depth j = c :: s ∧ isBlank c = false ∧ c ≠ ']' ∧ c ≠ Char.ofNat 65279 := by
  have hscalar : ∀ {j : Json}, j.isScalar →
      ∃ c s, pretty X depth j = c :: s ∧ isBlank c = false ∧ c ≠ ']' ∧ c ≠ Char.ofNat 65279 := by
    intro j hj
    obtain ⟨-, hchars, hne⟩ := readToken_text hX hj
    obtain ⟨c, s, hcs⟩ := List.exists_cons_of_ne_nil hne
    have hc : isTokenChar c = true := hchars c (by rw [hcs]; exact List.mem_cons_self)
    have hother : ∀ d : Char, isTokenChar d = false → c ≠ d := fun d hd he => by
      rw [he, hd] at hc; cases hc
    refine ⟨c, s, (pretty_scalar hj depth).trans hcs, ?_, hother ']' rfl, hother _ (by decide)⟩
    rw [Bool.eq_false_iff]
    intro hblank
    simp only [isBlank, Bool.or_eq_true, beq_iff_eq] at hblank
    rcases hblank with ((rfl | rfl) | rfl) | rfl <;> cases hc
  cases j with
  | str s => exact ⟨'"', _, rfl, rfl, by decide, by decide⟩
  | arr items => cases items <;> exact ⟨'[', _, rfl, rfl, by decide, by decide⟩
  | obj fields => cases fields <;> exact ⟨'{', _, rfl, rfl, by decide, by decide⟩
  | null => exact hscalar rfl
  | bool b => exact hscalar rfl
  | int n => exact hscalar rfl
  | float x => exact hscalar rfl

theorem skipBlanks_pretty (hX : X.FloatReads) (depth : Nat) (j : Json) (s : List Char) :
    skipBlanks (pretty X depth j ++ s) = pretty X depth j ++ s := by
  obtain ⟨c, t, hct, hblank, -⟩ := pretty_cons hX depth j
  rw [hct, List.cons_append, skipBlanks_cons hblank]

theorem ends_newline (depth : Nat) (s : List Char) : Ends (newline depth ++ s) := by
  intro c hc
  cases hc
  rfl

theorem ends_comma (s : List Char) : Ends (',' :: s) := by
  intro c hc
  cases hc
  rfl

theorem scanToken_text (hX : X.FloatReads) {j : Json} (hj : j.isScalar) {s : List Char}
    (hs : Ends s) (n : Nat) :
    scanValue X (n + 1) (text X .default j ++ s) = some (j, s) := by
  obtain ⟨hread, hchars, hne⟩ := readToken_text hX hj
  obtain ⟨c, t, hct⟩ := List.exists_cons_of_ne_nil hne
  have hc : isTokenChar c = true := hchars c (by rw [hct]; exact List.mem_cons_self)
  have hother : ∀ d : Char, isTokenChar d = false → c ≠ d := fun d hd he => by
    rw [he, hd] at hc; cases hc
  have htake : s.takeWhile isTokenChar = [] ∧ s.dropWhile isTokenChar = s := by
    rcases s with _ | ⟨d, s⟩
    · exact ⟨rfl, rfl⟩
    · have hd : isTokenChar d = false := hs d rfl
      rw [List.takeWhile_cons, List.dropWhile_cons, hd]
      exact ⟨rfl, rfl⟩
  have hscan : scanToken X (text X .default j ++ s) = some (j, s) := by
    rw [scanToken, List.takeWhile_append_of_pos hchars, List.dropWhile_append_of_pos hchars,
      htake.1, htake.2, List.append_nil, hread]
    rfl
  rw [hct, List.cons_append] at hscan ⊢
  rw [scanValue, if_neg (hother '"' rfl), if_neg (hother '[' rfl), if_neg (hother '{' rfl)]
  exact hscan

/-- A printed document is read back, given fuel for its text: `n` is what is left of it. -/
theorem scan_pretty (hX : X.FloatReads) (n : Nat) :
    (∀ (j : Json) (depth : Nat) (s : List Char), j.KeysNodup → Ends s →
      (pretty X depth j).length ≤ n →
      scanValue X n (pretty X depth j ++ s) = some (j, s)) ∧
    (∀ (j : Json) (js : List Json) (depth close : Nat) (s : List Char), j.KeysNodup →
      ItemsNodup js →
      (pretty X depth j).length + (prettyItems X depth js).length < n →
      scanItems X n (pretty X depth j ++ (prettyItems X depth js ++ (newline close ++ ']' :: s))) =
        some (j :: js, s)) ∧
    ∀ (k : String) (j : Json) (fs : List (String × Json)) (depth close : Nat) (s : List Char),
      j.KeysNodup → FieldsNodup fs →
      (strText .default k).length + (pretty X depth j).length +
        (prettyFields X depth fs).length < n →
      scanFields X n (strText .default k ++ ':' :: ' ' ::
        (pretty X depth j ++ (prettyFields X depth fs ++
        (newline close ++ '}' :: s)))) = some ((k, j) :: fs, s) := by
  induction n with
  | zero =>
    refine ⟨fun j depth s _ _ hn => ?_, fun _ _ _ _ _ _ _ hn => absurd hn (Nat.not_lt_zero _),
      fun _ _ _ _ _ _ _ _ hn => absurd hn (Nat.not_lt_zero _)⟩
    obtain ⟨c, t, hct, -⟩ := pretty_cons hX depth j
    rw [hct] at hn
    exact absurd hn (Nat.not_succ_le_zero _)
  | succ n ih =>
    obtain ⟨ihv, ihi, ihf⟩ := ih
    refine ⟨fun j depth s hj hs hn => ?_, fun j js depth close s hj hjs hn => ?_,
      fun k j fs depth close s hj hfs hn => ?_⟩
    · have hscalar : j.isScalar = true →
          scanValue X (n + 1) (pretty X depth j ++ s) = some (j, s) := by
        intro hj
        rw [pretty_scalar hj]
        exact scanToken_text hX hj hs n
      cases j with
      | null => exact hscalar rfl
      | bool b => exact hscalar rfl
      | int i => exact hscalar rfl
      | float x => exact hscalar rfl
      | str k =>
        have hlen : (strText .default k).length ≤ n + 1 := hn
        have hk := length_strText k
        have hscan := scanString_escape k.toList s (n := n) (by omega)
        change scanValue X (n + 1) (strText .default k ++ s) = _
        rw [strText, List.cons_append, List.append_assoc, List.singleton_append, scanValue,
          if_pos rfl, hscan]
        exact congrArg (fun k => some (str k, s)) String.ofList_toList
      | arr items =>
        rcases items with _ | ⟨j, js⟩
        · rfl
        · simp only [pretty, List.length_cons, List.length_append] at hn
          have hitems := ihi j js (depth + 1) depth s hj.1 hj.2 (by omega)
          obtain ⟨c, t, hct, -, hne, -⟩ := pretty_cons hX (depth + 1) j
          simp only [pretty, List.cons_append, List.append_assoc, List.nil_append]
          rw [scanValue, if_neg (by decide), if_pos rfl]
          have hexpect : expect ']' (newline (depth + 1) ++
              (pretty X (depth + 1) j ++ (prettyItems X (depth + 1) js ++
              (newline depth ++ ']' :: s)))) = none := by
            rw [expect, skipBlanks_newline, skipBlanks_pretty hX, hct]
            exact if_neg hne
          rw [hexpect]
          dsimp only
          rw [skipBlanks_newline, skipBlanks_pretty hX, hitems]
          rfl
      | obj fields =>
        rcases fields with _ | ⟨⟨k, j⟩, fs⟩
        · rfl
        · simp only [pretty, List.length_cons, List.length_append] at hn
          have hfields := ihf k j fs (depth + 1) depth s hj.2.1 hj.2.2 (by omega)
          simp only [pretty, List.cons_append, List.append_assoc, List.nil_append]
          rw [scanValue, if_neg (by decide), if_neg (by decide), if_pos rfl]
          have hexpect : expect '}' (newline (depth + 1) ++
              (strText .default k ++ ':' :: ' ' :: (pretty X (depth + 1) j ++
              (prettyFields X (depth + 1) fs ++ (newline depth ++ '}' :: s))))) = none := by
            rw [expect, skipBlanks_newline]
            rfl
          rw [hexpect]
          dsimp only
          rw [skipBlanks_newline, show skipBlanks (strText .default k ++ _) = strText .default k ++
            _ from rfl, hfields, Option.map_some, dictOf_eq_self hj.1]
    · rcases js with _ | ⟨j', js⟩
      · exact scanItems_last (ihv j depth _ hj (ends_newline _ _) (by omega))
      · simp only [prettyItems, List.length_cons, List.length_append] at hn
        have hrest := ihi j' js depth close s hjs.1 hjs.2 (by omega)
        have hv := ihv j depth _ hj
          (ends_comma (newline depth ++ (pretty X depth j' ++ (prettyItems X depth js ++
          (newline close ++ ']' :: s))))) (by omega)
        simp only [prettyItems, List.cons_append, List.append_assoc]
        exact scanItems_next hv (skipBlanks_pretty hX _ _ _) hrest
    · have hk := length_strText k
      rcases fs with _ | ⟨⟨k', j'⟩, fs⟩
      · exact scanFields_last (by omega) (skipBlanks_pretty hX _ _ _)
          (ihv j depth _ hj (ends_newline _ _) (by omega))
      · simp only [prettyFields, List.length_cons, List.length_append] at hn
        have hrest := ihf k' j' fs depth close s hfs.1 hfs.2 (by omega)
        have hv := ihv j depth _ hj
          (ends_comma (newline depth ++ (strText .default k' ++ ':' :: ' ' ::
          (pretty X depth j' ++ (prettyFields X depth fs ++ (newline close ++ '}' :: s))))))
            (by omega)
        simp only [prettyFields, List.cons_append, List.append_assoc]
        exact scanFields_next (by omega) (skipBlanks_pretty hX _ _ _) hv rfl hrest

/-- `json.loads(json.dumps(value, indent=2)) == value`. -/
theorem loads_pretty (hX : X.FloatReads) {j : Json} (hj : j.KeysNodup) :
    loads X (pretty X 0 j) = some j := by
  obtain ⟨c, t, hct, -, -, hmark⟩ := pretty_cons hX 0 j
  have hscan := (scan_pretty hX ((pretty X 0 j).length + 1)).1 j 0 [] hj
    (fun c hc => by cases hc) (Nat.le_succ _)
  have hskip := skipBlanks_pretty hX 0 j []
  rw [List.append_nil] at hscan hskip
  rw [loads, hskip, hscan, if_neg]
  · rfl
  · rw [hct, List.head?_cons]
    exact fun he => hmark (Option.some.inj he)

theorem scanValue_brace {n : Nat} {s r : List Char} {j : Json}
    (h : scanValue X n ('{' :: s) = some (j, r)) :
    j.isScalar = false := by
  rcases n with _ | n
  · cases h
  · rw [scanValue, if_neg (by decide), if_neg (by decide), if_pos rfl] at h
    split at h
    · cases h
      rfl
    · obtain ⟨p, -, heq⟩ := Option.map_eq_some_iff.mp h
      cases heq
      rfl

/-- The text of an object cut short is no JSON text. -/
theorem loads_cut (hX : X.FloatReads) {fields : List (String × Json)} (hj : (obj fields).KeysNodup)
    {s u : List Char} (h : s ++ u = pretty X 0 (obj fields)) (hu : u ≠ []) : loads X s = none := by
  rcases s with _ | ⟨c, s⟩
  · rfl
  · have hc : c = '{' := by
      rcases fields with _ | ⟨f, fs⟩ <;> exact (List.cons.inj h).1
    subst hc
    have hmark : ('{' :: s).head? ≠ some (Char.ofNat 65279) := by
      rw [List.head?_cons]
      decide
    rw [loads, if_neg hmark, skipBlanks_cons rfl]
    rcases hscan : scanValue X (('{' :: s).length + 1) ('{' :: s) with _ | ⟨j, rest⟩
    · rfl
    · -- with the rest of the text the same is read, and nothing is left
      have hm : ('{' :: s).length + 1 ≤ ('{' :: s ++ u).length + 1 := by
        rw [List.length_append]
        omega
      have hlong := (scan_append X _).1 _ _ _ _ hm hscan
        (fun hj => by rw [scanValue_brace hscan] at hj; cases hj) u
      have hwhole := (scan_pretty hX (('{' :: s ++ u).length + 1)).1 (obj fields) 0 [] hj
        (fun c hc => by cases hc)
        (by rw [← h]; exact Nat.le_succ _)
      rw [List.append_nil, ← h, hlong] at hwhole
      exact absurd (List.append_eq_nil_iff.mp (Prod.mk.inj (Option.some.inj hwhole)).2).2 hu

theorem readNat_chars {ds : List Char} {n : Nat} (h : readNat ds = some n) :
    ∀ c ∈ ds, c.isDigit = true := by
  unfold readNat at h
  split at h
  · rename_i hds
    rw [← hds]
    exact fun c hc => Nat.isDigit_of_mem_toDigits (by decide) (by decide) hc
  · cases h

theorem readInt_chars {token : List Char} {n : Int} (h : readInt token = some n) :
    ∀ c ∈ token, c.isDigit = true ∨ c = '-' := by
  unfold readInt at h
  split at h
  · rename_i ds
    obtain ⟨m, hm, -⟩ := Option.map_eq_some_iff.mp h
    intro c hc
    rcases List.mem_cons.mp hc with rfl | hc
    · exact .inr rfl
    · exact .inl (readNat_chars hm c hc)
  · obtain ⟨m, hm, -⟩ := Option.map_eq_some_iff.mp h
    exact fun c hc => .inl (readNat_chars hm c hc)

end Json

/-! ## Floats that are read back -/

/-- Reading a fraction back. -/
def readFraction (s : List Char) : Option ℚ :=
  match Json.readInt (s.takeWhile (· ≠ '.')), Json.readNat ((s.dropWhile (· ≠ '.')).drop 1) with
  | some n, some d => some (mkRat n (if d = 0 then 1 else d))
  | _, _ => none

/-- `float(value)` of texts and floats. -/
def floatOfFraction : Json → Except Exc PyFloat
  | .float x => .ok x
  | .str s =>
    match readFraction s.toList with
    | some x => .ok (.finite x)
    | none => .error (.valueError s!"could not convert string to float: {pyRepr s}")
  | j => fractional.floatOf j

/-- `fractional`, with texts of floats that are read back. -/
def readable : Externals := { fractional with floatOf := floatOfFraction }

/-- The denominator of a fraction's text. -/
def denText (x : ℚ) : List Char := (if x.den = 1 then "0" else toString x.den).toList

theorem denText_ok (x : ℚ) :
    ∃ d, denText x = Nat.toDigits 10 d ∧ (if d = 0 then 1 else d) = x.den := by
  unfold denText
  split
  · rename_i h
    exact ⟨0, rfl, h.symm⟩
  · exact ⟨x.den, Nat.toList_repr, if_neg x.den_nz⟩

theorem denText_chars (x : ℚ) : ∀ c ∈ denText x, c.isDigit = true := by
  obtain ⟨d, hd, -⟩ := denText_ok x
  rw [hd]
  exact fun c hc => Nat.isDigit_of_mem_toDigits (by decide) (by decide) hc

theorem floatStr_readable (x : ℚ) :
    (readable.floatStr (.finite x)).toList = (toString x.num).toList ++ '.' :: denText x :=
  toList_fractionStr x

/-- The numerator ends at the point. -/
theorem num_split {p : Char → Bool} (hdigit : ∀ c : Char, c.isDigit = true → p c = true)
    (hsign : p '-' = true) (hpoint : p '.' = false) (n : Int) (s : List Char) :
    ((toString n).toList ++ '.' :: s).takeWhile p = (toString n).toList ∧
      ((toString n).toList ++ '.' :: s).dropWhile p = '.' :: s := by
  have hall : ∀ c ∈ (toString n).toList, p c = true := by
    intro c hc
    rcases Json.int_chars n c hc with h | rfl
    · exact hdigit c h
    · exact hsign
  rw [List.takeWhile_append_of_pos hall, List.dropWhile_append_of_pos hall, List.takeWhile_cons,
    List.dropWhile_cons, hpoint]
  exact ⟨List.append_nil _, rfl⟩

theorem readFraction_readable (x : ℚ) :
    readFraction (readable.floatStr (.finite x)).toList = some x := by
  have hdigit : ∀ c : Char, c.isDigit = true → decide (c ≠ '.') = true := by
    intro c hc
    refine decide_eq_true fun he => ?_
    rw [he] at hc
    cases hc
  obtain ⟨htake, hdrop⟩ := num_split hdigit (by decide) (by decide) x.num (denText x)
  obtain ⟨d, hd, hden⟩ := denText_ok x
  rw [floatStr_readable, readFraction, htake, hdrop, Json.readInt_text, List.drop_one,
    List.tail_cons, hd, Json.readNat_toDigits]
  dsimp only
  rw [hden, Rat.mkRat_self]

theorem readable_floatReads : readable.FloatReads where
  text x := by
    obtain ⟨htake, hdrop⟩ :=
      num_split (p := fun c => c.isDigit || c == '-') (fun c hc => by rw [hc]; rfl) rfl rfl x.num
      (denText x)
    have hall := denText_chars x
    have hne : denText x ≠ [] := by
      obtain ⟨d, hd, -⟩ := denText_ok x
      rw [hd]
      exact Nat.toDigits_ne_nil
    have hden : (denText x).takeWhile Char.isDigit = denText x ∧
        (denText x).dropWhile Char.isDigit = [] := by
      have htakeAll : (denText x ++ []).takeWhile Char.isDigit = denText x ++ [] :=
        List.takeWhile_append_of_pos hall
      have hdropAll : (denText x ++ []).dropWhile Char.isDigit = [] :=
        List.dropWhile_append_of_pos hall
      rw [List.append_nil] at htakeAll hdropAll
      exact ⟨htakeAll, hdropAll⟩
    rw [floatStr_readable, Json.isFloatText, htake, hdrop, Json.readInt_text]
    simp only [hden.1, hden.2]
    rw [decide_eq_true hne]
    rfl
  notInt x := by
    rcases h : Json.readInt (readable.floatStr (.finite x)).toList with _ | n
    · rfl
    · have hpoint := Json.readInt_chars h '.' (by
        rw [floatStr_readable]
        exact List.mem_append_right _ List.mem_cons_self)
      exact absurd hpoint (by decide)
  chars x c hc := by
    rw [floatStr_readable] at hc
    rcases List.mem_append.mp hc with hc | hc
    · rcases Json.int_chars _ c hc with h | rfl
      · exact Json.isScalarChar_of_isDigit h
      · rfl
    · rcases List.mem_cons.mp hc with rfl | hc
      · rfl
      · exact Json.isScalarChar_of_isDigit (denText_chars x c hc)
  reads x := by
    show floatOfFraction (.str (readable.floatStr (.finite x))) = _
    rw [floatOfFraction, readFraction_readable]
  self x := rfl

end Vsector.Models
