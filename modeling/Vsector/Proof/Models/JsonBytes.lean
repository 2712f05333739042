import Vsector.Proof.Models.JsonText

/-!
# JSON texts as bytes

The UTF-8 bytes of a document's text: none of them is a control character
(`textBytes_printable`), and those of an object begin no other object's
(`textBytes_prefix`).
-/

namespace Vsector.Models

open Framework

/-! ## UTF-8 -/

/-- Reading one character. -/
def utf8Decode (bytes : List UInt8) : Option (Char × List UInt8) :=
  (bytes.toByteArray.utf8DecodeChar? 0).map fun c => (c, bytes.drop c.utf8Size)

theorem utf8_prefixCode : PrefixCode String.utf8EncodeChar := by
  refine prefixCode_of_decode utf8Decode fun c s => ?_
  rw [utf8Decode, List.toByteArray_append, ByteArray.utf8DecodeChar?_utf8EncodeChar_append,
    Option.map_some, ← String.length_utf8EncodeChar, List.drop_left]

theorem utf8_printable {c : Char} (h : 32 ≤ c.toNat) :
    ∀ b ∈ String.utf8EncodeChar c, 32 ≤ b.toNat := by
  intro b hb
  have hc : c.val.toNat = c.toNat := rfl
  have hbyte : ∀ n, 32 ≤ n → n < 256 → 32 ≤ (UInt8.ofNat n).toNat := by
    intro n hn hlt
    rw [UInt8.toNat_ofNat_of_lt' hlt]
    exact hn
  simp only [String.utf8EncodeChar, hc] at hb
  split_ifs at hb <;> simp only [List.mem_cons, List.not_mem_nil, or_false] at hb
  · rw [hb]
    exact hbyte _ h (by omega)
  · rcases hb with rfl | rfl <;> exact hbyte _ (by omega) (by omega)
  · rcases hb with rfl | rfl | rfl <;> exact hbyte _ (by omega) (by omega)
  · rcases hb with rfl | rfl | rfl | rfl <;> exact hbyte _ (by omega) (by omega)

namespace Json

variable {X : Externals} {st : Style}

/-! ## Characters -/

def Printable (s : List Char) : Prop := ∀ c ∈ s, 32 ≤ c.toNat

theorem Printable.append {s t : List Char} (hs : Printable s) (ht : Printable t) :
    Printable (s ++ t) := by
  intro c hc
  rcases List.mem_append.mp hc with hc | hc
  · exact hs c hc
  · exact ht c hc

theorem Printable.cons {c : Char} {s : List Char} (hc : 32 ≤ c.toNat) (hs : Printable s) :
    Printable (c :: s) := by
  intro d hd
  rcases List.mem_cons.mp hd with rfl | hd
  · exact hc
  · exact hs d hd

theorem printable_nil : Printable [] := fun _ h => absurd h List.not_mem_nil

theorem space_printable : Printable st.space := by
  rw [Style.space]
  split
  · exact .cons (by decide) printable_nil
  · exact printable_nil

theorem hexDigit_printable (n : Nat) : 32 ≤ (hexDigit n).toNat := by
  have hn := Nat.mod_lt n (show 16 > 0 by decide)
  rw [hexDigit]
  generalize n % 16 = d at *
  interval_cases d <;> decide

theorem unicodeEscape_printable (n : Nat) : Printable (unicodeEscape n) :=
  .cons (by decide) (.cons (by decide) (.cons (hexDigit_printable _) (.cons (hexDigit_printable _)
    (.cons (hexDigit_printable _) (.cons (hexDigit_printable _) printable_nil)))))

theorem escapeChar_printable (c : Char) : Printable (escapeChar st c) := by
  rw [escapeChar]
  split_ifs with hq hb hn hr ht hf hbs hp hu
  · exact .cons (by decide) (.cons (by decide) printable_nil)
  · exact .cons (by decide) (.cons (by decide) printable_nil)
  · exact .cons (by decide) (.cons (by decide) printable_nil)
  · exact .cons (by decide) (.cons (by decide) printable_nil)
  · exact .cons (by decide) (.cons (by decide) printable_nil)
  · exact .cons (by decide) (.cons (by decide) printable_nil)
  · exact .cons (by decide) (.cons (by decide) printable_nil)
  · exact .cons hp.1 printable_nil
  · exact unicodeEscape_printable _
  · exact .append (unicodeEscape_printable _) (unicodeEscape_printable _)

theorem strText_printable (s : String) : Printable (strText st s) := by
  refine .cons (by decide) (.append (fun c hc => ?_) (.cons (by decide) printable_nil))
  obtain ⟨a, -, ha⟩ := List.mem_flatMap.mp hc
  exact escapeChar_printable a c ha

theorem scalar_printable (hX : X.FloatRepr) {j : Json} (hj : j.isScalar) :
    Printable (text X st j) := by
  intro c hc
  have h := scalar_chars hX hj c hc
  simp only [isScalarChar, Bool.or_eq_true, beq_iff_eq] at h
  rcases h with ((h | rfl) | rfl) | rfl
  · simp only [Char.isAlphanum, Char.isAlpha, Char.isUpper, Char.isLower, Char.isDigit,
      Bool.or_eq_true, Bool.and_eq_true, decide_eq_true_eq] at h
    have hval : c.toNat = c.val.toNat := rfl
    simp only [UInt32.le_iff_toNat_le, ge_iff_le] at h
    rw [hval]
    rcases h with (⟨h, -⟩ | ⟨h, -⟩) | ⟨h, -⟩
    · exact le_trans (by decide) h
    · exact le_trans (by decide) h
    · exact le_trans (by decide) h
  all_goals decide

mutual

/-- A document's text has no control characters. -/
theorem text_printable (hX : X.FloatRepr) (j : Json) : Printable (text X st j) := by
  match j with
  | .str s => exact strText_printable s
  | .arr items => exact .cons (by decide) (itemsText_printable hX items)
  | .obj fields => exact .cons (by decide) (fieldsText_printable hX fields)
  | .null | .bool _ | .int _ | .float _ => exact scalar_printable hX rfl

theorem itemsText_printable (hX : X.FloatRepr) (js : List Json) :
    Printable (itemsText X st js) := by
  match js with
  | [] => exact .cons (by decide) printable_nil
  | j :: js => exact .append (text_printable hX j) (itemsTail_printable hX js)

theorem itemsTail_printable (hX : X.FloatRepr) (js : List Json) :
    Printable (itemsTail X st js) := by
  match js with
  | [] => exact .cons (by decide) printable_nil
  | j :: js =>
    exact .cons (by decide)
      (.append space_printable (.append (text_printable hX j) (itemsTail_printable hX js)))

theorem fieldsText_printable (hX : X.FloatRepr) (fs : List (String × Json)) :
    Printable (fieldsText X st fs) := by
  match fs with
  | [] => exact .cons (by decide) printable_nil
  | (k, j) :: fs =>
    exact .append (strText_printable k) (.cons (by decide) (.append space_printable
      (.append (text_printable hX j) (fieldsTail_printable hX fs))))

theorem fieldsTail_printable (hX : X.FloatRepr) (fs : List (String × Json)) :
    Printable (fieldsTail X st fs) := by
  match fs with
  | [] => exact .cons (by decide) printable_nil
  | (k, j) :: fs =>
    exact .cons (by decide)
      (.append space_printable (.append (strText_printable k) (.cons (by decide)
      (.append space_printable (.append (text_printable hX j) (fieldsTail_printable hX fs))))))

end

/-! ## Bytes -/

def textBytes (X : Externals) (st : Style) (j : Json) : List UInt8 :=
  (text X st j).flatMap String.utf8EncodeChar

theorem textBytes_printable (hX : X.FloatRepr) (j : Json) :
    ∀ b ∈ textBytes X st j, 32 ≤ b.toNat := by
  intro b hb
  obtain ⟨c, hc, hb⟩ := List.mem_flatMap.mp hb
  exact utf8_printable (text_printable hX j c hc) b hb

theorem textBytes_head (fields : List (String × Json)) :
    (textBytes X st (.obj fields)).head? = some 123 := rfl

/-- The bytes of an object do not go on to be those of another one. -/
theorem textBytes_prefix (hX : X.FloatRepr) {fields fields' : List (String × Json)} {s : List UInt8}
    (h : textBytes X st (.obj fields) ++ s = textBytes X st (.obj fields')) :
    fields = fields' ∧ s = [] := by
  obtain ⟨t, ht, rfl⟩ :=
    utf8_prefixCode.flatMap_prefix (fun _ => String.utf8EncodeChar_ne_nil) _ _ _ h
  have htext : fieldsText X st fields ++ t = fieldsText X st fields' ++ [] := by
    rw [List.append_nil]
    exact (List.cons.inj ht).2
  obtain ⟨hf, rfl⟩ := fieldsText_unique hX fields fields' t [] htext
  exact ⟨hf, rfl⟩

end Json

end Vsector.Models
