import Vsector.Proof.Models.JsonRoundTrip

/-!
# Reading texts on one line

What `json.dumps(value)` prints is read back, as what it prints with an indent
(`loads_text`): between the tokens there is a blank behind a comma and behind
a colon, and nothing else.
-/

namespace Vsector.Models

open Framework

variable {X : Externals}

namespace Json

/-- No text begins with a blank or a byte order mark, or ends an array. -/
theorem text_head (hX : X.FloatReads) (j : Json) :
    ∃ c s, text X .default j = c :: s ∧ isBlank c = false ∧ c ≠ ']' ∧ c ≠ Char.ofNat 65279 := by
  cases j with
  | str s => exact ⟨'"', _, rfl, rfl, by decide, by decide⟩
  | arr items => exact ⟨'[', _, rfl, rfl, by decide, by decide⟩
  | obj fields => exact ⟨'{', _, rfl, rfl, by decide, by decide⟩
  | null => exact pretty_scalar (X := X) (j := null) rfl 0 ▸ pretty_cons hX 0 null
  | bool b => exact pretty_scalar (X := X) (j := bool b) rfl 0 ▸ pretty_cons hX 0 (bool b)
  | int n => exact pretty_scalar (X := X) (j := int n) rfl 0 ▸ pretty_cons hX 0 (int n)
  | float x => exact pretty_scalar (X := X) (j := float x) rfl 0 ▸ pretty_cons hX 0 (float x)

theorem skipBlanks_text (hX : X.FloatReads) (j : Json) (s : List Char) :
    skipBlanks (text X .default j ++ s) = text X .default j ++ s := by
  obtain ⟨c, t, hct, hblank, -⟩ := text_head hX j
  rw [hct, List.cons_append, skipBlanks_cons hblank]

theorem length_itemsTail (js : List Json) : 1 ≤ (itemsTail X .default js).length := by
  cases js <;> exact Nat.succ_le_of_lt (Nat.succ_pos _)

theorem length_fieldsTail (fs : List (String × Json)) : 1 ≤ (fieldsTail X .default fs).length := by
  cases fs <;> exact Nat.succ_le_of_lt (Nat.succ_pos _)

/-- A printed document is read back, given fuel for its text: `n` is what is left of it. -/
theorem scan_text (hX : X.FloatReads) (n : Nat) :
    (∀ (j : Json) (s : List Char), j.KeysNodup → Ends s → (text X .default j).length ≤ n →
      scanValue X n (text X .default j ++ s) = some (j, s)) ∧
    (∀ (j : Json) (js : List Json) (s : List Char), j.KeysNodup → ItemsNodup js →
      (text X .default j).length + (itemsTail X .default js).length ≤ n →
      scanItems X n (text X .default j ++ (itemsTail X .default js ++ s)) = some (j :: js, s)) ∧
    ∀ (k : String) (j : Json) (fs : List (String × Json)) (s : List Char), j.KeysNodup →
      FieldsNodup fs →
      (strText .default k).length + (text X .default j).length +
        (fieldsTail X .default fs).length ≤ n →
      scanFields X n (strText .default k ++ ':' :: ' ' ::
        (text X .default j ++ (fieldsTail X .default fs ++ s))) =
        some ((k, j) :: fs, s) := by
  induction n with
  | zero =>
    refine ⟨fun j s _ _ hn => ?_, fun j js s _ _ hn => ?_, fun k j fs s _ _ hn => ?_⟩
    all_goals
      obtain ⟨c, t, hct, -⟩ := text_head hX j
      rw [hct, List.length_cons] at hn
      omega
  | succ n ih =>
    obtain ⟨ihv, ihi, ihf⟩ := ih
    refine ⟨fun j s hj hs hn => ?_, fun j js s hj hjs hn => ?_, fun k j fs s hj hfs hn => ?_⟩
    · cases j with
      | null => exact scanToken_text hX rfl hs n
      | bool b => exact scanToken_text hX rfl hs n
      | int i => exact scanToken_text hX rfl hs n
      | float x => exact scanToken_text hX rfl hs n
      | str k =>
        have hlen : (strText .default k).length ≤ n + 1 := hn
        have hk := length_strText k
        have hscan := scanString_escape k.toList s (n := n) (by omega)
        change scanValue X (n + 1) (strText .default k ++ s) = _
        rw [strText, List.cons_append, List.append_assoc, List.singleton_append, scanValue,
          if_pos rfl, hscan]
        exact congrArg (fun k => some (str k, s)) String.ofList_toList
      | arr items =>
        rcases items with _ | ⟨j, js⟩
        · rfl
        · simp only [text, itemsText, List.length_cons, List.length_append] at hn
          have hitems := ihi j js s hj.1 hj.2 (by omega)
          obtain ⟨c, t, hct, hblank, hne, -⟩ := text_head hX j
          have hexpect : expect ']' (text X .default j ++ (itemsTail X .default js ++ s)) =
              none := by
            rw [hct, List.cons_append]
            exact expect_other hblank hne _
          simp only [text, itemsText, List.cons_append, List.append_assoc]
          rw [scanValue, if_neg (by decide), if_pos rfl, hexpect]
          dsimp only
          rw [skipBlanks_text hX, hitems]
          rfl
      | obj fields =>
        rcases fields with _ | ⟨⟨k, j⟩, fs⟩
        · rfl
        · simp only [text, fieldsText, List.length_cons, List.length_append] at hn
          have hfields := ihf k j fs s hj.2.1 hj.2.2 (by omega)
          have htext : text X .default (obj ((k, j) :: fs)) ++ s =
              '{' :: (strText .default k ++ ':' :: ' ' ::
                (text X .default j ++ (fieldsTail X .default fs ++ s))) := by
            simp [text, fieldsText, Style.space, Style.default]
          rw [htext, scanValue, if_neg (by decide), if_neg (by decide), if_pos rfl]
          have hexpect : expect '}' (strText .default k ++ ':' :: ' ' :: (text X .default j ++
              (fieldsTail X .default fs ++ s))) = none := rfl
          rw [hexpect]
          dsimp only
          rw [show skipBlanks (strText .default k ++ _) = strText .default k ++ _ from rfl,
            hfields, Option.map_some, dictOf_eq_self hj.1]
    · have htail := length_itemsTail (X := X) js
      have hv := ihv j (itemsTail X .default js ++ s) hj (ends_itemsTail js s) (by omega)
      rw [scanItems, hv]
      dsimp only
      rcases js with _ | ⟨j', js⟩
      · rfl
      · simp only [itemsTail, List.length_cons, List.length_append] at hn
        have hrest := ihi j' js s hjs.1 hjs.2 (by omega)
        have hnext : itemsTail X .default (j' :: js) ++ s =
            ',' :: ' ' :: (text X .default j' ++ (itemsTail X .default js ++ s)) := by
          simp [itemsTail, Style.space, Style.default]
        rw [hnext, expect_other rfl (by decide),
          show expect ',' (',' :: ' ' :: (text X .default j' ++ (itemsTail X .default js ++ s))) =
            some (' ' :: (text X .default j' ++ (itemsTail X .default js ++ s))) from rfl]
        dsimp only
        rw [show skipBlanks (' ' :: (text X .default j' ++ (itemsTail X .default js ++ s))) =
          skipBlanks (text X .default j' ++ (itemsTail X .default js ++ s)) from rfl,
            skipBlanks_text hX, hrest]
        rfl
    · have hk := length_strText k
      have htail := length_fieldsTail (X := X) fs
      have hv := ihv j (fieldsTail X .default fs ++ s) hj (ends_fieldsTail fs s) (by omega)
      rw [scanFields_cons (by omega) (skipBlanks_text hX j _) hv]
      rcases fs with _ | ⟨⟨k', j'⟩, fs⟩
      · rfl
      · simp only [fieldsTail, List.length_cons, List.length_append] at hn
        have hrest := ihf k' j' fs s hfs.1 hfs.2 (by omega)
        have hnext : fieldsTail X .default ((k', j') :: fs) ++ s =
            ',' :: ' ' :: (strText .default k' ++ ':' :: ' ' ::
              (text X .default j' ++ (fieldsTail X .default fs ++ s))) := by
          simp [fieldsTail, Style.space, Style.default]
        rw [hnext, expect_other rfl (by decide),
          show expect ',' (',' :: ' ' ::
            (strText .default k' ++ ':' :: ' ' :: (text X .default j' ++
            (fieldsTail X .default fs ++ s)))) = some (' ' :: (strText .default k' ++ ':' :: ' ' ::
              (text X .default j' ++
              (fieldsTail X .default fs ++ s)))) from rfl]
        dsimp only
        rw [show skipBlanks (' ' :: (strText .default k' ++ ':' :: ' ' :: (text X .default j' ++
          (fieldsTail X .default fs ++ s)))) = strText .default k' ++ ':' :: ' ' ::
            (text X .default j' ++
            (fieldsTail X .default fs ++ s)) from rfl, hrest]
        rfl

/-- `json.loads(json.dumps(value)) == value`. -/
theorem loads_text (hX : X.FloatReads) {j : Json} (hj : j.KeysNodup) :
    loads X (text X .default j) = some j := by
  obtain ⟨c, t, hct, -, -, hmark⟩ := text_head hX j
  have hscan := (scan_text hX ((text X .default j).length + 1)).1 j [] hj
    (fun c hc => by cases hc) (Nat.le_succ _)
  have hskip := skipBlanks_text hX j []
  rw [List.append_nil] at hscan hskip
  rw [loads, hskip, hscan, if_neg]
  · rfl
  · rw [hct, List.head?_cons]
    exact fun h => hmark (Option.some.inj h)

end Json

end Vsector.Models
