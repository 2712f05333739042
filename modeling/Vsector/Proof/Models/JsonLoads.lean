import Vsector.Impl.Models.JsonLoads
import Vsector.Proof.Models.JsonText

/-!
# Reading with more text behind

What `json.loads` reads of a text it reads of any longer text too, unless a
number or a word goes on there (`scan_append`).
-/

namespace Vsector.Models

namespace Json

open Framework

variable {X : Externals}

/-! ## More text behind what is read -/

theorem skipBlanks_append {s r u : List Char} {c : Char} (h : skipBlanks s = c :: r) :
    skipBlanks (s ++ u) = c :: (r ++ u) := by
  unfold skipBlanks at h ⊢
  rw [List.dropWhile_append, h]
  rfl

theorem expect_append {s r : List Char} {c : Char} (h : expect c s = some r) (u : List Char) :
    expect c (s ++ u) = some (r ++ u) := by
  unfold expect at h ⊢
  rcases hs : skipBlanks s with _ | ⟨d, t⟩
  · rw [hs] at h
    cases h
  · rw [hs] at h
    rw [skipBlanks_append hs]
    dsimp only at h ⊢
    split at h
    · rename_i hd
      cases h
      rw [if_pos hd]
    · cases h

theorem expect_append_none {s : List Char} {c : Char} (h : expect c s = none)
    (hs : skipBlanks s ≠ []) (u : List Char) :
    expect c (s ++ u) = none := by
  unfold expect at h ⊢
  obtain ⟨d, t, hdt⟩ := List.exists_cons_of_ne_nil hs
  rw [hdt] at h
  rw [skipBlanks_append hdt]
  dsimp only at h ⊢
  split at h
  · cases h
  · rename_i hd
    rw [if_neg hd]

theorem skipBlanks_ne_nil_of_expect {s r : List Char} {c : Char} (h : expect c s = some r) :
    skipBlanks s ≠ [] := by
  intro hs
  unfold expect at h
  rw [hs] at h
  cases h

theorem skipBlanks_append_of_ne_nil {s : List Char} (h : skipBlanks s ≠ []) (u : List Char) :
    skipBlanks (s ++ u) = skipBlanks s ++ u := by
  obtain ⟨d, t, hdt⟩ := List.exists_cons_of_ne_nil h
  rw [skipBlanks_append hdt, hdt]
  rfl

theorem scanHex_append {s r : List Char} {n : Nat} (h : scanHex s = some (n, r)) (u : List Char) :
    scanHex (s ++ u) = some (n, r ++ u) := by
  match s with
  | [] | [_] | [_, _] | [_, _, _] => cases h
  | a :: b :: c :: d :: s =>
    simp only [scanHex, List.cons_append] at h ⊢
    split at h
    · rename_i ha hb hc hd
      cases h
      rfl
    · cases h

theorem scanUnicode_append {s r : List Char} {c : Char} (h : scanUnicode s = some (c, r))
    (u : List Char) :
    scanUnicode (s ++ u) = some (c, r ++ u) := by
  unfold scanUnicode at h ⊢
  rcases hs : scanHex s with _ | ⟨n, t⟩
  · rw [hs] at h
    cases h
  · rw [hs] at h
    rw [scanHex_append hs]
    dsimp only at h ⊢
    split at h
    · rename_i hn
      cases h
      rw [if_pos hn]
    · rename_i hn
      rw [if_neg hn]
      split at h
      · rename_i t
        rcases ht : scanHex t with _ | ⟨m, w⟩
        · rw [ht] at h
          cases h
        · rw [ht] at h
          simp only [List.cons_append, scanHex_append ht]
          dsimp only at h
          split at h
          · rename_i hm
            obtain ⟨hc, hr⟩ := Prod.mk.inj (Option.some.inj h)
            rw [if_pos hm, hc, hr]
          · cases h
      · cases h

theorem scanChar_append {s r : List Char} {c : Char} (h : scanChar s = some (c, r))
    (u : List Char) :
    scanChar (s ++ u) = some (c, r ++ u) := by
  rcases s with _ | ⟨a, s⟩
  · cases h
  · unfold scanChar at h ⊢
    dsimp only [List.cons_append] at h ⊢
    split at h
    · rename_i ha
      rw [if_pos ha]
      rcases s with _ | ⟨k, s⟩
      · cases h
      · dsimp only [List.cons_append] at h ⊢
        split at h
        · rename_i hk
          rw [if_pos hk]
          exact scanUnicode_append h u
        · rename_i hk
          rw [if_neg hk]
          obtain ⟨e, he, heq⟩ := Option.map_eq_some_iff.mp h
          cases heq
          rw [he]
          rfl
    · rename_i ha
      rw [if_neg ha]
      split at h
      · cases h
      · rename_i hc
        cases h
        rw [if_neg hc]

theorem scanString_append {n m : Nat} {s r cs : List Char} (hm : n ≤ m)
    (h : scanString n s = some (cs, r)) (u : List Char) :
    scanString m (s ++ u) = some (cs, r ++ u) := by
  induction n generalizing m s cs with
  | zero => cases h
  | succ n ih =>
    obtain ⟨m, rfl⟩ : ∃ k, m = k + 1 := ⟨m - 1, by omega⟩
    rcases s with _ | ⟨a, s⟩
    · cases h
    · unfold scanString at h
      rw [List.cons_append, scanString]
      split at h
      · rename_i ha
        cases h
        rw [if_pos ha]
      · rename_i ha
        rw [if_neg ha]
        rcases hc : scanChar (a :: s) with _ | ⟨c, t⟩
        · rw [hc] at h
          cases h
        · rw [hc] at h
          rw [← List.cons_append, scanChar_append hc]
          dsimp only at h ⊢
          rcases ht : scanString n t with _ | ⟨ds, w⟩
          · rw [ht] at h
            cases h
          · rw [ht] at h
            cases h
            rw [ih (by omega) ht]
            rfl

theorem readToken_isScalar {token : List Char} {j : Json} (h : readToken X token = some j) :
    j.isScalar = true := by
  unfold readToken at h
  iterate 6
    split at h
    · cases h
      rfl
  split at h
  · cases h
    rfl
  · split at h
    · obtain ⟨x, -, rfl⟩ := Option.map_eq_some_iff.mp h
      rfl
    · cases h

/-- A token that something follows. -/
theorem scanToken_append {s r : List Char} {j : Json} (h : scanToken X s = some (j, r))
    (hr : r ≠ []) (u : List Char) :
    scanToken X (s ++ u) = some (j, r ++ u) := by
  unfold scanToken at h ⊢
  obtain ⟨i, hi, heq⟩ := Option.map_eq_some_iff.mp h
  cases heq
  have hdrop : (s ++ u).dropWhile isTokenChar = s.dropWhile isTokenChar ++ u := by
    rw [List.dropWhile_append, if_neg (by rw [List.isEmpty_iff]; exact hr)]
  have htake : (s ++ u).takeWhile isTokenChar = s.takeWhile isTokenChar := by
    have hs := List.takeWhile_append_dropWhile (p := isTokenChar) (l := s)
    have hsu := List.takeWhile_append_dropWhile (p := isTokenChar) (l := s ++ u)
    rw [hdrop, ← List.append_assoc] at hsu
    have hcut := List.append_cancel_right hsu
    exact List.append_cancel_right (hcut.trans hs.symm)
  rw [htake, hdrop, hi]
  rfl

theorem scanToken_isScalar {s r : List Char} {j : Json} (h : scanToken X s = some (j, r)) :
    j.isScalar = true := by
  obtain ⟨i, hi, heq⟩ := Option.map_eq_some_iff.mp h
  cases heq
  exact readToken_isScalar hi

theorem scanValue_nil (n : Nat) : scanValue X n [] = none := by cases n <;> rfl
theorem scanFields_nil (n : Nat) : scanFields X n [] = none := by cases n <;> rfl

theorem scanItems_nil (n : Nat) : scanItems X n [] = none := by
  cases n with
  | zero => rfl
  | succ n => rw [scanItems, scanValue_nil]

/-- What is read stays what it is where more text follows, given that a number or a word does not
end the text, and more fuel. -/
theorem scan_append (X : Externals) (n : Nat) :
    (∀ (s r : List Char) (j : Json) (m : Nat), n ≤ m → scanValue X n s = some (j, r) →
      (j.isScalar = true → r ≠ []) →
      ∀ u, scanValue X m (s ++ u) = some (j, r ++ u)) ∧
    (∀ (s r : List Char) (js : List Json) (m : Nat), n ≤ m → scanItems X n s = some (js, r) →
      ∀ u, scanItems X m (s ++ u) = some (js, r ++ u)) ∧
    ∀ (s r : List Char) (fs : List (String × Json)) (m : Nat), n ≤ m →
      scanFields X n s = some (fs, r) →
      ∀ u, scanFields X m (s ++ u) = some (fs, r ++ u) := by
  induction n with
  | zero =>
    refine ⟨fun s r j m _ h => ?_, fun s r js m _ h => ?_, fun s r fs m _ h => ?_⟩
    all_goals cases h
  | succ n ih =>
    obtain ⟨ihv, ihi, ihf⟩ := ih
    refine ⟨fun s r j m hm h hr u => ?_, fun s r js m hm h u => ?_, fun s r fs m hm h u => ?_⟩
    all_goals obtain ⟨m, rfl⟩ : ∃ k, m = k + 1 := ⟨m - 1, by omega⟩
    · rcases s with _ | ⟨c, s⟩
      · cases h
      · rw [scanValue] at h
        rw [List.cons_append, scanValue]
        split at h
        · rename_i hc
          obtain ⟨p, hp, heq⟩ := Option.map_eq_some_iff.mp h
          cases heq
          rw [if_pos hc, scanString_append (by omega) hp]
          rfl
        · rename_i hc
          rw [if_neg hc]
          split at h
          · rename_i hc
            rw [if_pos hc]
            rcases hexpect : expect ']' s with _ | t
            · rw [hexpect] at h
              obtain ⟨p, hp, heq⟩ := Option.map_eq_some_iff.mp h
              cases heq
              have hs : skipBlanks s ≠ [] := fun hs => by rw [hs, scanItems_nil] at hp; cases hp
              rw [expect_append_none hexpect hs, skipBlanks_append_of_ne_nil hs]
              dsimp only
              rw [ihi _ _ _ m (by omega) hp]
              rfl
            · rw [hexpect] at h
              cases h
              rw [expect_append hexpect]
          · rename_i hc
            rw [if_neg hc]
            split at h
            · rename_i hc
              rw [if_pos hc]
              rcases hexpect : expect '}' s with _ | t
              · rw [hexpect] at h
                obtain ⟨p, hp, heq⟩ := Option.map_eq_some_iff.mp h
                cases heq
                have hs : skipBlanks s ≠ [] := fun hs => by rw [hs, scanFields_nil] at hp; cases hp
                rw [expect_append_none hexpect hs, skipBlanks_append_of_ne_nil hs]
                dsimp only
                rw [ihf _ _ _ m (by omega) hp]
                rfl
              · rw [hexpect] at h
                cases h
                rw [expect_append hexpect]
            · rename_i hc
              rw [if_neg hc, ← List.cons_append]
              exact scanToken_append h (hr (scanToken_isScalar h)) u
    · rw [scanItems] at h
      rw [scanItems]
      rcases hv : scanValue X n s with _ | ⟨j, t⟩
      · rw [hv] at h
        cases h
      · rw [hv] at h
        have ht : t ≠ [] := by
          rintro rfl
          cases h
        rw [ihv _ _ _ m (by omega) hv fun _ => ht]
        dsimp only at h ⊢
        rcases hclose : expect ']' t with _ | w
        · rcases hcomma : expect ',' t with _ | w
          · rw [hclose, hcomma] at h
            cases h
          · rw [hclose, hcomma] at h
            obtain ⟨p, hp, heq⟩ := Option.map_eq_some_iff.mp h
            cases heq
            have hw : skipBlanks w ≠ [] := fun hs => by rw [hs, scanItems_nil] at hp; cases hp
            rw [expect_append_none hclose (skipBlanks_ne_nil_of_expect hcomma),
              expect_append hcomma]
            dsimp only
            rw [skipBlanks_append_of_ne_nil hw, ihi _ _ _ m (by omega) hp]
            rfl
        · rw [hclose] at h
          cases h
          rw [expect_append hclose]
    · rcases s with _ | ⟨c, s⟩
      · cases h
      · rw [scanFields] at h
        rw [List.cons_append, scanFields]
        split at h
        · rename_i hc
          rw [if_pos hc]
          rcases hk : scanString n s with _ | ⟨k, t⟩
          · rw [hk] at h
            cases h
          · rw [hk] at h
            rw [scanString_append (m := m) (by omega) hk]
            dsimp only at h ⊢
            rcases hcolon : expect ':' t with _ | t
            · rw [hcolon] at h
              cases h
            · rw [hcolon] at h
              rw [expect_append hcolon]
              dsimp only at h ⊢
              rcases hv : scanValue X n (skipBlanks t) with _ | ⟨j, w⟩
              · rw [hv] at h
                cases h
              · rw [hv] at h
                have ht : skipBlanks t ≠ [] := fun ht => by rw [ht, scanValue_nil] at hv; cases hv
                have hw : w ≠ [] := by
                  rintro rfl
                  cases h
                rw [skipBlanks_append_of_ne_nil ht, ihv _ _ _ m (by omega) hv fun _ => hw]
                dsimp only at h ⊢
                rcases hclose : expect '}' w with _ | v
                · rcases hcomma : expect ',' w with _ | v
                  · rw [hclose, hcomma] at h
                    cases h
                  · rw [hclose, hcomma] at h
                    obtain ⟨p, hp, heq⟩ := Option.map_eq_some_iff.mp h
                    cases heq
                    have hv : skipBlanks v ≠ [] := fun hs => by
                      rw [hs, scanFields_nil] at hp; cases hp
                    rw [expect_append_none hclose (skipBlanks_ne_nil_of_expect hcomma),
                      expect_append hcomma]
                    dsimp only
                    rw [skipBlanks_append_of_ne_nil hv, ihf _ _ _ m (by omega) hp]
                    rfl
                · rw [hclose] at h
                  cases h
                  rw [expect_append hclose]
        · cases h

end Json

end Vsector.Models
