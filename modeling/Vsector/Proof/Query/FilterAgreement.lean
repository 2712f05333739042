import Vsector.Impl.Query.Filter
import Vsector.Proof.Models.Documents

/-!
# Where the two filters agree

`_matches_filter` and `_parse_filter` take the operators of a field in the
same order (`Condition.of`), and differ in what they make of them. A plain
value and `$eq` are the same to both; of the others `DeleteOnly`, `QueryOnly`
and `Unmet` say for which values and bounds a field is met by one of the two
only, and by neither. Both evaluators stop at the first field that is not met,
so they agree on a document if some field is met by neither, if no field is
met by one only, or if there is a field of either kind (`filters_agree_iff`).
-/

namespace Vsector.Query

open Models Index

variable {X : Externals} {md : Metadata}

theorem allFields_iff {met : String → Json → Except Exc Bool} {filters : Filter} :
    allFields met filters = .ok true ↔ ∀ f ∈ filters, met f.1 f.2 = .ok true := by
  induction filters with
  | nil => exact iff_of_true rfl fun _ h => absurd h List.not_mem_nil
  | cons f filters ih =>
    obtain ⟨key, cond⟩ := f
    rw [List.forall_mem_cons, allFields]
    rcases hm : met key cond with e | _ | _
    · simp
    · simp
    · simp [ih]

/-! ## Conditions -/

/-- A field's condition, by the operator that counts. -/
inductive Condition where
  /-- A plain value, or `$eq`. -/
  | equal (value : Json)
  | isIn (needle : Json)
  | atLeast (bound : Json)
  /-- `$in_tags`, which a delete does not know. -/
  | inTags (needle : Json)
  /-- An object without a known operator. -/
  | unknown (cond : Json)

/-- `$in` comes before `$gte`, that before `$eq`, and `$in_tags` is last. -/
def Condition.of : Json → Condition
  | .obj ops =>
    match ops.lookup "$in", ops.lookup "$gte", ops.lookup "$eq", ops.lookup "$in_tags" with
    | some needle, _, _, _ => .isIn needle
    | none, some bound, _, _ => .atLeast bound
    | none, none, some other, _ => .equal other
    | none, none, none, some needle => .inTags needle
    | none, none, none, none => .unknown (.obj ops)
  | value => .equal value

theorem Condition.of_isIn {ops : List (String × Json)} {needle : Json}
    (h : ops.lookup "$in" = some needle) : of (.obj ops) = .isIn needle := by
  unfold of
  dsimp only
  rw [h]

theorem Condition.of_atLeast {ops : List (String × Json)} {bound : Json}
    (hin : ops.lookup "$in" = none) (h : ops.lookup "$gte" = some bound) :
    of (.obj ops) = .atLeast bound := by
  unfold of
  dsimp only
  rw [hin, h]

/-- One of the items is in the needle, and no comparison before it raises. -/
def AnyIn (needle : Json) (items : List Json) : Prop :=
  Json.pyAny (·.pyIn needle) items = .ok true

/-- One of what `for` goes through in the value is in the needle. -/
def PartIn (needle value : Json) : Prop := ∃ items, value.pyIter = .ok items ∧ AnyIn needle items

/-- `md.get("tags", [])`. -/
def tagsOf (md : Metadata) : Json := (md.lookup "tags").getD (.arr [])

/-- The word is a part of the text of the tags. -/
def InTagsText (X : Externals) (md : Metadata) (word : String) : Prop :=
  word.toList <:+: ((tagsOf md).pyStr X).toList

/-- The value is in the needle as a whole; or it is not, and the key is a part of the text of the
tags. -/
def FoundWhole (X : Externals) (md : Metadata) (key : String) (needle : Json) : Prop :=
  (field md key).pyIn needle = .ok true ∨
    (field md key).pyIn needle = .ok false ∧ InTagsText X md key

/-- `_tags` has an item in the needle, or is in it. -/
def UnderscoreIn (md : Metadata) (needle : Json) : Prop :=
  match field md "_tags" with
  | .arr tags => AnyIn needle tags
  | other => truthy other = true ∧ other.pyIn needle = .ok true

/-! ## One field -/

/-- `$in` on `tags` is met by the delete only. -/
def TagsDeleteOnly (X : Externals) (md : Metadata) (needle : Json) : Prop :=
  match field md "tags" with
  | .arr tags => ¬ AnyIn needle tags ∧ FoundWhole X md "tags" needle
  | val =>
    if truthy val then
      val.pyIn needle = .ok false ∧ (InTagsText X md "tags" ∨ PartIn needle val)
    else ¬ UnderscoreIn md needle ∧ FoundWhole X md "tags" needle

/-- `$in` on `tags` is met by the query only: the whole list cannot be looked for in the needle, or
the tags are under `_tags`. -/
def TagsQueryOnly (X : Externals) (md : Metadata) (needle : Json) : Prop :=
  match field md "tags" with
  | .arr tags => AnyIn needle tags ∧ ∃ e, (field md "tags").pyIn needle = .error e
  | val => truthy val = false ∧ UnderscoreIn md needle ∧ ¬ FoundWhole X md "tags" needle

def TagsUnmet (X : Externals) (md : Metadata) (needle : Json) : Prop :=
  ¬ FoundWhole X md "tags" needle ∧
    match field md "tags" with
    | .arr tags => ¬ AnyIn needle tags
    | val =>
      if truthy val then val.pyIn needle = .ok false → ¬ PartIn needle val
      else ¬ UnderscoreIn md needle

/-- A field that the delete is met by, and the query is not. -/
def DeleteOnly (X : Externals) (md : Metadata) (key : String) : Condition → Prop
  | .equal _ => False
  | .isIn needle =>
    if key = "tags" then TagsDeleteOnly X md needle
    else (field md key).pyIn needle = .ok false ∧ InTagsText X md key
  -- the delete takes a missing value as the empty text, and compares values where the query
  -- compares their texts
  | .atLeast bound =>
    match md.lookup key with
    | none => bound = .str ""
    | some val => val.pyLt bound = .ok false ∧ val.pyStr X < bound.pyStr X
  | .inTags needle => ¬ PartIn needle (tagsOf md)
  | .unknown cond => (field md key).pyEq cond = false

/-- A field that the query is met by, and the delete is not. -/
def QueryOnly (X : Externals) (md : Metadata) (key : String) : Condition → Prop
  | .isIn needle => key = "tags" ∧ TagsQueryOnly X md needle
  | .atLeast bound =>
    ∃ val, md.lookup key = some val ∧ val ≠ .null ∧ val.pyLt bound ≠ .ok false ∧
      ¬ val.pyStr X < bound.pyStr X
  | _ => False

/-- A field that neither is met by. -/
def Unmet (X : Externals) (md : Metadata) (key : String) : Condition → Prop
  | .equal value => (field md key).pyEq value = false
  | .isIn needle =>
    if key = "tags" then TagsUnmet X md needle else ¬ FoundWhole X md key needle
  | .atLeast bound =>
    match md.lookup key with
    | none => bound ≠ .str ""
    | some val => val = .null ∨ val.pyLt bound ≠ .ok false ∧ val.pyStr X < bound.pyStr X
  | _ => False

/-! ## What the evaluators are met by -/

theorem anyIn_singleton (needle value : Json) :
    AnyIn needle [value] ↔ value.pyIn needle = .ok true := by
  unfold AnyIn Json.pyAny
  rcases value.pyIn needle with e | _ | _ <;> simp [Json.pyAny]

theorem isIn_deletes_iff {key : String} {needle : Json} {ops : List (String × Json)}
    (h : ops.lookup "$in" = some needle) :
    fieldMatches X md key (.obj ops) = .ok true ↔ FoundWhole X md key needle ∨
      key = "tags" ∧ (field md key).pyIn needle = .ok false ∧ PartIn needle (tagsOf md) := by
  unfold fieldMatches FoundWhole InTagsText PartIn AnyIn tagsOf
  dsimp only
  rw [h]
  dsimp only
  rcases (field md key).pyIn needle with e | _ | _
  · simp
  · by_cases htext : key.toList <:+: (((md.lookup "tags").getD (.arr [])).pyStr X).toList
    · simp [htext]
    · by_cases hkey : key = "tags"
      · subst hkey
        rw [if_neg htext, if_pos rfl]
        rcases ((md.lookup "tags").getD (.arr [])).pyIter with e | items
          <;> simp [-String.reduceToList, htext]
      · simp [htext, hkey]
  · simp

theorem isIn_queries_iff {key : String} {needle : Json} {ops : List (String × Json)}
    (h : ops.lookup "$in" = some needle) :
    fieldMet X md key (.obj ops) = .ok true ↔
      if key = "tags" then AnyIn needle (queryTags md)
        else (field md key).pyIn needle = .ok true := by
  unfold fieldMet AnyIn
  dsimp only
  rw [h]
  dsimp only
  split <;> rfl

theorem tagsOf_of_field {val : Json} (h : field md "tags" = val) (hnull : val ≠ .null) :
    tagsOf md = val := by
  unfold field at h
  unfold tagsOf
  rcases hl : md.lookup "tags" with _ | v
  · rw [hl] at h
    exact absurd h.symm hnull
  · rw [hl] at h
    exact h

theorem partIn_arr (needle : Json) (items : List Json) :
    PartIn needle (.arr items) ↔ AnyIn needle items := by
  unfold PartIn Json.pyIter
  simp

/-- A value that is no list and falsy has no parts. -/
theorem not_partIn_of_falsy (needle : Json) (harr : ∀ items, field md "tags" ≠ .arr items)
    (hfalsy : truthy (field md "tags") = false) : ¬ PartIn needle (tagsOf md) := by
  unfold field at harr hfalsy
  unfold PartIn tagsOf
  rintro ⟨items, hiter, hany⟩
  have hnil : items = [] := by
    rcases hl : md.lookup "tags" with _ | v
    · rw [hl] at hiter
      cases hiter
      rfl
    · rw [hl] at hiter harr hfalsy
      cases v with
      | str s =>
        have hs : s = "" := by simpa [truthy] using hfalsy
        rw [hs] at hiter
        cases hiter
        rfl
      | obj fields =>
        have hf : fields = [] := by simpa [truthy] using hfalsy
        rw [hf] at hiter
        cases hiter
        rfl
      | arr items => exact absurd rfl (harr items)
      | _ => cases hiter
  rw [hnil] at hany
  cases hany

/-- The tags are a list, or one value, or there are none. -/
theorem tags_cases (md : Metadata) :
    (∃ tags, field md "tags" = .arr tags) ∨
      (∀ tags, field md "tags" ≠ .arr tags) ∧ truthy (field md "tags") = true ∨
      (∀ tags, field md "tags" ≠ .arr tags) ∧ truthy (field md "tags") = false := by
  rcases htruthy : truthy (field md "tags") with _ | _ <;>
    by_cases harr : ∃ tags, field md "tags" = .arr tags <;> simp_all

section

variable (needle : Json)

theorem tags_list {tags : List Json} (h : field md "tags" = .arr tags) :
    queryTags md = tags ∧ (TagsDeleteOnly X md needle ↔
      ¬ AnyIn needle tags ∧ FoundWhole X md "tags" needle) ∧
    (TagsQueryOnly X md needle ↔
      AnyIn needle tags ∧ ∃ e, (field md "tags").pyIn needle = .error e) ∧
    (TagsUnmet X md needle ↔ ¬ FoundWhole X md "tags" needle ∧ ¬ AnyIn needle tags) := by
  unfold queryTags TagsDeleteOnly TagsQueryOnly TagsUnmet
  rw [h]
  exact ⟨rfl, .rfl, .rfl, .rfl⟩

theorem tags_value (harr : ∀ tags, field md "tags" ≠ .arr tags)
    (htruthy : truthy (field md "tags") = true) :
    queryTags md = [field md "tags"] ∧ (TagsDeleteOnly X md needle ↔
      (field md "tags").pyIn needle = .ok false ∧
        (InTagsText X md "tags" ∨ PartIn needle (field md "tags"))) ∧
    ¬ TagsQueryOnly X md needle ∧
    (TagsUnmet X md needle ↔ ¬ FoundWhole X md "tags" needle ∧
      ((field md "tags").pyIn needle = .ok false → ¬ PartIn needle (field md "tags"))) := by
  unfold queryTags TagsDeleteOnly TagsQueryOnly TagsUnmet
  generalize field md "tags" = val at harr htruthy
  cases val
  case arr tags => exact absurd rfl (harr tags)
  all_goals simp [htruthy]

theorem tags_none (harr : ∀ tags, field md "tags" ≠ .arr tags)
    (hfalsy : truthy (field md "tags") = false) :
    (AnyIn needle (queryTags md) ↔ UnderscoreIn md needle) ∧ (TagsDeleteOnly X md needle ↔
      ¬ UnderscoreIn md needle ∧ FoundWhole X md "tags" needle) ∧
    (TagsQueryOnly X md needle ↔
      UnderscoreIn md needle ∧ ¬ FoundWhole X md "tags" needle) ∧
    (TagsUnmet X md needle ↔ ¬ FoundWhole X md "tags" needle ∧ ¬ UnderscoreIn md needle) := by
  have hunder : (AnyIn needle (match field md "_tags" with
      | .arr tags => tags
      | other => if truthy other then [other] else [])) ↔ UnderscoreIn md needle := by
    unfold UnderscoreIn
    generalize field md "_tags" = other
    cases other
    case arr tags => rfl
    all_goals
      dsimp only
      split
      · rename_i htruthy
        rw [anyIn_singleton, and_iff_right htruthy]
      · rename_i htruthy
        exact iff_of_false nofun fun h => htruthy h.1
  unfold queryTags TagsDeleteOnly TagsQueryOnly TagsUnmet
  generalize field md "tags" = val at harr hfalsy
  cases val
  case arr tags => exact absurd rfl (harr tags)
  all_goals
    refine ⟨?_, by simp [hfalsy], by simp [hfalsy], by simp [hfalsy]⟩
    dsimp only
    rw [if_neg (by rw [hfalsy]; exact Bool.false_ne_true)]
    exact hunder

end

theorem tags_deletes_iff {ops : List (String × Json)} {needle : Json}
    (h : ops.lookup "$in" = some needle) : fieldMatches X md "tags" (.obj ops) = .ok true ↔
      ¬ TagsUnmet X md needle ∧ ¬ TagsQueryOnly X md needle := by
  rw [isIn_deletes_iff h, and_iff_right rfl]
  rcases tags_cases md with ⟨tags, hv⟩ | ⟨harr, htruthy⟩ | ⟨harr, hfalsy⟩
  · obtain ⟨-, -, hquery, hunmet⟩ := tags_list (X := X) needle hv
    rw [hquery, hunmet, tagsOf_of_field hv nofun, partIn_arr]
    unfold FoundWhole
    rcases (field md "tags").pyIn needle with e | _ | _ <;> simp; tauto
  · obtain ⟨-, -, hquery, hunmet⟩ := tags_value (X := X) needle harr htruthy
    have hnull : field md "tags" ≠ .null := fun h => by rw [h] at htruthy; cases htruthy
    rw [hunmet, and_iff_left hquery, tagsOf_of_field rfl hnull]
    tauto
  · obtain ⟨-, -, hquery, hunmet⟩ := tags_none (X := X) needle harr hfalsy
    have hpart := not_partIn_of_falsy needle harr hfalsy
    rw [hquery, hunmet]
    tauto

theorem tags_queries_iff {ops : List (String × Json)} {needle : Json}
    (h : ops.lookup "$in" = some needle) : fieldMet X md "tags" (.obj ops) = .ok true ↔
      ¬ TagsUnmet X md needle ∧ ¬ TagsDeleteOnly X md needle := by
  rw [isIn_queries_iff h, if_pos rfl]
  rcases tags_cases md with ⟨tags, hv⟩ | ⟨harr, htruthy⟩ | ⟨harr, hfalsy⟩
  · obtain ⟨htags, hdelete, -, hunmet⟩ := tags_list (X := X) needle hv
    rw [htags, hdelete, hunmet]
    tauto
  · obtain ⟨htags, hdelete, -, hunmet⟩ := tags_value (X := X) needle harr htruthy
    rw [htags, hdelete, hunmet, anyIn_singleton]
    unfold FoundWhole
    rcases (field md "tags").pyIn needle with e | _ | _ <;> simp
  · obtain ⟨htags, hdelete, -, hunmet⟩ := tags_none (X := X) needle harr hfalsy
    rw [htags, hdelete, hunmet]
    tauto

/-! The comparison of `$gte`. -/

theorem pyLt_null (bound : Json) : Json.pyLt .null bound ≠ .ok false := by
  cases bound <;> simp [Json.pyLt, Json.number]

theorem pyLt_empty_iff (bound : Json) : Json.pyLt (.str "") bound = .ok false ↔
    bound = .str "" := by
  cases bound
  case str s =>
    rw [Json.pyLt, Except.ok.injEq, decide_eq_false_iff_not, Json.str.injEq,
      String.lt_iff_toList_lt, ← String.toList_inj]
    cases s.toList <;> simp
  all_goals simp [Json.pyLt, Json.number]

theorem atLeast_deletes_iff {key : String} {ops : List (String × Json)} {bound : Json}
    (hin : ops.lookup "$in" = none) (h : ops.lookup "$gte" = some bound) :
    fieldMatches X md key (.obj ops) = .ok true ↔
      ((md.lookup key).getD (.str "")).pyLt bound = .ok false := by
  unfold fieldMatches
  dsimp only
  rw [hin, h]
  dsimp only
  rcases ((md.lookup key).getD (.str "")).pyLt bound with e | _ | _ <;> simp [Except.map]

theorem atLeast_queries_iff {key : String} {ops : List (String × Json)} {bound : Json}
    (hin : ops.lookup "$in" = none) (h : ops.lookup "$gte" = some bound) :
    fieldMet X md key (.obj ops) = .ok true ↔
      field md key ≠ .null ∧ ¬ (field md key).pyStr X < bound.pyStr X := by
  unfold fieldMet
  dsimp only
  rw [hin, h]
  dsimp only
  cases field md key <;> simp

theorem fieldMatches_iff (key : String) (cond : Json) :
    fieldMatches X md key cond = .ok true ↔
      ¬ Unmet X md key (.of cond) ∧ ¬ QueryOnly X md key (.of cond) := by
  cases cond
  case obj ops =>
    rcases hin : ops.lookup "$in" with _ | needle
    · rcases hgte : ops.lookup "$gte" with _ | bound
      · unfold fieldMatches Condition.of
        dsimp only
        rw [hin, hgte]
        rcases ops.lookup "$eq" with _ | other
        · rcases ops.lookup "$in_tags" with _ | needle <;> simp [Unmet, QueryOnly]
        · simp [Unmet, QueryOnly]
      · rw [atLeast_deletes_iff hin hgte, Condition.of_atLeast hin hgte, Unmet, QueryOnly]
        rcases md.lookup key with _ | val
        · simp [pyLt_empty_iff]
        · have hnull : val.pyLt bound = .ok false → val ≠ .null := fun h he =>
            pyLt_null bound (he ▸ h)
          simp only [Option.getD_some, Option.some.injEq, exists_eq_left']
          tauto
    · rw [Condition.of_isIn hin, Unmet, QueryOnly]
      by_cases hkey : key = "tags"
      · subst hkey
        rw [tags_deletes_iff hin, if_pos rfl, and_iff_right rfl]
      · rw [isIn_deletes_iff hin]
        simp [hkey]
  all_goals simp [fieldMatches, Condition.of, Unmet, QueryOnly]

theorem fieldMet_iff (key : String) (cond : Json) :
    fieldMet X md key cond = .ok true ↔
      ¬ Unmet X md key (.of cond) ∧ ¬ DeleteOnly X md key (.of cond) := by
  cases cond
  case obj ops =>
    rcases hin : ops.lookup "$in" with _ | needle
    · rcases hgte : ops.lookup "$gte" with _ | bound
      · unfold fieldMet Condition.of
        dsimp only
        rw [hin, hgte]
        rcases ops.lookup "$eq" with _ | other
        · rcases ops.lookup "$in_tags" with _ | needle
          · simp [Unmet, DeleteOnly]
          · simp only [Unmet, DeleteOnly, PartIn, AnyIn, tagsOf, not_false_eq_true,
              true_and, not_not]
            rcases ((md.lookup "tags").getD (.arr [])).pyIter with e | items <;> simp
        · simp [Unmet, DeleteOnly]
      · rw [atLeast_queries_iff hin hgte, Condition.of_atLeast hin hgte, Unmet, DeleteOnly, field]
        rcases md.lookup key with _ | val
        · simp
        · dsimp only [Option.getD_some]
          have hnull : val = .null → val.pyLt bound ≠ .ok false := fun he => he ▸ pyLt_null bound
          tauto
    · rw [Condition.of_isIn hin, isIn_queries_iff hin, Unmet, DeleteOnly]
      by_cases hkey : key = "tags"
      · subst hkey
        rw [← isIn_queries_iff hin, tags_queries_iff hin, if_pos rfl, if_pos rfl]
      · rw [if_neg hkey, if_neg hkey, if_neg hkey]
        unfold FoundWhole
        rcases (field md key).pyIn needle with e | _ | _ <;> simp
  all_goals simp [fieldMet, Condition.of, Unmet, DeleteOnly]

/-! ## All fields -/

/-- A field is met by neither, or none by one of them only, or there is one of either kind. -/
def Agree (X : Externals) (md : Metadata) (filters : Filter) : Prop :=
  (∃ f ∈ filters, Unmet X md f.1 (.of f.2)) ∨
    (∀ f ∈ filters, ¬ DeleteOnly X md f.1 (.of f.2) ∧ ¬ QueryOnly X md f.1 (.of f.2)) ∨
    (∃ f ∈ filters, DeleteOnly X md f.1 (.of f.2)) ∧ ∃ f ∈ filters, QueryOnly X md f.1 (.of f.2)

variable (X) in
/-- A filter is met by a document in a delete exactly if it is in a query, exactly under `Agree`. -/
theorem filters_agree_iff (md : Metadata) (filters : Filter) :
    (matchesFilter X md filters = .ok true ↔ parseFilter X md filters = .ok true) ↔
      Agree X md filters := by
  rw [matchesFilter, parseFilter, allFields_iff, allFields_iff]
  simp only [fieldMatches_iff, fieldMet_iff]
  by_cases hunmet : ∃ f ∈ filters, Unmet X md f.1 (.of f.2)
  · obtain ⟨f, hf, hf'⟩ := hunmet
    exact iff_of_true (iff_of_false (fun h => (h f hf).1 hf') fun h => (h f hf).1 hf')
      (.inl ⟨f, hf, hf'⟩)
  · -- a field that one of them only is met by keeps the document from the other
    have hmet : ∀ f ∈ filters, ¬ Unmet X md f.1 (.of f.2) := fun f hf hf' => hunmet ⟨f, hf, hf'⟩
    have hdelete : (∀ f ∈ filters, ¬ Unmet X md f.1 (.of f.2) ∧ ¬ QueryOnly X md f.1 (.of f.2)) ↔
        ¬ ∃ f ∈ filters, QueryOnly X md f.1 (.of f.2) := by
      simp only [not_exists, not_and]
      exact forall₂_congr fun f hf => and_iff_right (hmet f hf)
    have hquery : (∀ f ∈ filters, ¬ Unmet X md f.1 (.of f.2) ∧ ¬ DeleteOnly X md f.1 (.of f.2)) ↔
        ¬ ∃ f ∈ filters, DeleteOnly X md f.1 (.of f.2) := by
      simp only [not_exists, not_and]
      exact forall₂_congr fun f hf => and_iff_right (hmet f hf)
    have hneither : (∀ f ∈ filters, ¬ DeleteOnly X md f.1 (.of f.2) ∧
        ¬ QueryOnly X md f.1 (.of f.2)) ↔ (¬ ∃ f ∈ filters, DeleteOnly X md f.1 (.of f.2)) ∧
          ¬ ∃ f ∈ filters, QueryOnly X md f.1 (.of f.2) := by
      simp only [not_exists, not_and, ← forall₂_and]
    rw [Agree, or_iff_right hunmet, hdelete, hquery, hneither]
    generalize (∃ f ∈ filters, DeleteOnly X md f.1 (.of f.2)) = deletes
    generalize (∃ f ∈ filters, QueryOnly X md f.1 (.of f.2)) = queries
    tauto

/-- Plain values and `$eq` are safe on every document, and `$gte` on one that has a text where the
bound is a text. -/
theorem safe_filters_agree {filters : Filter} (h : ∀ f ∈ filters,
    (∃ value, Condition.of f.2 = .equal value) ∨
      ∃ s t, Condition.of f.2 = .atLeast (.str t) ∧ md.lookup f.1 = some (.str s)) :
    matchesFilter X md filters = .ok true ↔ parseFilter X md filters = .ok true := by
  rw [matchesFilter, parseFilter, allFields_iff, allFields_iff]
  refine forall₂_congr fun f hf => ?_
  rw [fieldMatches_iff, fieldMet_iff]
  rcases h f hf with ⟨value, hof⟩ | ⟨s, t, hof, hlookup⟩
  · rw [hof]
    exact .rfl
  · have hdelete : ¬ DeleteOnly X md f.1 (.atLeast (.str t)) := by
      simp [DeleteOnly, hlookup, Json.pyLt, Json.pyStr]
    have hquery : ¬ QueryOnly X md f.1 (.atLeast (.str t)) := by
      simp [QueryOnly, hlookup, Json.pyLt, Json.pyStr]
    rw [hof, and_iff_left hdelete, and_iff_left hquery]

/-- An operator that neither knows: the delete takes the document, the query does not show it. -/
theorem unknown_operator_deletes :
    matchesFilter fieldwise [("k", .int 1)] [("k", .obj [("$lt", .int 0)])] = .ok true ∧
      parseFilter fieldwise [("k", .int 1)] [("k", .obj [("$lt", .int 0)])] = .ok false :=
  ⟨rfl, rfl⟩

end Vsector.Query
