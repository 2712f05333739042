import Vsector.Impl.Query.Filter
import Vsector.Proof.Ingest.IndexMirror

/-!
# Filters on tags

A query looks for tags in the metadata that the index has of a record. Every
way into the index, an upsert as well as a restart, hands it the metadata
alone, and the tags of a record are another field of it. A filter finds all
tags of a record exactly if its metadata name them too (`finds_tags_iff`);
where every upsert has such a record, no query for tags leaves out a record
that is shown and has one of them (`tag_filters_find_records`).
-/

namespace Vsector.Ingest

open Framework Models Storage Index Query

variable {X : Externals}

/-! ## One record -/

/-- `{"tags": {"$in": tags}}`. -/
def tagsIn (tags : List String) : Filter := [("tags", .obj [("$in", .arr (tags.map .str))])]

/-- The metadata name the tags of the record. -/
def TagsNamed (r : VectorRecord) : Prop :=
  ∀ t ∈ r.tags, (queryTags r.metadata).any (Json.isStr t) = true

instance (r : VectorRecord) : Decidable (TagsNamed r) :=
  inferInstanceAs (Decidable (∀ t ∈ r.tags, _))

theorem isStr_eq_pyEq (t : String) (j : Json) : j.isStr t = Json.pyEq (.str t) j := by
  cases j
  case str s => exact Bool.beq_comm
  all_goals rfl

theorem pyAny_pyIn (items tags : List Json) : Json.pyAny (·.pyIn (.arr items)) tags =
    .ok (tags.any fun tag => items.any fun item => item.pyEq tag) := by
  induction tags with
  | nil => rfl
  | cons tag tags ih =>
    rw [Json.pyAny, Json.pyIn, List.any_cons]
    rcases items.any fun item => item.pyEq tag with _ | _
    · exact ih
    · rfl

/-- A filter on tags is met where one of them is named. -/
theorem tagsIn_met_iff (md : Metadata) (tags : List String) :
    parseFilter X md (tagsIn tags) = .ok true ↔
      ∃ t ∈ tags, (queryTags md).any (Json.isStr t) = true := by
  have hmet : fieldMet X md "tags" (.obj [("$in", .arr (tags.map .str))]) =
      .ok ((queryTags md).any fun tag => (tags.map Json.str).any fun item => item.pyEq tag) :=
        pyAny_pyIn _ _
  have hall : parseFilter X md (tagsIn tags) =
      .ok ((queryTags md).any fun tag => (tags.map Json.str).any fun item => item.pyEq tag) := by
    rw [parseFilter, tagsIn, allFields, allFields, hmet]
    rcases (queryTags md).any fun tag => (tags.map Json.str).any fun item => item.pyEq tag <;> rfl
  rw [hall]
  simp only [Except.ok.injEq, List.any_eq_true, List.any_map, Function.comp_apply, isStr_eq_pyEq]
  constructor
  · rintro ⟨tag, htag, t, ht, heq⟩
    exact ⟨t, ht, tag, htag, heq⟩
  · rintro ⟨t, ht, tag, htag, heq⟩
    exact ⟨tag, htag, t, ht, heq⟩

/-- Every filter with a tag of the record is met by its metadata exactly if they name all of
them. -/
theorem finds_tags_iff (r : VectorRecord) :
    (∀ tags, (∃ t ∈ r.tags, t ∈ tags) → parseFilter X r.metadata (tagsIn tags) = .ok true) ↔
      TagsNamed r := by
  simp only [tagsIn_met_iff]
  constructor
  · intro h t ht
    obtain ⟨t', ht', hnamed⟩ := h [t] ⟨t, ht, List.mem_singleton_self t⟩
    cases List.mem_singleton.mp ht'
    exact hnamed
  · rintro h tags ⟨t, ht, htags⟩
    exact ⟨t, htags, h t ht⟩

/-! ## Runs -/

/-- A query for tags leaves out no record that is shown and has one of them: the index has a row of
it that the filter accepts. -/
def TagsFindable (X : Externals) (ctx : ShardContext FlatIndex) : Prop :=
  ∀ (tags : List String) (r : VectorRecord), ctx.visible X (idOf r) = .ok (some r) →
    (∃ t ∈ r.tags, t ∈ tags) →
    ∃ row ∈ ctx.index.rows, row.id = idOf r ∧ parseFilter X row.metadata (tagsIn tags) = .ok true

/-- The condition on an operation: the metadata of an upserted record name its tags, besides
`ShardOk`. -/
def TagOk (X : Externals) (ctx : ShardContext FlatIndex) (op : ShardOp) : Prop :=
  ShardOk X ctx op ∧ ∀ r env, op = .upsert r env → TagsNamed r

/-- The index has a row of every record that the last operations leave, whose metadata name its
tags. -/
def Tagged (rows : List FlatRow) (last : String → Option Op) : Prop :=
  ∀ r, last (idOf r) = some (.upsert r) → rowOf r ∈ rows ∧ TagsNamed r

variable {ctx ctx' : ShardContext FlatIndex} {last : String → Option Op}

theorem Tagged.findable (h : Tagged ctx.index.rows last) (hk : Kept X ctx last) :
    TagsFindable X ctx := by
  intro tags r hr ht
  rw [hk.shows.visible_eq] at hr
  have hl : last (idOf r) = some (.upsert r) := by
    rcases hl : last (idOf r) with _ | r' | id
    · rw [hl] at hr
      cases hr
    · rw [hl] at hr
      cases hr
      rfl
    · rw [hl] at hr
      cases hr
  obtain ⟨hrow, hnamed⟩ := h r hl
  exact ⟨rowOf r, hrow, rfl, (finds_tags_iff r).mpr hnamed tags ht⟩

/-- An upsert keeps all rows and adds that of its record. -/
theorem Tagged.upsert {rows : List FlatRow} (h : Tagged rows last) {r : VectorRecord}
    (hr : TagsNamed r) :
    Tagged (rows ++ [rowOf r]) (record last (.upsert r)) := by
  intro r' hr'
  rw [record_apply] at hr'
  split at hr'
  · cases hr'
    exact ⟨List.mem_append_right _ (List.mem_singleton_self _), hr⟩
  · obtain ⟨hrow, hnamed⟩ := h r' hr'
    exact ⟨List.mem_append_left _ hrow, hnamed⟩

/-- A deletion takes the rows of its id. -/
theorem Tagged.delete {rows : List FlatRow} (h : Tagged rows last) (id : String) :
    Tagged (rows.filter fun row => row.id ≠ id) (record last (.delete id)) := by
  intro r hr
  rw [record_apply] at hr
  split at hr
  · cases hr
  · rename_i hid
    obtain ⟨hrow, hnamed⟩ := h r hr
    have hne : (rowOf r).id ≠ id :=
      fun he => hid ⟨he, fun hempty => idOf_ne_empty r (he.trans hempty)⟩
    exact ⟨List.mem_filter.mpr ⟨hrow, decide_eq_true hne⟩, hnamed⟩

theorem tagged_step (hX : X.Lawful) {op : ShardOp}
    (h : ∃ last, Kept X ctx last ∧ Tagged ctx.index.rows last) (hc : TagOk X ctx op)
    (hs : shardStep X ctx op = some ctx') :
    ∃ last, Kept X ctx' last ∧ Tagged ctx'.index.rows last := by
  obtain ⟨last, hk, htagged⟩ := h
  cases op with
  | upsert r env =>
    refine ⟨_, (hk.upsert hX hc.1 hs).1, ?_⟩
    rw [rows_upsert hX hk hc.1 hs]
    exact htagged.upsert (hc.2 r env rfl)
  | delete id =>
    refine ⟨_, (hk.delete hs).1, ?_⟩
    rw [rows_delete hs]
    exact htagged.delete id
  | flush env =>
    refine ⟨_, (hk.flush hX hc.1 hs).1, ?_⟩
    rw [rows_flush hX hk hc.1 hs]
    exact htagged
  | restart =>
    obtain ⟨ctx₁, h₁, hk', -, -⟩ := hk.restart hc.1
    have hrows := RowsOf.restart hk hc.1 h₁
    simp only [shardStep, h₁] at hs
    cases hs
    exact ⟨last, hk', fun r hr => ⟨(hrows.rows _).mpr ⟨r, hr, rfl⟩, (htagged r hr).2⟩⟩

/-- After any run under the condition, no query for tags leaves out a record that is shown and has
one of them. -/
theorem tag_filters_find_records (hX : X.Lawful) (shard : Sharding.Shard) (ns : Namespace)
    (threshold : Nat) (ops : List ShardOp) (ctx₀ ctx : ShardContext FlatIndex)
    (h₀ : ShardContext.init X shard ns threshold ∅ = .ok ctx₀)
    (hr : run (shardStep X) ctx₀ ops = some ctx) (hc : Along (shardStep X) (TagOk X) ctx₀ ops) :
    TagsFindable X ctx := by
  cases h₀
  obtain ⟨last, hk, htagged⟩ :=
    invariant (I := fun ctx => ∃ last, Kept X ctx last ∧ Tagged ctx.index.rows last)
    (fun _ _ _ => tagged_step hX) ⟨fun _ => none, kept_fresh shard ns threshold,
      fun _ h => by cases h⟩ hc hr
  exact htagged.findable hk

section

private def tagShard : Sharding.Shard := ⟨"shard-0", "docs", "node-1", .active, 0, 50000000, [], 0⟩

private def tagNamespace : Namespace := ⟨"docs", 1, .cosine, .flat, 1⟩

/-- A record with the tag `x`. -/
private def taggedX (metadata : List (String × Json)) : VectorRecord :=
  { unitRecord zeroId metadata with tags := ["x"] }

private def tagRun (ops : List ShardOp) : Option (ShardContext FlatIndex) :=
  run (shardStep fieldwise) (.fresh tagShard tagNamespace 100000) ops

private def tagsNamedBy : ShardOp → Bool
  | .upsert r _ => decide (TagsNamed r)
  | .delete _ | .flush _ | .restart => true

private def TagOkInMemory (ctx : ShardContext FlatIndex) (op : ShardOp) : Prop :=
  ShardOkInMemory ctx op ∧ tagsNamedBy op

private instance (ctx : ShardContext FlatIndex) (op : ShardOp) : Decidable (TagOkInMemory ctx op) :=
  inferInstanceAs (Decidable (ShardOkInMemory ctx op ∧ tagsNamedBy op = true))

private theorem tagOk_of_inMemory (ctx : ShardContext FlatIndex) (op : ShardOp)
    (h : TagOkInMemory ctx op) :
    TagOk fieldwise ctx op := by
  refine ⟨shardOk_of_inMemory ctx op h.1, fun r env he => ?_⟩
  subst he
  exact of_decide_eq_true h.2

/-- A record whose metadata name its tag, written twice and recovered. -/
theorem named_tag_found : ∃ ctx : ShardContext FlatIndex,
    tagRun [.upsert (taggedX [("tags", .arr [.str "y", .str "x"])]) ⟨1, 1, none⟩, .restart,
      .upsert (taggedX [("tags", .str "x")]) ⟨2, 1, none⟩] = some ctx ∧
        TagsFindable fieldwise ctx :=
  ⟨_, rfl, tag_filters_find_records fieldwise_lawful tagShard tagNamespace 100000
    [.upsert (taggedX [("tags", .arr [.str "y", .str "x"])]) ⟨1, 1, none⟩, .restart,
      .upsert (taggedX [("tags", .str "x")]) ⟨2, 1, none⟩] _ _ rfl rfl
        (.mono tagOk_of_inMemory (by decide +kernel))⟩

/-- A record with a tag and no metadata: a query for the tag leaves it out. -/
theorem tag_not_found : ∃ ctx : ShardContext FlatIndex,
    tagRun [.upsert (taggedX []) ⟨1, 1, none⟩] = some ctx ∧ ¬ TagsFindable fieldwise ctx := by
  refine ⟨_, rfl, fun h => ?_⟩
  obtain ⟨row, hrow, -, hmet⟩ :=
    h ["x"] (taggedX []) rfl ⟨"x", List.mem_singleton_self _, List.mem_singleton_self _⟩
  cases List.mem_singleton.mp hrow
  cases hmet

end

end Vsector.Ingest
