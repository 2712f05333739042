import Vsector.Framework.TopK
import Vsector.Proof.Index.Ann

/-!
# Filtered search

An `HNSWIndex` whose ids are all different holds the rows that were added and
not deleted since (`rowsOf`), one label for each (`Holds`, `holds_run`). A
search with a filter asks the library for the `3 * top_k` nearest of them and
filters these, so it returns the nearest rows that pass exactly if enough of
the `3 * top_k` nearest pass (`filtered_search_iff`).
-/

namespace Vsector.Index

open Framework Models

section

variable {η ρ : Type} {accept : η → Option ρ} {topK : Nat}

theorem collect_append_eq_take {hits : List η} {res : List ρ} (h : res.length < topK) :
    collect accept topK hits res = (res ++ hits.filterMap accept).take topK := by
  induction hits generalizing res with
  | nil => rw [collect, List.filterMap_nil, List.append_nil, List.take_of_length_le (le_of_lt h)]
  | cons hit hits ih =>
    rw [collect]
    rcases ha : accept hit with _ | r
    · rw [List.filterMap_cons_none ha]
      exact ih h
    · rw [List.filterMap_cons_some ha, List.append_cons]
      dsimp only
      split
      · rename_i hfull
        have hlength : (res ++ [r]).length = topK := by
          rw [List.length_append, List.length_singleton] at hfull ⊢
          omega
        rw [← hlength, List.take_left]
      · rename_i hroom
        exact ih (not_le.mp hroom)

/-- The loop stops at the first `topK` hits that are accepted. -/
theorem collect_eq_take (h : 1 ≤ topK) (hits : List η) :
    collect accept topK hits [] = (hits.filterMap accept).take topK := by
  rw [collect_append_eq_take (by exact h), List.nil_append]

end

/-- A row with its label. -/
abbrev Item := FlatRow × Nat

variable {ν K : Type} [Field K] [LinearOrder K]

/-- What is documented of `hnswlib`, in terms of the labels of an index that are live, with their
vectors, and of the distances in its space. -/
structure Hnswlib.Documented (H : Hnswlib ν K) (live : ν → List (List PyFloat × Nat))
    (spaceOf : ν → Space) (dist : Space → List PyFloat → List PyFloat → K) : Prop where
  live_init : ∀ space dim most ef m, live (H.init space dim most ef m) = []
  live_setEf : ∀ index ef, live (H.setEf index ef) = live index
  live_resizeIndex : ∀ index n, (H.resizeIndex index n).2 = .ok () →
    live (H.resizeIndex index n).1 = live index
  live_addItems : ∀ index items, (items.map Prod.snd).Nodup →
    (∀ item ∈ items, item.2 ∉ (live index).map Prod.snd) →
    (H.addItems index items).2 = .ok () → live (H.addItems index items).1 = live index ++ items
  live_markDeleted : ∀ index label, live (H.markDeleted index label) = (live index).filter
    fun item => item.2 ≠ label
  space_init : ∀ space dim most ef m, spaceOf (H.init space dim most ef m) = space
  space_setEf : ∀ index ef, spaceOf (H.setEf index ef) = spaceOf index
  space_resizeIndex : ∀ index n, spaceOf (H.resizeIndex index n).1 = spaceOf index
  space_addItems : ∀ index items, spaceOf (H.addItems index items).1 = spaceOf index
  space_markDeleted : ∀ index label, spaceOf (H.markDeleted index label) = spaceOf index
  /-- The `k` nearest live labels, nearest first. -/
  knnQuery : ∀ index query k, 1 ≤ k → k ≤ (live index).length →
    ∃ hits, H.knnQuery index query k = .ok hits ∧
    Top (fun hit => -hit.2) k ((live index).map fun item =>
      (item.2, dist (spaceOf index) query item.1)) hits

namespace HNSWIndex

variable {H : Hnswlib ν K} {live : ν → List (List PyFloat × Nat)} {spaceOf : ν → Space}
  {dist : Space → List PyFloat → List PyFloat → K} {i : HNSWIndex ν} {content : List Item}

/-! ## What an index holds -/

/-- The maps of the index are those of the items. -/
structure Maps (i : HNSWIndex ν) (content : List Item) : Prop where
  labels : (content.map Prod.snd).Nodup
  ids : (content.map fun item => item.1.id).Nodup
  labelToId : ∀ item ∈ content, i.labelToId.get? item.2 = some item.1.id
  metadatas : ∀ item ∈ content, i.metadatas.get? item.2 = some item.1.metadata
  idToLabel : ∀ id label, i.idToLabel.get? id = some label ↔
    ∃ item ∈ content, item.1.id = id ∧ item.2 = label

/-- The index holds the items, and the library their vectors. -/
structure Holds (live : ν → List (List PyFloat × Nat)) (spaceOf : ν → Space) (i : HNSWIndex ν)
    (content : List Item) :
    Prop extends Maps i content where
  index : live i.index = content.map fun item => (item.1.vector, item.2)
  space : spaceOf i.index = i.space
  labels_lt : ∀ item ∈ content, item.2 < i.nextLabel
  count : i.count = content.length

theorem Maps.bindLabel {item : Item} (h : Maps i content) (hlabel : item.2 ∉ content.map Prod.snd)
    (hid : item.1.id ∉ content.map fun item => item.1.id) :
    Maps (i.bindLabel item) (content ++ [item]) := by
  have hlabels : ∀ a ∈ content, a.2 ≠ item.2 := fun a ha he => hlabel (he ▸ List.mem_map_of_mem ha)
  have hids : ∀ a ∈ content, a.1.id ≠ item.1.id := fun a ha he =>
    hid (he ▸ List.mem_map_of_mem (f := fun item : Item => item.1.id) ha)
  refine ⟨?_, ?_, fun a ha => ?_, fun a ha => ?_, fun id label => ?_⟩
  · rw [List.map_append]
    exact h.labels.append (List.nodup_singleton _) (List.disjoint_singleton.mpr hlabel)
  · rw [List.map_append]
    exact h.ids.append (List.nodup_singleton _) (List.disjoint_singleton.mpr hid)
  · rcases List.mem_append.mp ha with ha | ha
    · exact (Dict.get?_set_ne _ _ (hlabels a ha)).trans (h.labelToId a ha)
    · rw [List.mem_singleton.mp ha]
      exact Dict.get?_set_self _ _ _
  · rcases List.mem_append.mp ha with ha | ha
    · exact (Dict.get?_set_ne _ _ (hlabels a ha)).trans (h.metadatas a ha)
    · rw [List.mem_singleton.mp ha]
      exact Dict.get?_set_self _ _ _
  · show (i.idToLabel.set item.1.id item.2).get? id = some label ↔ _
    simp only [List.mem_append, List.mem_singleton, or_and_right, exists_or, exists_eq_left]
    rw [Dict.get?_set, ← h.idToLabel id label]
    split
    · rename_i he
      have hnone : i.idToLabel.get? id ≠ some label := fun hsome => by
        obtain ⟨a, ha, haid, -⟩ := (h.idToLabel id label).mp hsome
        exact hids a ha (haid.trans he)
      rw [or_iff_right hnone, Option.some_inj]
      exact ⟨fun hl => ⟨he.symm, hl⟩, fun hl => hl.2⟩
    · rename_i hne
      exact (or_iff_left fun hl => hne hl.1.symm).symm

theorem Maps.bindLabels {items : List Item} (h : Maps i content)
    (hlabels : (items.map Prod.snd).Nodup) (hids : (items.map fun item => item.1.id).Nodup)
    (hnewLabels : ∀ item ∈ items, item.2 ∉ content.map Prod.snd)
    (hnewIds : ∀ item ∈ items, item.1.id ∉ content.map fun item => item.1.id) :
    Maps (items.foldl HNSWIndex.bindLabel i) (content ++ items) := by
  induction items generalizing i content with
  | nil =>
    rw [List.append_nil]
    exact h
  | cons item items ih =>
    obtain ⟨hlabel, hlabels⟩ := List.nodup_cons.mp hlabels
    obtain ⟨hid, hids⟩ := List.nodup_cons.mp hids
    have hbound := h.bindLabel (hnewLabels item List.mem_cons_self)
      (hnewIds item List.mem_cons_self)
    rw [List.append_cons]
    refine ih hbound hlabels hids (fun a ha hmem => ?_) fun a ha hmem => ?_
    · rw [List.map_append, List.mem_append] at hmem
      refine hmem.elim (hnewLabels a (List.mem_cons_of_mem _ ha)) fun hmem => hlabel ?_
      rw [← List.mem_singleton.mp hmem]
      exact List.mem_map_of_mem ha
    · rw [List.map_append, List.mem_append] at hmem
      refine hmem.elim (hnewIds a (List.mem_cons_of_mem _ ha)) fun hmem => hid ?_
      have he : a.1.id = item.1.id := List.mem_singleton.mp hmem
      show item.1.id ∈ items.map fun item => item.1.id
      rw [← he]
      exact List.mem_map_of_mem (f := fun item : Item => item.1.id) ha

theorem foldl_bindLabel_other (items : List Item) (i : HNSWIndex ν) :
    (items.foldl bindLabel i).index = i.index ∧ (items.foldl bindLabel i).space = i.space ∧
      (items.foldl bindLabel i).count = i.count ∧
      (items.foldl bindLabel i).nextLabel = i.nextLabel := by
  induction items generalizing i with
  | nil => exact ⟨rfl, rfl, rfl, rfl⟩
  | cons item items ih => exact ih (i.bindLabel item)

/-! ## Steps -/

/-- The rows an index holds after an operation. -/
def rowsStep (rows : List FlatRow) : AnnOp → List FlatRow
  | .add new => rows ++ new
  | .delete ids => rows.filter fun row => row.id ∉ ids
  | .search .. => rows

/-- The rows that were added and not deleted since. -/
def rowsOf (ops : List AnnOp) : List FlatRow := ops.foldl rowsStep []

/-- An `add` is of new ids, and the library takes it. -/
def Adds (H : Hnswlib ν K) (i : HNSWIndex ν) (op : AnnOp) : Prop :=
  AddsAbsent i op ∧ ∀ rows, op = .add rows → (i.add H rows).2 = .ok ()

theorem holds_create (hH : H.Documented live spaceOf dist) (dimension : Nat)
    (metric : DistanceMetric) (m efConstruction efSearch maxElements : Nat) :
    Holds live spaceOf (create H dimension metric m efConstruction efSearch maxElements) [] where
  labels := List.nodup_nil
  ids := List.nodup_nil
  labelToId _ h := absurd h List.not_mem_nil
  metadatas _ h := absurd h List.not_mem_nil
  idToLabel _ _ := iff_of_false (fun h => by cases h) fun ⟨_, h, _⟩ => absurd h List.not_mem_nil
  index := (hH.live_setEf _ _).trans (hH.live_init _ _ _ _ _)
  space := (hH.space_setEf _ _).trans (hH.space_init _ _ _ _ _)
  labels_lt _ h := absurd h List.not_mem_nil
  count := rfl

theorem holds_ensureCapacity (hH : H.Documented live spaceOf dist)
    (h : Holds live spaceOf i content) (need : Nat) (hok : (i.ensureCapacity H need).2 = .ok ()) :
    Holds live spaceOf (i.ensureCapacity H need).1 content := by
  unfold ensureCapacity at hok ⊢
  dsimp only at hok ⊢
  split
  · rename_i hfull
    rw [if_pos hfull] at hok
    exact ⟨⟨h.labels, h.ids, h.labelToId, h.metadatas, h.idToLabel⟩,
      (hH.live_resizeIndex _ _ hok).trans h.index,
      (hH.space_resizeIndex _ _).trans h.space, h.labels_lt, h.count⟩
  · exact h

omit [Field K] [LinearOrder K] in
/-- What `add` leaves where the library takes the rows. -/
theorem add_of_ok {rows : List FlatRow} (hok : (i.add H rows).2 = .ok ()) :
    ∃ j index, i.ensureCapacity H rows.length = (j, .ok ()) ∧
      H.addItems j.index ((rows.zip (List.range' j.nextLabel rows.length)).map fun item =>
        (item.1.vector, item.2)) =
        (index, .ok ()) ∧
      (i.add H rows).1 =
        { (rows.zip (List.range' j.nextLabel rows.length)).foldl bindLabel { j with
          index := index } with
          nextLabel := j.nextLabel + rows.length
          count := j.count + rows.length } := by
  unfold add at hok ⊢
  rcases hcapacity : i.ensureCapacity H rows.length with ⟨j, exc | ⟨⟩⟩
  · rw [hcapacity] at hok
    cases hok
  · rw [hcapacity] at hok
    dsimp only at hok ⊢
    rcases hitems : H.addItems j.index _ with ⟨index, exc | ⟨⟩⟩
    · rw [hitems] at hok
      cases hok
    · obtain ⟨-, -, hcount, hnext⟩ :=
        foldl_bindLabel_other (rows.zip (List.range' j.nextLabel rows.length))
          { j with index := index }
      refine ⟨j, index, rfl, hitems, ?_⟩
      dsimp only
      rw [hcount, hnext]

theorem holds_add (hH : H.Documented live spaceOf dist) (h : Holds live spaceOf i content)
    {rows : List FlatRow} (hadds : Adds H i (.add rows)) :
    ∃ content', Holds live spaceOf (i.add H rows).1 content' ∧
      content'.map Prod.fst = content.map Prod.fst ++ rows := by
  obtain ⟨⟨hids, habsent⟩, hok⟩ := hadds
  obtain ⟨j, index, hcapacity, hitems, hadd⟩ := add_of_ok (hok rows rfl)
  have hj := holds_ensureCapacity hH h rows.length (by rw [hcapacity])
  rw [hcapacity] at hj
  rw [hadd]
  let items : List Item := rows.zip (List.range' j.nextLabel rows.length)
  have hlabels : items.map Prod.snd = List.range' j.nextLabel rows.length :=
    List.map_snd_zip (by simp)
  have hrows : items.map Prod.fst = rows := List.map_fst_zip (by simp)
  have hfresh : ∀ item ∈ items, j.nextLabel ≤ item.2 ∧ item.2 < j.nextLabel + rows.length :=
    fun item hitem =>
    List.mem_range'_1.mp (hlabels ▸ List.mem_map_of_mem hitem)
  have hnodup : (items.map Prod.snd).Nodup := hlabels ▸ List.nodup_range'
  have hnewLabels : ∀ item ∈ items, item.2 ∉ content.map Prod.snd := by
    intro item hitem hmem
    obtain ⟨a, ha, he⟩ := List.mem_map.mp hmem
    have hlt := hj.labels_lt a ha
    have hge := (hfresh item hitem).1
    dsimp only at hlt
    omega
  have hnewIds : ∀ item ∈ items, item.1.id ∉ content.map fun item => item.1.id := by
    intro item hitem hmem
    obtain ⟨a, ha, he⟩ := List.mem_map.mp hmem
    have hnone := habsent item.1 (List.of_mem_zip hitem).1
    rw [(h.idToLabel item.1.id a.2).mpr ⟨a, ha, he, rfl⟩] at hnone
    cases hnone
  have hmaps : Maps (items.foldl bindLabel { j with index := index }) (content ++ items) :=
    Maps.bindLabels (i := { j with index := index })
      ⟨hj.labels, hj.ids, hj.labelToId, hj.metadatas, hj.idToLabel⟩ hnodup
        ((map_zip_id rows j.nextLabel).symm ▸ hids)
      hnewLabels hnewIds
  obtain ⟨hindex, hspace, -, -⟩ := foldl_bindLabel_other items { j with index := index }
  have hlive := hH.live_addItems j.index (items.map fun item => (item.1.vector, item.2))
    (by rw [List.map_map]; exact hnodup)
    (fun a ha hmem => by
      obtain ⟨item, hitem, rfl⟩ := List.mem_map.mp ha
      rw [hj.index, List.map_map] at hmem
      exact hnewLabels item hitem hmem)
    (by rw [hitems])
  have hspaces := hH.space_addItems j.index (items.map fun item => (item.1.vector, item.2))
  rw [hitems] at hlive hspaces
  refine ⟨content ++ items,
    ⟨⟨hmaps.labels, hmaps.ids, hmaps.labelToId, hmaps.metadatas, hmaps.idToLabel⟩, ?_, ?_,
    fun item hitem => ?_, ?_⟩, by rw [List.map_append, hrows]⟩
  · show live (items.foldl bindLabel { j with index := index }).index = _
    rw [hindex, hlive, hj.index, List.map_append]
  · show spaceOf (items.foldl bindLabel { j with index := index }).index =
      (items.foldl bindLabel { j with index := index }).space
    rw [hindex, hspace, hspaces, hj.space]
  · show item.2 < j.nextLabel + rows.length
    rcases List.mem_append.mp hitem with hitem | hitem
    · have hlt := hj.labels_lt item hitem
      dsimp only at hlt
      omega
    · exact (hfresh item hitem).2
  · show j.count + rows.length = (content ++ items).length
    have hlength : items.length = rows.length := by rw [← hrows, List.length_map]
    rw [List.length_append, hlength]
    exact congrArg (· + rows.length) hj.count

theorem holds_deleteId (hH : H.Documented live spaceOf dist) (h : Holds live spaceOf i content)
    (id : String) :
    Holds live spaceOf (i.deleteId H id) (content.filter fun item => item.1.id ≠ id) := by
  unfold deleteId
  rcases hid : i.idToLabel.get? id with _ | label
  · have hall : content.filter (fun item => item.1.id ≠ id) = content := by
      refine List.filter_eq_self.mpr fun item hitem => decide_eq_true fun he => ?_
      rw [(h.idToLabel id item.2).mpr ⟨item, hitem, he, rfl⟩] at hid
      cases hid
    rw [hall]
    exact h
  · obtain ⟨item, hitem, hitemId, hitemLabel⟩ := (h.idToLabel id label).mp hid
    -- the label is that of the id, and of no other
    have hsame : ∀ a ∈ content, a.1.id = id ↔ a.2 = label := fun a ha => by
      rw [← hitemId, ← hitemLabel]
      constructor
      · intro he
        rw [List.inj_on_of_nodup_map h.ids ha hitem he]
      · intro he
        rw [List.inj_on_of_nodup_map h.labels ha hitem he]
    have hmem : ∀ a, a ∈ content.filter (fun item => item.1.id ≠ id) ↔
        a ∈ content ∧ a.1.id ≠ id := fun a => by
      rw [List.mem_filter, decide_eq_true_iff]
    refine ⟨⟨h.labels.sublist (List.filter_sublist.map _),
      h.ids.sublist (List.filter_sublist.map _), fun a ha => ?_,
      fun a ha => ?_, fun b l => ?_⟩, ?_, (hH.space_markDeleted _ _).trans h.space,
        fun a ha => ?_, ?_⟩
    · obtain ⟨ha, hne⟩ := (hmem a).mp ha
      exact (Dict.get?_pop_ne _ (mt (hsame a ha).mpr hne)).trans (h.labelToId a ha)
    · obtain ⟨ha, hne⟩ := (hmem a).mp ha
      exact (Dict.get?_pop_ne _ (mt (hsame a ha).mpr hne)).trans (h.metadatas a ha)
    · show (i.idToLabel.pop id).get? b = some l ↔ _
      rw [Dict.get?_pop]
      split
      · rename_i hb
        refine iff_of_false (fun hl => by cases hl) ?_
        rintro ⟨a, ha, hab, -⟩
        exact ((hmem a).mp ha).2 (hab.trans hb)
      · rename_i hb
        rw [h.idToLabel b l]
        constructor
        · rintro ⟨a, ha, hab, hal⟩
          exact ⟨a, (hmem a).mpr ⟨ha, hab ▸ hb⟩, hab, hal⟩
        · rintro ⟨a, ha, hab, hal⟩
          exact ⟨a, ((hmem a).mp ha).1, hab, hal⟩
    · show live (H.markDeleted i.index label) = _
      rw [hH.live_markDeleted, h.index, List.filter_map]
      refine congrArg _ (List.filter_congr fun a ha => ?_)
      exact decide_eq_decide.mpr (not_congr (hsame a ha).symm)
    · exact h.labels_lt a ((hmem a).mp ha).1
    · show i.count - 1 = _
      have hids : (content.filter fun item => item.1.id ≠ id).map (fun item => item.1.id) =
          (content.map fun item => item.1.id).erase id := by
        rw [h.ids.erase_eq_filter, List.filter_map]
        refine congrArg _ (List.filter_congr fun a _ => ?_)
        by_cases ha : a.1.id = id <;> simp [ha]
      have hlength := congrArg List.length hids
      rw [List.length_map, List.length_erase_of_mem (List.mem_map.mpr ⟨item, hitem, hitemId⟩),
        List.length_map] at hlength
      rw [hlength, h.count]

theorem holds_delete (hH : H.Documented live spaceOf dist) (h : Holds live spaceOf i content)
    (ids : List String) :
    Holds live spaceOf (i.delete H ids) (content.filter fun item => item.1.id ∉ ids) := by
  unfold delete
  induction ids generalizing i content with
  | nil =>
    rw [List.filter_eq_self.mpr fun item _ => decide_eq_true List.not_mem_nil]
    exact h
  | cons id ids ih =>
    have hrest := ih (holds_deleteId hH h id)
    rw [List.filter_filter] at hrest
    rw [List.foldl_cons]
    refine (List.filter_congr fun item _ => ?_) ▸ hrest
    simp [not_or, Bool.and_comm]

theorem holds_search (hH : H.Documented live spaceOf dist) (h : Holds live spaceOf i content)
    (query : List PyFloat) (topK : Nat) (efSearch : Option Nat)
    (filterFn : Option (Metadata → Bool)) :
    Holds live spaceOf (i.search H query topK efSearch filterFn).1 content := by
  cases efSearch with
  | none => exact h
  | some ef =>
    exact ⟨⟨h.labels, h.ids, h.labelToId, h.metadatas, h.idToLabel⟩,
      (hH.live_setEf _ _).trans h.index, (hH.space_setEf _ _).trans h.space, h.labels_lt, h.count⟩

theorem holds_step (hH : H.Documented live spaceOf dist) (h : Holds live spaceOf i content)
    {op : AnnOp} (hadds : Adds H i op) :
    ∃ content', Holds live spaceOf (i.step H op) content' ∧
      content'.map Prod.fst = rowsStep (content.map Prod.fst) op := by
  cases op with
  | add rows => exact holds_add hH h hadds
  | delete ids =>
    refine ⟨_, holds_delete hH h ids, ?_⟩
    rw [rowsStep, List.filter_map]
    rfl
  | search query topK efSearch nprobe filterFn =>
    exact ⟨content, holds_search hH h query topK efSearch filterFn, rfl⟩

/-- An index holds the rows that were added and not deleted since. -/
theorem holds_run (hH : H.Documented live spaceOf dist) (h : Holds live spaceOf i [])
    {ops : List AnnOp} (hadds : Along (total (step H)) (Adds H) i ops) :
    ∃ content, Holds live spaceOf (ops.foldl (step H) i) content ∧
      content.map Prod.fst = rowsOf ops := by
  refine foldl_invariant (I := fun ops j => ∃ content, Holds live spaceOf j content ∧
    content.map Prod.fst = rowsOf ops)
    (fun ops j op hj hop => ?_) ⟨[], h, rfl⟩ hadds
  obtain ⟨content, hcontent, hrows⟩ := hj
  obtain ⟨content', hcontent', hrows'⟩ := holds_step hH hcontent hop
  refine ⟨content', hcontent', ?_⟩
  rw [hrows', hrows, rowsOf, rowsOf, List.foldl_append]
  rfl

/-! ## Searching -/

/-- The result for a row. -/
def resultOf (dist : Space → List PyFloat → List PyFloat → K) (space : Space) (query : List PyFloat)
    (row : FlatRow) :
    AnnResult K where
  id := row.id
  score := if space = .cosine then 1 - dist space query row.vector else -dist space query row.vector
  vector := none
  metadata := row.metadata

/-- How near a row is to the query. -/
def nearness (dist : Space → List PyFloat → List PyFloat → K) (space : Space) (query : List PyFloat)
    (row : FlatRow) : K :=
  -dist space query row.vector

/-- The library's answer for `k` rows: `near` are the `k` nearest, nearest first. -/
def Nearest (H : Hnswlib ν K) (dist : Space → List PyFloat → List PyFloat → K) (i : HNSWIndex ν)
    (query : List PyFloat) (k : Nat) (rows near : List FlatRow) : Prop :=
  Top (nearness dist i.space query) k rows near ∧
    ∃ hits, (rows ≠ [] → H.knnQuery i.index query (min k i.count) = .ok hits) ∧
      hits.map (fun hit => (i.labelToId.get? hit.1, hit.2)) =
        near.map fun row => (some row.id, dist i.space query row.vector)

/-- The results are those of the `min(top_k, m)` nearest of the `m` rows that pass the filter,
nearest first. -/
def AreNearest (dist : Space → List PyFloat → List PyFloat → K) (space : Space)
    (query : List PyFloat) (topK : Nat) (f : Metadata → Bool) (rows : List FlatRow)
    (results : List (AnnResult K)) : Prop :=
  ∃ found, results = found.map (resultOf dist space query) ∧
    Top (nearness dist space query) topK (rows.filter fun row => f row.metadata) found

omit [LinearOrder K] in
theorem accept_item (h : Maps i content) {item : Item} (hitem : item ∈ content)
    (query : List PyFloat) (f : Metadata → Bool) :
    i.accept (some f) (item.2, dist i.space query item.1.vector) =
      if f item.1.metadata then some (resultOf dist i.space query item.1) else none := by
  unfold accept
  rw [h.labelToId item hitem]
  dsimp only
  rw [h.metadatas item hitem]
  rfl

omit [LinearOrder K] in
/-- What the loop makes of the hits for some items. -/
theorem filterMap_accept (h : Maps i content) {items : List Item} (hitems : items ⊆ content)
    (query : List PyFloat) (f : Metadata → Bool) :
    (items.map fun item => (item.2, dist i.space query item.1.vector)).filterMap
      (i.accept (some f)) =
      ((items.map Prod.fst).filter fun row => f row.metadata).map
        (resultOf dist i.space query) := by
  induction items with
  | nil => rfl
  | cons item items ih =>
    obtain ⟨hitem, hitems⟩ := List.cons_subset.mp hitems
    have haccept : i.accept (some f) (item.2, dist i.space query item.1.vector) = _ :=
      accept_item h hitem query f
    rw [List.map_cons, List.map_cons, List.filter_cons]
    split
    · rename_i hf
      rw [if_pos hf] at haccept
      rw [List.filterMap_cons_some haccept, List.map_cons, ih hitems]
    · rename_i hf
      rw [if_neg hf] at haccept
      rw [List.filterMap_cons_none haccept, ih hitems]

/-- The rows that the loop goes through, and what it returns of them. -/
theorem exists_nearest (hH : H.Documented live spaceOf dist) (h : Holds live spaceOf i content)
    (query : List PyFloat) {topK : Nat} (htop : 1 ≤ topK) (f : Metadata → Bool) :
    ∃ near, Nearest H dist i query (topK * 3) (content.map Prod.fst) near ∧
      i.results H query topK (some f) =
        ((near.filter fun row => f row.metadata).take topK).map (resultOf dist i.space query) := by
  have hlength : (live i.index).length = content.length := by rw [h.index, List.length_map]
  unfold results
  by_cases hempty : i.count = 0
  · have hnil : content = [] := List.eq_nil_of_length_eq_zero (h.count ▸ hempty)
    subst hnil
    refine ⟨[], ⟨⟨[], List.Perm.refl _,
      by simp, fun _ ha => absurd ha List.not_mem_nil, List.Pairwise.nil⟩, [], ?_, rfl⟩, ?_⟩
    · exact fun hne => absurd rfl hne
    · rw [if_pos hempty]
      simp
  · have hcount := h.count
    obtain ⟨hits, hknn, hbest⟩ :=
      hH.knnQuery i.index query (min (topK * 3) i.count) (by omega) (by omega)
    have hhits : (live i.index).map (fun item => (item.2, dist (spaceOf i.index) query item.1)) =
        content.map fun item => (item.2, dist i.space query item.1.vector) := by
      rw [h.index, h.space, List.map_map]
      rfl
    rw [hhits, top_min_iff (by rw [List.length_map, h.count])] at hbest
    obtain ⟨items, rfl, hitems⟩ := hbest.of_map
    have hsub : items ⊆ content := fun a ha => hitems.mem ha
    refine ⟨items.map Prod.fst, ⟨Top.map (f := Prod.fst) hitems, _, fun _ => hknn, ?_⟩, ?_⟩
    · rw [List.map_map, List.map_map]
      exact List.map_congr_left fun item hitem => congrArg (·, _) (h.labelToId item (hsub hitem))
    · rw [if_neg hempty]
      dsimp only
      rw [Option.isSome_some, if_pos rfl, hknn]
      dsimp only
      rw [collect_eq_take htop, filterMap_accept h.toMaps hsub, List.map_take]

/-- A search with a filter returns the nearest of the rows that pass exactly if enough of the `3 *
top_k` nearest rows pass. -/
theorem filtered_search_iff (hH : H.Documented live spaceOf dist) (dimension : Nat)
    (metric : DistanceMetric) (m efConstruction efSearch maxElements : Nat) (ops : List AnnOp)
    (hadds : Along (total (step H)) (Adds H)
      (create H dimension metric m efConstruction efSearch maxElements) ops)
    (query : List PyFloat) {topK : Nat} (htop : 1 ≤ topK) (ef : Option Nat) (f : Metadata → Bool) :
    let i := ops.foldl (step H) (create H dimension metric m efConstruction efSearch maxElements)
    let answer := i.search H query topK ef (some f)
    ∃ near, Nearest H dist answer.1 query (topK * 3) (rowsOf ops) near ∧
      (AreNearest dist answer.1.space query topK f (rowsOf ops) answer.2 ↔
        min topK ((rowsOf ops).filter fun row => f row.metadata).length ≤
          (near.filter fun row => f row.metadata).length) := by
  intro i answer
  obtain ⟨content, hcontent, hrows⟩ :=
    holds_run hH (holds_create hH dimension metric m efConstruction efSearch maxElements) hadds
  have hanswer := holds_search hH hcontent query topK ef (some f)
  obtain ⟨near, hnear, hresults⟩ := exists_nearest hH hanswer query htop f
  have hresults : answer.2 = ((near.filter fun row => f row.metadata).take topK).map
      (resultOf dist answer.1.space query) := hresults
  rw [hrows] at hnear
  refine ⟨near, hnear, ?_⟩
  rw [← top_take_filter_iff hnear.1]
  constructor
  · rintro ⟨found, hfound, hbest⟩
    have hlength := congrArg List.length (hresults.symm.trans hfound)
    rw [List.length_map, List.length_map, List.length_take] at hlength
    obtain ⟨-, -, htotal, -⟩ := hbest
    refine (top_take_filter_iff hnear.1).mpr ?_
    omega
  · exact fun hbest => ⟨_, hresults, hbest⟩

end HNSWIndex

/-! ## A library that sorts -/

section

/-- The distance between two numbers. -/
private def apart (_ : Space) (query vector : List PyFloat) : ℚ :=
  |number (query.headD (.finite 0)) - number (vector.headD (.finite 0))|

private def answers (index : Space × List (List PyFloat × Nat)) (query : List PyFloat) (k : Nat) :
    List (Nat × ℚ) :=
  ((index.2.map fun item => (item.2, apart index.1 query item.1)).insertionSort fun a b =>
    -b.2 ≤ -a.2).take k

private def sortingHnsw : Hnswlib (Space × List (List PyFloat × Nat)) ℚ where
  init space _ _ _ _ := (space, [])
  setEf index _ := index
  getMaxElements _ := 1000000
  resizeIndex index _ := (index, .ok ())
  addItems index items := ((index.1, index.2 ++ items), .ok ())
  markDeleted index label := (index.1, index.2.filter fun item => item.2 ≠ label)
  knnQuery index query k := .ok (answers index query k)

private theorem sortingHnsw_documented : sortingHnsw.Documented Prod.snd Prod.fst apart where
  live_init _ _ _ _ _ := rfl
  live_setEf _ _ := rfl
  live_resizeIndex _ _ _ := rfl
  live_addItems _ _ _ _ _ := rfl
  live_markDeleted _ _ := rfl
  space_init _ _ _ _ _ := rfl
  space_setEf _ _ := rfl
  space_resizeIndex _ _ := rfl
  space_addItems _ _ := rfl
  space_markDeleted _ _ := rfl
  knnQuery _ _ k _ _ := ⟨_, rfl, top_take_insertionSort (fun hit : Nat × ℚ => -hit.2) k _⟩

private def tagged (id : String) (x : ℚ) (tag : Bool) : FlatRow :=
  ⟨id, [.finite x], [("tag", .bool tag)]⟩

private def isTagged (md : Metadata) : Bool := (md.lookup "tag").any truthy

private def lineHnsw : HNSWIndex (Space × List (List PyFloat × Nat)) :=
  .create sortingHnsw 1 .euclidean 16 200 100 1000000

private def fourRows : List FlatRow :=
  [tagged "a" 1 false, tagged "b" 2 false, tagged "c" 3 false, tagged "d" 4 true]

private def lineOf (rows : List FlatRow) : HNSWIndex (Space × List (List PyFloat × Nat)) :=
  [AnnOp.add rows].foldl (HNSWIndex.step sortingHnsw) lineHnsw

private theorem lineHnsw_adds {rows : List FlatRow} (hids : (rows.map (·.id)).Nodup)
    (hok : (lineHnsw.add sortingHnsw rows).2 = .ok ()) :
    Along (total (HNSWIndex.step sortingHnsw)) (HNSWIndex.Adds sortingHnsw) lineHnsw
      [.add rows] := by
  refine ⟨⟨⟨hids, fun _ _ => rfl⟩, fun rows' hrows => ?_⟩, fun _ _ => trivial⟩
  cases hrows
  exact hok

theorem filtered_search_two :
    HNSWIndex.AreNearest apart .l2 [.finite 0] 1 isTagged [tagged "a" 1 false, tagged "d" 4 true]
      ((lineOf [tagged "a" 1 false, tagged "d" 4 true]).search sortingHnsw [.finite 0] 1 none
        (some isTagged)).2 := by
  have hadds := @lineHnsw_adds [tagged "a" 1 false, tagged "d" 4 true] (by decide) rfl
  have htop : 1 ≤ 1 := le_refl 1
  obtain ⟨near, hnear, hiff⟩ :=
    HNSWIndex.filtered_search_iff sortingHnsw_documented 1 .euclidean 16 200 100 1000000
    _ hadds [.finite 0] htop none isTagged
  refine hiff.mpr ?_
  have hall := (hnear.1.perm_of_length_le (by decide)).filter fun row => isTagged row.metadata
  rw [hall.length_eq]
  decide

/-- Of four rows only the one that is furthest away passes, and it is not found. -/
theorem filtered_search_misses : ∃ (rows : List FlatRow) (topK : Nat), 1 ≤ topK ∧
    Along (total (HNSWIndex.step sortingHnsw)) (HNSWIndex.Adds sortingHnsw) lineHnsw [.add rows] ∧
    ¬ HNSWIndex.AreNearest apart .l2 [.finite 0] topK isTagged rows
      ((lineOf rows).search sortingHnsw [.finite 0] topK none (some isTagged)).2 := by
  refine ⟨fourRows, 1, le_refl 1, lineHnsw_adds (by decide) rfl, ?_⟩
  rintro ⟨found, hfound, -, -, hlength, -⟩
  have hnone : ((lineOf fourRows).search sortingHnsw [.finite 0] 1 none (some isTagged)).2.length =
      0 := by decide +kernel
  rw [hfound, List.length_map, hlength] at hnone
  revert hnone
  decide +kernel

end

end Vsector.Index
