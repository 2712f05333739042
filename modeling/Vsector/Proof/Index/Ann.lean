import Vsector.Framework.Run
import Vsector.Impl.Index.Hnsw
import Vsector.Impl.Index.IvfPq

/-!
# Deleted ids and the approximate indexes

Both indexes name an id by numbers that only grow, and a later `add` of an id
takes a new number and leaves the old one alone. As long as every `add` is of
ids that are absent, a number that can still be found is the only one of its
id (`HNSWIndex.Inv.newest`, `IVFPQIndex.Inv.newest`), so no search finds a
deleted id or an id twice (`never_finds_deleted`). An id that is added while
it is present keeps its first number after a delete, and is found again
(`finds_deleted`).
-/

namespace Vsector.Index

open Framework Models

inductive Touch where
  | added
  | deleted
deriving DecidableEq

/-- What an operation does to an id. -/
def AnnOp.touch (id : String) : AnnOp → Option Touch
  | .add rows => if id ∈ rows.map (·.id) then some .added else none
  | .delete ids => if id ∈ ids then some .deleted else none
  | .search .. => none

/-- The most recent operation on an id. -/
def lastTouch (ops : List AnnOp) (id : String) : Option Touch :=
  ops.foldl (fun last op => (op.touch id).or last) none

/-- No id is found whose most recent operation is a delete, and none is found twice. -/
def NoneDeleted {δ : Type} (ops : List AnnOp) (results : List (AnnResult δ)) : Prop :=
  (results.map (·.id)).Nodup ∧ ∀ r ∈ results, lastTouch ops r.id ≠ some .deleted

theorem lastTouch_append (ops : List AnnOp) (op : AnnOp) (id : String) :
    lastTouch (ops ++ [op]) id = (op.touch id).or (lastTouch ops id) := by
  simp only [lastTouch, List.foldl_append, List.foldl_cons, List.foldl_nil]

/-- An `add` leaves no id of its own deleted. -/
theorem lastTouch_add {ops : List AnnOp} {rows : List FlatRow} {id : String}
    (h : lastTouch (ops ++ [.add rows]) id = some .deleted) :
    id ∉ rows.map (·.id) ∧ lastTouch ops id = some .deleted := by
  rw [lastTouch_append] at h
  by_cases hid : id ∈ rows.map (·.id)
  · rw [AnnOp.touch, if_pos hid] at h
    cases h
  · rw [AnnOp.touch, if_neg hid] at h
    exact ⟨hid, h⟩

theorem lastTouch_delete {ops : List AnnOp} {ids : List String} {id : String}
    (h : lastTouch (ops ++ [.delete ids]) id = some .deleted) :
    id ∈ ids ∨ lastTouch ops id = some .deleted := by
  rw [lastTouch_append] at h
  by_cases hid : id ∈ ids
  · exact .inl hid
  · rw [AnnOp.touch, if_neg hid] at h
    exact .inr h

/-! ## The loop over hits -/

section

variable {η ρ : Type} {accept : η → Option ρ} {topK : Nat}

theorem collect_isPrefix (hits : List η) (res : List ρ) :
    collect accept topK hits res <+: res ++ hits.filterMap accept := by
  induction hits generalizing res with
  | nil => simp [collect]
  | cons hit hits ih =>
    rw [collect]
    cases h : accept hit with
    | none =>
      rw [List.filterMap_cons_none h]
      exact ih res
    | some r =>
      rw [List.filterMap_cons_some h]
      dsimp only
      split
      · exact ⟨hits.filterMap accept, by simp⟩
      · have := ih (res ++ [r])
        rwa [List.append_assoc] at this

theorem mem_collect {hits : List η} {r : ρ} (h : r ∈ collect accept topK hits []) :
    ∃ hit ∈ hits, accept hit = some r :=
  List.mem_filterMap.mp ((collect_isPrefix hits []).subset h)

/-- Hits of different ids give results of different ids. -/
theorem nodup_collect {δ : Type} {accept : η → Option (AnnResult δ)} {hits : List η}
    (h : hits.Pairwise fun a b => ∀ r, accept a = some r → ∀ t, accept b = some t → r.id ≠ t.id) :
    ((collect accept topK hits []).map (·.id)).Nodup := by
  have hall : (hits.filterMap accept).Pairwise fun r t => r.id ≠ t.id :=
    List.Pairwise.filterMap accept (fun a b hab r hr t ht => hab r hr t ht) h
  exact List.pairwise_map.mpr (hall.sublist (collect_isPrefix hits []).sublist)

end

/-! ## HNSW -/

section

variable {ν δ : Type} {H : Hnswlib ν δ}

/-- What is relied on of `hnswlib`: no element is found twice. -/
structure Hnswlib.Lawful (H : Hnswlib ν δ) : Prop where
  knn_nodup : ∀ index query k hits, H.knnQuery index query k = .ok hits → (hits.map Prod.fst).Nodup

namespace HNSWIndex

/-- Every `add` is of ids that the index does not have, and has none twice. -/
def AddsAbsent (i : HNSWIndex ν) : AnnOp → Prop
  | .add rows => (rows.map (·.id)).Nodup ∧ ∀ r ∈ rows, i.idToLabel.get? r.id = none
  | _ => True

structure Inv (ops : List AnnOp) (i : HNSWIndex ν) : Prop where
  /-- A label in use is the newest one of its id. -/
  newest : ∀ label id, i.labelToId.get? label = some id → i.idToLabel.get? id = some label
  deleted : ∀ id, lastTouch ops id = some .deleted → i.idToLabel.get? id = none

/-- The label maps of two indexes agree. -/
structure SameMaps (i j : HNSWIndex ν) : Prop where
  labelToId : i.labelToId = j.labelToId
  idToLabel : i.idToLabel = j.idToLabel

theorem Inv.congr {ops : List AnnOp} {i j : HNSWIndex ν} (h : Inv ops j) (hs : SameMaps i j) :
    Inv ops i where
  newest label id := by rw [hs.labelToId, hs.idToLabel]; exact h.newest label id
  deleted id := by rw [hs.idToLabel]; exact h.deleted id

theorem sameMaps_ensureCapacity (i : HNSWIndex ν) (need : Nat) :
    SameMaps (i.ensureCapacity H need).1 i := by
  unfold ensureCapacity
  dsimp only
  split <;> exact ⟨rfl, rfl⟩

theorem inv_create (dimension : Nat) (metric : DistanceMetric)
    (m efConstruction efSearch maxElements : Nat) :
    Inv [] (create H dimension metric m efConstruction efSearch maxElements) where
  newest _ _ h := by cases h
  deleted _ h := by cases h

/-- Binding a new label to an absent id. -/
theorem newest_bindLabel {i : HNSWIndex ν} {item : FlatRow × Nat}
    (hid : i.idToLabel.get? item.1.id = none)
    (h : ∀ label id, i.labelToId.get? label = some id → i.idToLabel.get? id = some label)
    (label : Nat) (id : String) (hl : (i.bindLabel item).labelToId.get? label = some id) :
    (i.bindLabel item).idToLabel.get? id = some label := by
  simp only [bindLabel, Dict.get?_set] at hl ⊢
  by_cases hlabel : label = item.2
  · rw [if_pos hlabel] at hl
    cases hl
    rw [if_pos rfl, hlabel]
  · rw [if_neg hlabel] at hl
    have hold := h label id hl
    have hne : id ≠ item.1.id := by
      rintro rfl
      rw [hid] at hold
      cases hold
    rw [if_neg hne]
    exact hold

theorem newest_bindLabels {items : List (FlatRow × Nat)} {i : HNSWIndex ν}
    (hnodup : (items.map (·.1.id)).Nodup) (hids : ∀ item ∈ items, i.idToLabel.get? item.1.id = none)
    (h : ∀ label id, i.labelToId.get? label = some id → i.idToLabel.get? id = some label) :
    (∀ label id, (items.foldl bindLabel i).labelToId.get? label = some id →
        (items.foldl bindLabel i).idToLabel.get? id = some label) ∧
      ∀ id, id ∉ items.map (·.1.id) →
        (items.foldl bindLabel i).idToLabel.get? id = i.idToLabel.get? id := by
  induction items generalizing i with
  | nil => exact ⟨h, fun _ _ => rfl⟩
  | cons item items ih =>
    simp only [List.map_cons, List.nodup_cons] at hnodup
    have hrest : ∀ a ∈ items, (i.bindLabel item).idToLabel.get? a.1.id = none := by
      intro a ha
      have hne : a.1.id ≠ item.1.id :=
        fun he => hnodup.1 (he ▸ List.mem_map_of_mem (f := fun a => a.1.id) ha)
      simp only [bindLabel, Dict.get?_set_ne _ _ hne]
      exact hids a (List.mem_cons_of_mem _ ha)
    obtain ⟨hnew, hold⟩ := ih hnodup.2 hrest (newest_bindLabel (hids item List.mem_cons_self) h)
    refine ⟨hnew, fun id hid => ?_⟩
    simp only [List.map_cons, List.mem_cons, not_or] at hid
    rw [List.foldl_cons, hold id hid.2]
    exact Dict.get?_set_ne _ _ hid.1

theorem map_zip_id (rows : List FlatRow) (start : Nat) :
    (rows.zip (List.range' start rows.length)).map (·.1.id) = rows.map (·.id) := by
  have h : (rows.zip (List.range' start rows.length)).map Prod.fst = rows :=
    List.map_fst_zip (by simp)
  calc (rows.zip (List.range' start rows.length)).map (·.1.id)
      = ((rows.zip (List.range' start rows.length)).map Prod.fst).map (·.id) := by
        rw [List.map_map]; rfl
    _ = rows.map (·.id) := by rw [h]

theorem inv_add {ops : List AnnOp} {i : HNSWIndex ν} {rows : List FlatRow} (h : Inv ops i)
    (hc : AddsAbsent i (.add rows)) : Inv (ops ++ [.add rows]) (i.add H rows).1 := by
  have hkeep : ∀ j : HNSWIndex ν, SameMaps j i → Inv (ops ++ [.add rows]) j := fun j hj =>
    Inv.congr ⟨h.newest, fun id hid => h.deleted id (lastTouch_add hid).2⟩ hj
  unfold add
  have hs := sameMaps_ensureCapacity (H := H) i rows.length
  split
  · rename_i j e hj
    rw [hj] at hs
    exact hkeep j hs
  · rename_i j hj
    rw [hj] at hs
    dsimp only
    split
    · exact hkeep _ ⟨hs.labelToId, hs.idToLabel⟩
    · rename_i index _
      let items := rows.zip (List.range' j.nextLabel rows.length)
      have hids : items.map (·.1.id) = rows.map (·.id) := map_zip_id rows j.nextLabel
      have habsent : ∀ item ∈ items, ({ j with index := index } : HNSWIndex ν).idToLabel.get?
          item.1.id = none := by
        intro item hitem
        show j.idToLabel.get? item.1.id = none
        rw [hs.idToLabel]
        exact hc.2 item.1 (List.of_mem_zip hitem).1
      have hold : ∀ label id, ({ j with index := index } : HNSWIndex ν).labelToId.get?
          label = some id →
          ({ j with index := index } : HNSWIndex ν).idToLabel.get? id = some label := by
        show ∀ label id, j.labelToId.get? label = some id → j.idToLabel.get? id = some label
        rw [hs.labelToId, hs.idToLabel]
        exact h.newest
      obtain ⟨hnew, hsame⟩ := newest_bindLabels (hids ▸ hc.1) habsent hold
      refine ⟨hnew, fun id hid => ?_⟩
      obtain ⟨hmem, hlast⟩ := lastTouch_add hid
      show (items.foldl bindLabel { j with index := index }).idToLabel.get? id = none
      rw [hsame id (hids ▸ hmem)]
      show j.idToLabel.get? id = none
      rw [hs.idToLabel]
      exact h.deleted id hlast

/-- `deleteId` frees the id's label, and no other id has it. -/
theorem newest_deleteId {i : HNSWIndex ν} (id : String)
    (h : ∀ label id, i.labelToId.get? label = some id → i.idToLabel.get? id = some label) :
    (∀ label a, (i.deleteId H id).labelToId.get? label = some a →
      (i.deleteId H id).idToLabel.get? a = some label) ∧
      ∀ a, (i.deleteId H id).idToLabel.get? a = if a = id then none else i.idToLabel.get? a := by
  unfold deleteId
  split
  · rename_i hid
    refine ⟨h, fun a => ?_⟩
    split
    · rename_i ha
      rw [ha, hid]
    · rfl
  · rename_i label hid
    refine ⟨fun l a hl => ?_, fun a => Dict.get?_pop _ _ _⟩
    simp only [Dict.get?_pop] at hl ⊢
    split at hl
    · cases hl
    · rename_i hlabel
      have hold := h l a hl
      have hne : a ≠ id := by
        rintro rfl
        rw [hid] at hold
        exact hlabel (Option.some.inj hold).symm
      rw [if_neg hne]
      exact hold

theorem newest_delete {i : HNSWIndex ν} (ids : List String)
    (h : ∀ label id, i.labelToId.get? label = some id → i.idToLabel.get? id = some label) :
    (∀ label a, (i.delete H ids).labelToId.get? label = some a →
      (i.delete H ids).idToLabel.get? a = some label) ∧
      ∀ a, (i.delete H ids).idToLabel.get? a = if a ∈ ids then none else i.idToLabel.get? a := by
  unfold delete
  induction ids generalizing i with
  | nil => exact ⟨h, fun a => by simp⟩
  | cons id ids ih =>
    obtain ⟨hnew, hold⟩ := newest_deleteId (H := H) id h
    obtain ⟨hnew', hold'⟩ := ih hnew
    refine ⟨hnew', fun a => ?_⟩
    rw [List.foldl_cons, hold' a, hold a]
    by_cases ha : a = id <;> by_cases hm : a ∈ ids <;> simp [ha, hm]

variable [One δ] [Sub δ] [Neg δ]

variable (H) in
theorem sameMaps_search (i : HNSWIndex ν) (query : List PyFloat) (topK : Nat) (ef : Option Nat)
    (filterFn : Option (Metadata → Bool)) : SameMaps (i.search H query topK ef filterFn).1 i := by
  cases ef <;> exact ⟨rfl, rfl⟩

theorem inv_step {ops : List AnnOp} {i : HNSWIndex ν} {op : AnnOp} (h : Inv ops i)
    (hc : AddsAbsent i op) :
    Inv (ops ++ [op]) (i.step H op) := by
  cases op with
  | add rows => exact inv_add h hc
  | delete ids =>
    obtain ⟨hnew, hold⟩ := newest_delete (H := H) ids h.newest
    refine ⟨hnew, fun id hid => ?_⟩
    show (i.delete H ids).idToLabel.get? id = none
    rw [hold id]
    obtain hid | hid := lastTouch_delete hid
    · rw [if_pos hid]
    · rw [h.deleted id hid, ite_self]
  | search query topK efSearch nprobe filterFn =>
    refine Inv.congr ⟨h.newest, fun id hid => h.deleted id ?_⟩
      (sameMaps_search H i query topK efSearch filterFn)
    rw [lastTouch_append] at hid
    exact hid

theorem inv_run {ops : List AnnOp} {i : HNSWIndex ν} (hi : Inv [] i)
    (hc : Along (total (step H)) AddsAbsent i ops) :
    Inv ops (ops.foldl (step H) i) :=
  foldl_invariant (I := Inv) (fun _ _ _ h hc => inv_step h hc) hi hc

theorem accept_eq_some {i : HNSWIndex ν} {filterFn : Option (Metadata → Bool)} {hit : Nat × δ}
    {r : AnnResult δ} (h : i.accept filterFn hit = some r) :
    i.labelToId.get? hit.1 = some r.id := by
  unfold accept at h
  split at h
  · cases h
  · rename_i id hid
    dsimp only at h
    split at h
    · cases h
      exact hid
    · cases h

theorem noneDeleted_results (hH : H.Lawful) {ops : List AnnOp} {i : HNSWIndex ν} (h : Inv ops i)
    (query : List PyFloat) (topK : Nat) (filterFn : Option (Metadata → Bool)) :
    NoneDeleted ops (i.results H query topK filterFn) := by
  unfold results
  split
  · exact ⟨List.nodup_nil, fun r hr => absurd hr List.not_mem_nil⟩
  · dsimp only
    split
    · exact ⟨List.nodup_nil, fun r hr => absurd hr List.not_mem_nil⟩
    · rename_i hits hhits
      have hlabels : hits.Pairwise fun a b => a.1 ≠ b.1 :=
        List.pairwise_map.mp (hH.knn_nodup _ _ _ _ hhits)
      have hfound : hits.Pairwise fun a b =>
          ∀ r, i.accept filterFn a = some r → ∀ t, i.accept filterFn b = some t → r.id ≠ t.id := by
        refine hlabels.imp fun {a b} hab r hr t ht he => hab ?_
        have ha := h.newest _ _ (accept_eq_some hr)
        have hb := h.newest _ _ (accept_eq_some ht)
        rw [he, hb] at ha
        exact (Option.some.inj ha).symm
      refine ⟨nodup_collect hfound, fun r hr hlast => ?_⟩
      obtain ⟨hit, -, hhit⟩ := mem_collect hr
      have hnew := h.newest _ _ (accept_eq_some hhit)
      rw [h.deleted _ hlast] at hnew
      cases hnew

end HNSWIndex

end

/-! ## IVF-PQ -/

section

variable {ν δ : Type} {F : Faiss ν δ}

/-- What is relied on of FAISS, by the indices an index holds (`stored`): a call that raises stores
nothing, and a search finds an index no more often than it is stored. -/
structure Faiss.Lawful (F : Faiss ν δ) (stored : ν → List Nat) : Prop where
  stored_init : ∀ cosine dimension nlist m, stored (F.indexIVFPQ cosine dimension nlist m) = []
  stored_train : ∀ index sample, stored (F.train index sample).1 = stored index
  trained_addWithIds : ∀ index items, F.isTrained (F.addWithIds index items).1 = F.isTrained index
  stored_addWithIds : ∀ index items left, F.addWithIds index items = (left, .ok ()) →
    stored left = stored index ++ items.map Prod.snd
  stored_addWithIds_error : ∀ index items left e, F.addWithIds index items = (left, .error e) →
    stored left = stored index
  trained_add : ∀ index vectors, F.isTrained (F.add index vectors).1 = F.isTrained index
  stored_add : ∀ index vectors left, F.add index vectors = (left, .ok ()) →
    stored left = stored index ++ List.range' (stored index).length vectors.length
  stored_add_error : ∀ index vectors left e, F.add index vectors = (left, .error e) →
    stored left = stored index
  search_stored : ∀ index query k nprobe hits, F.search index query k nprobe = .ok hits →
    ((hits.map Prod.snd).filter (· ≠ -1)).Subperm ((stored index).map Int.ofNat)

namespace IVFPQIndex

/-- Every `add` is of ids that the index does not have, and has none twice; a migration that starts
does not raise. -/
def AddsAbsent (F : Faiss ν δ) (i : IVFPQIndex ν) : AnnOp → Prop
  | .add rows => (rows.map (·.id)).Nodup ∧
      (∀ r ∈ rows, i.idToIdx.get? r.id = none ∧ r.id ∉ i.fallback.rows.map (·.id)) ∧
      (F.isTrained i.faissIndex = false → ∀ fallback, i.fallback.addRows rows = .ok fallback →
        F.isTrained ({ i with fallback := fallback }.trainFallback F).faissIndex →
        (({ i with fallback := fallback }.trainFallback F).migrate F).2 = .ok ())
  | _ => True

/-- The ids and metadata at the indices FAISS holds, and the map of the ids. -/
structure Columns (ids : List String) (metadatas : List Metadata) (idToIdx : Dict String Nat) :
    Prop where
  length_eq : metadatas.length = ids.length
  /-- An index in use is the newest one of its id. -/
  newest : ∀ (idx : Nat) id md, ids[idx]? = some id → metadatas[idx]? = some md →
    isDeleted md = false →
    idToIdx.get? id = some idx
  bound : ∀ id idx, idToIdx.get? id = some idx → idx < ids.length

theorem columns_nil : Columns [] [] ∅ := ⟨rfl, fun _ _ _ h => by simp at h, fun _ _ h => by cases h⟩

section

variable {ids : List String} {metadatas : List Metadata} {idToIdx : Dict String Nat}

theorem Columns.append (h : Columns ids metadatas idToIdx) {id : String}
    (hid : idToIdx.get? id = none) (md : Metadata) :
    Columns (ids ++ [id]) (metadatas ++ [md]) (idToIdx.set id ids.length) where
  length_eq := by rw [List.length_append, List.length_append, h.length_eq]; rfl
  newest := by
    intro idx a m ha hm hd
    have hlt : idx < (ids ++ [id]).length := (List.getElem?_eq_some_iff.mp ha).1
    rw [List.length_append, List.length_singleton] at hlt
    obtain hidx | hidx : idx < ids.length ∨ idx = ids.length := by omega
    · rw [List.getElem?_append_left hidx] at ha
      rw [List.getElem?_append_left (h.length_eq ▸ hidx)] at hm
      have hold := h.newest idx a m ha hm hd
      have hne : a ≠ id := by
        rintro rfl
        rw [hid] at hold
        cases hold
      rw [Dict.get?_set_ne _ _ hne]
      exact hold
    · rw [hidx, List.getElem?_concat_length] at ha
      cases ha
      rw [Dict.get?_set_self, hidx]
  bound := by
    intro a idx ha
    rw [List.length_append, List.length_singleton]
    rw [Dict.get?_set] at ha
    split at ha
    · cases ha
      omega
    · have := h.bound a idx ha
      omega

theorem Columns.appendRows (rows : List FlatRow) (h : Columns ids metadatas idToIdx)
    (hnodup : (rows.map (·.id)).Nodup) (hids : ∀ r ∈ rows, idToIdx.get? r.id = none) :
    Columns (ids ++ rows.map (·.id)) (metadatas ++ rows.map (·.metadata))
        ((rows.zip (List.range' ids.length rows.length)).foldl
          (fun d p => d.set p.1.id p.2) idToIdx) ∧
      ∀ id, id ∉ rows.map (·.id) →
        ((rows.zip (List.range' ids.length rows.length)).foldl (fun d p => d.set p.1.id p.2)
          idToIdx).get? id =
          idToIdx.get? id := by
  induction rows generalizing ids metadatas idToIdx with
  | nil => exact ⟨by simpa using h, fun _ _ => rfl⟩
  | cons row rows ih =>
    simp only [List.map_cons, List.nodup_cons] at hnodup
    have hrest : ∀ r ∈ rows, (idToIdx.set row.id ids.length).get? r.id = none := by
      intro r hr
      have hne : r.id ≠ row.id :=
        fun he => hnodup.1 (he ▸ List.mem_map_of_mem (f := fun r => r.id) hr)
      rw [Dict.get?_set_ne _ _ hne]
      exact hids r (List.mem_cons_of_mem _ hr)
    obtain ⟨hnew, hold⟩ := ih (h.append (hids row List.mem_cons_self) row.metadata) hnodup.2 hrest
    rw [List.length_append, List.length_singleton] at hnew hold
    simp only [List.length_cons, List.range'_succ, List.zip_cons_cons,
      List.foldl_cons, List.map_cons]
    refine ⟨by simpa using hnew, fun id hid => ?_⟩
    simp only [List.mem_cons, not_or] at hid
    rw [hold id hid.2, Dict.get?_set_ne _ _ hid.1]

/-- The columns after a delete of an id. -/
theorem Columns.delete (h : Columns ids metadatas idToIdx) {id : String} {idx : Nat}
    (hid : idToIdx.get? id = some idx) :
    Columns ids (metadatas.set idx [("_deleted", .bool true)]) (idToIdx.pop id) where
  length_eq := by rw [List.length_set, h.length_eq]
  newest := by
    intro j a m ha hm hd
    rw [List.getElem?_set] at hm
    split at hm
    · split at hm
      · cases hm
        cases hd
      · cases hm
    · rename_i hj
      have hold := h.newest j a m ha hm hd
      have hne : a ≠ id := by
        rintro rfl
        rw [hid] at hold
        exact hj (Option.some.inj hold)
      rw [Dict.get?_pop_ne _ hne]
      exact hold
  bound := by
    intro a j ha
    rw [Dict.get?_pop] at ha
    split at ha
    · cases ha
    · exact h.bound a j ha

end

/-- An index that FAISS is not trained for keeps its rows in the fallback. -/
structure Untrained (ops : List AnnOp) (i : IVFPQIndex ν) : Prop where
  ids : i.ids = []
  nodup : (i.fallback.rows.map (·.id)).Nodup
  deleted : ∀ id, lastTouch ops id = some .deleted → id ∉ i.fallback.rows.map (·.id)

structure Trained (ops : List AnnOp) (stored : List Nat) (i : IVFPQIndex ν) : Prop where
  fallback : i.fallback.rows = []
  columns : Columns i.ids i.metadatas i.idToIdx
  stored : stored = List.range i.ids.length
  deleted : ∀ id, lastTouch ops id = some .deleted → i.idToIdx.get? id = none

structure Inv (F : Faiss ν δ) (stored : ν → List Nat) (ops : List AnnOp) (i : IVFPQIndex ν) :
    Prop where
  untrained : F.isTrained i.faissIndex = false → Untrained ops i ∧ stored i.faissIndex = []
  trained : F.isTrained i.faissIndex = true → Trained ops (stored i.faissIndex) i

theorem foldl_appendRow (items : List (FlatRow × Nat)) (i : IVFPQIndex ν) :
    items.foldl appendRow i =
      { i with
        ids := i.ids ++ items.map (·.1.id)
        metadatas := i.metadatas ++ items.map (·.1.metadata)
        idToIdx := items.foldl (fun d p => d.set p.1.id p.2) i.idToIdx } := by
  induction items generalizing i with
  | nil => simp
  | cons item items ih => simp [ih, appendRow]

variable {stored : ν → List Nat}

/-- `store` of vectors under the next indices. -/
theorem store_spec (hF : F.Lawful stored) (i : IVFPQIndex ν) (items : List (List PyFloat × Nat))
    (hitems : items.map Prod.snd = List.range' (stored i.faissIndex).length items.length) :
    F.isTrained (i.store F items).1 = F.isTrained i.faissIndex ∧
      stored (i.store F items).1 = stored i.faissIndex ++
        match (i.store F items).2 with
        | .ok () => items.map Prod.snd
        | .error _ => [] := by
  unfold store
  split
  · rename_i left hl
    refine ⟨?_, hF.stored_addWithIds _ _ _ hl⟩
    have := hF.trained_addWithIds i.faissIndex items
    rwa [hl] at this
  · rename_i left e hl
    have htrained := hF.trained_addWithIds i.faissIndex items
    rw [hl] at htrained
    have hsame := hF.stored_addWithIds_error _ _ _ _ hl
    refine ⟨(hF.trained_add left _).trans htrained, ?_⟩
    rcases ha : F.add left (items.map Prod.fst) with ⟨left', _ | ⟨⟩⟩
    · dsimp only
      rw [hF.stored_add_error _ _ _ _ ha, hsame, List.append_nil]
    · dsimp only
      rw [hF.stored_add _ _ _ ha, hsame, hitems, List.length_map]

theorem inv_addTrained (hF : F.Lawful stored) {ops : List AnnOp} {i : IVFPQIndex ν}
    {rows : List FlatRow} (h : Trained ops (stored i.faissIndex) i)
    (ht : F.isTrained i.faissIndex = true) (hnodup : (rows.map (·.id)).Nodup)
    (habsent : ∀ r ∈ rows, i.idToIdx.get? r.id = none) :
    Inv F stored (ops ++ [.add rows]) (i.addTrained F rows).1 := by
  let items := rows.zip (List.range' i.ids.length rows.length)
  have hids : items.map (·.1.id) = rows.map (·.id) := HNSWIndex.map_zip_id rows i.ids.length
  have hfst : items.map Prod.fst = rows := List.map_fst_zip (by simp)
  have hsnd : items.map Prod.snd = List.range' i.ids.length rows.length :=
    List.map_snd_zip (by simp)
  obtain ⟨htrained, hstored⟩ :=
    store_spec hF i (items.map fun item => (i.normalize F item.1.vector, item.2)) (by
    have hlen : items.length = rows.length := by simp [items]
    rw [List.map_map, h.stored, List.length_range, List.length_map, hlen]
    exact hsnd)
  rw [h.stored] at hstored
  unfold addTrained
  dsimp only
  rcases hs : i.store F (items.map fun item =>
    (i.normalize F item.1.vector, item.2)) with ⟨left, e | ⟨⟩⟩
  · rw [hs] at htrained hstored ⊢
    refine ⟨fun hf => ?_, fun _ =>
      ⟨h.fallback, h.columns, ?_, fun id hid => h.deleted id (lastTouch_add hid).2⟩⟩
    · rw [show F.isTrained left = F.isTrained i.faissIndex from htrained, ht] at hf
      cases hf
    · simpa using hstored
  · rw [hs] at htrained hstored ⊢
    obtain ⟨hcolumns, hold⟩ := h.columns.appendRows _ hnodup habsent
    dsimp only
    rw [foldl_appendRow]
    refine ⟨fun hf => ?_, fun _ => ⟨h.fallback, ?_, ?_, fun id hid => ?_⟩⟩
    · rw [show F.isTrained left = F.isTrained i.faissIndex from htrained, ht] at hf
      cases hf
    · have hmd : items.map (·.1.metadata) = rows.map (·.metadata) := by
        rw [← hfst, List.map_map]
        rfl
      show Columns (i.ids ++ items.map (·.1.id)) (i.metadatas ++ items.map (·.1.metadata)) _
      rw [hids, hmd]
      exact hcolumns
    · show stored left = List.range (i.ids ++ items.map (·.1.id)).length
      rw [hids, List.length_append, List.length_map]
      have hitems : (items.map fun item => (i.normalize F item.1.vector, item.2)).map Prod.snd =
          List.range' i.ids.length rows.length := by
        rw [List.map_map]
        exact hsnd
      rw [hstored]
      dsimp only
      rw [hitems, List.range_eq_range', List.range_eq_range', ← List.range'_append_1, Nat.zero_add]
    · obtain ⟨hmem, hlast⟩ := lastTouch_add hid
      exact (hold id hmem).trans (h.deleted id hlast)

theorem trained_migrate (hF : F.Lawful stored) {ops : List AnnOp} {i : IVFPQIndex ν}
    (h : Untrained ops i) (hstored : stored i.faissIndex = []) (hok : (i.migrate F).2 = .ok ()) :
    F.isTrained (i.migrate F).1.faissIndex = F.isTrained i.faissIndex ∧
      Trained ops (stored (i.migrate F).1.faissIndex) (i.migrate F).1 := by
  let rows := i.fallback.rows.map (i.normalizeRow F)
  have hids : rows.map (·.id) = i.fallback.rows.map (·.id) := by
    rw [List.map_map]
    rfl
  unfold migrate at hok ⊢
  have htrained := hF.trained_addWithIds i.faissIndex
    ((rows.map (·.vector)).zip (List.range rows.length))
  dsimp only at hok ⊢
  rcases hs : F.addWithIds i.faissIndex
    ((rows.map (·.vector)).zip (List.range rows.length)) with ⟨left, e | ⟨⟩⟩
  · rw [hs] at hok
    cases hok
  · rw [hs] at htrained ⊢
    obtain ⟨hcolumns, hold⟩ := columns_nil.appendRows rows (hids ▸ h.nodup) (fun _ _ => rfl)
    have hmap : (rows.map (·.id)).zipIdx.foldl (fun d p => d.set p.1 p.2) (∅ : Dict String Nat) =
        (rows.zip (List.range' 0 rows.length)).foldl (fun d p => d.set p.1.id p.2) ∅ := by
      rw [List.zipIdx_eq_zip_range', List.length_map, List.zip_map_left, List.foldl_map]
      rfl
    refine ⟨htrained, rfl, ?_, ?_, fun id hid => ?_⟩
    · dsimp only
      rw [hmap]
      exact hcolumns
    · have hlen : (rows.map (·.id)).length = rows.length := List.length_map _
      dsimp only
      rw [hF.stored_addWithIds _ _ _ hs, hstored, List.map_snd_zip (by simp), hlen, List.nil_append]
    · dsimp only
      rw [hmap]
      exact hold id (hids ▸ h.deleted id hid)

theorem trainFallback_spec (hF : F.Lawful stored) (i : IVFPQIndex ν) :
    (i.trainFallback F).ids = i.ids ∧ (i.trainFallback F).fallback.rows.map (·.id) =
      i.fallback.rows.map (·.id) ∧
      stored (i.trainFallback F).faissIndex = stored i.faissIndex := by
  unfold trainFallback
  dsimp only
  split
  · exact ⟨rfl, rfl, rfl⟩
  · refine ⟨?_, ?_, ?_⟩
    · unfold train
      split <;> rfl
    · have h : (fun r : FlatRow => r.id) ∘ i.normalizeRow F = fun r => r.id := rfl
      rw [List.map_append, List.map_map, h, ← List.map_append, List.take_append_drop]
    · unfold train
      split
      · rfl
      · exact hF.stored_train _ _

theorem inv_addUntrained (hF : F.Lawful stored) {ops : List AnnOp} {i : IVFPQIndex ν}
    {rows : List FlatRow} (h : Untrained ops i) (hstored : stored i.faissIndex = [])
    (ht : F.isTrained i.faissIndex = false) (hc : AddsAbsent F i (.add rows)) :
    Inv F stored (ops ++ [.add rows]) (i.addUntrained F rows).1 := by
  obtain ⟨hnodup, habsent, hmigrate⟩ := hc
  unfold addUntrained
  split
  · refine ⟨fun _ => ⟨⟨h.ids, h.nodup, fun id hid => h.deleted id (lastTouch_add hid).2⟩, hstored⟩,
      fun hf => ?_⟩
    rw [ht] at hf
    cases hf
  · rename_i fallback hfallback
    have hrows : fallback.rows = i.fallback.rows ++ rows := by
      unfold FlatIndex.addRows at hfallback
      split at hfallback
      · cases hfallback
        rfl
      · cases hfallback
    have hun : Untrained (ops ++ [.add rows]) { i with fallback := fallback } := by
      refine ⟨h.ids, ?_, fun id hid => ?_⟩
      · show (fallback.rows.map (·.id)).Nodup
        rw [hrows, List.map_append]
        refine h.nodup.append hnodup fun a ha hb => ?_
        obtain ⟨r, hr, rfl⟩ := List.mem_map.mp hb
        exact (habsent r hr).2 ha
      · show id ∉ fallback.rows.map (·.id)
        obtain ⟨hmem, hlast⟩ := lastTouch_add hid
        rw [hrows, List.map_append, List.mem_append, not_or]
        exact ⟨h.deleted id hlast, hmem⟩
    dsimp only
    split
    · obtain ⟨hids, hfids, hst⟩ := trainFallback_spec hF { i with fallback := fallback }
      have hun' : Untrained (ops ++ [.add rows])
          ({ i with fallback := fallback }.trainFallback F) :=
        ⟨hids.trans h.ids, hfids ▸ hun.nodup, hfids ▸ hun.deleted⟩
      split
      · rename_i htr
        obtain ⟨heq, hm⟩ :=
          trained_migrate hF hun' (hst.trans hstored) (hmigrate ht fallback hfallback htr)
        refine ⟨fun hf => ?_, fun _ => hm⟩
        rw [heq, htr] at hf
        cases hf
      · rename_i htr
        exact ⟨fun _ => ⟨hun', hst.trans hstored⟩, fun hf => absurd hf htr⟩
    · refine ⟨fun _ => ⟨hun, hstored⟩, fun hf => ?_⟩
      rw [show F.isTrained i.faissIndex = true from hf] at ht
      cases ht

theorem trained_deleteIds {ops : List AnnOp} {st : List Nat} (ids : List String) {i : IVFPQIndex ν}
    (h : Trained ops st i) :
    Trained ops st (ids.foldl deleteId i) ∧ (ids.foldl deleteId i).faissIndex = i.faissIndex ∧
      ∀ id, (ids.foldl deleteId i).idToIdx.get? id = if id ∈ ids then none
        else i.idToIdx.get? id := by
  induction ids generalizing i with
  | nil => exact ⟨h, rfl, fun id => by simp⟩
  | cons a ids ih =>
    have hone : Trained ops st (i.deleteId a) ∧ (i.deleteId a).faissIndex = i.faissIndex ∧
        ∀ id, (i.deleteId a).idToIdx.get? id = if id = a then none else i.idToIdx.get? id := by
      unfold deleteId
      split
      · rename_i ha
        refine ⟨h, rfl, fun id => ?_⟩
        split
        · rename_i hid
          rw [hid, ha]
        · rfl
      · rename_i idx ha
        refine ⟨⟨h.fallback, h.columns.delete ha, h.stored, fun id hid => ?_⟩, rfl,
          fun id => Dict.get?_pop _ _ _⟩
        dsimp only
        rw [Dict.get?_pop, h.deleted id hid, ite_self]
    obtain ⟨htrained, hsame, hget⟩ := ih hone.1
    refine ⟨htrained, hsame.trans hone.2.1, fun id => ?_⟩
    rw [List.foldl_cons, hget id, hone.2.2 id]
    by_cases hid : id = a <;> by_cases hm : id ∈ ids <;> simp [hid, hm]

theorem inv_delete {ops : List AnnOp} {i : IVFPQIndex ν} (ids : List String)
    (h : Inv F stored ops i) :
    Inv F stored (ops ++ [.delete ids]) (i.delete ids) := by
  unfold delete
  split
  · rename_i hids
    refine ⟨fun hf => ?_, fun ht => ?_⟩
    · by_cases ht : F.isTrained i.faissIndex
      · rw [(trained_deleteIds ids (h.trained ht)).2.1, ht] at hf
        cases hf
      · exact absurd (h.untrained (by simpa using ht)).1.ids hids
    · by_cases ht' : F.isTrained i.faissIndex
      · obtain ⟨htrained, hsame, hget⟩ := trained_deleteIds ids (h.trained ht')
        rw [hsame]
        refine ⟨htrained.fallback, htrained.columns, htrained.stored, fun id hid => ?_⟩
        rw [hget id]
        obtain hid | hid := lastTouch_delete hid
        · rw [if_pos hid]
        · rw [(h.trained ht').deleted id hid, ite_self]
      · exact absurd (h.untrained (by simpa using ht')).1.ids hids
  · rename_i hids
    have hids : i.ids = [] := by simpa using hids
    refine ⟨fun hf => ⟨⟨hids, ?_, fun id hid hmem => ?_⟩, (h.untrained hf).2⟩, fun ht => ?_⟩
    · exact (h.untrained hf).1.nodup.sublist (List.filter_sublist.map _)
    · obtain ⟨r, hr, rfl⟩ := List.mem_map.mp hmem
      obtain ⟨hr, hkeep⟩ := List.mem_filter.mp hr
      obtain hid | hid := lastTouch_delete hid
      · simp [hid] at hkeep
      · exact (h.untrained hf).1.deleted _ hid (List.mem_map_of_mem hr)
    · have ht := h.trained ht
      refine ⟨?_, ht.columns, ht.stored, fun id hid => ?_⟩
      · show i.fallback.rows.filter _ = []
        rw [ht.fallback]
        rfl
      · cases hget : i.idToIdx.get? id with
        | none => rfl
        | some idx =>
          have hb := ht.columns.bound id idx hget
          rw [hids] at hb
          exact absurd hb (Nat.not_lt_zero _)

theorem inv_step (hF : F.Lawful stored) {ops : List AnnOp} {i : IVFPQIndex ν} {op : AnnOp}
    (h : Inv F stored ops i) (hc : AddsAbsent F i op) :
    Inv F stored (ops ++ [op]) (i.step F op) := by
  cases op with
  | add rows =>
    show Inv F stored (ops ++ [.add rows]) (i.add F rows).1
    unfold add
    split
    · rename_i ht
      exact inv_addTrained hF (h.trained ht) ht hc.1 fun r hr => (hc.2.1 r hr).1
    · rename_i ht
      have ht : F.isTrained i.faissIndex = false := by simpa using ht
      exact inv_addUntrained hF (h.untrained ht).1 (h.untrained ht).2 ht hc
  | delete ids => exact inv_delete ids h
  | search query topK efSearch nprobe filterFn =>
    have hlast : ∀ id, lastTouch (ops ++ [.search query topK efSearch nprobe filterFn]) id =
        lastTouch ops id :=
      fun id => lastTouch_append ops _ id
    refine ⟨fun hf => ⟨⟨(h.untrained hf).1.ids, (h.untrained hf).1.nodup, fun id hid =>
      ?_⟩, (h.untrained hf).2⟩,
      fun ht => ⟨(h.trained ht).fallback, (h.trained ht).columns, (h.trained ht).stored,
        fun id hid => ?_⟩⟩
    · exact (h.untrained hf).1.deleted id (hlast id ▸ hid)
    · exact (h.trained ht).deleted id (hlast id ▸ hid)

theorem inv_run (hF : F.Lawful stored) {ops : List AnnOp} {i : IVFPQIndex ν}
    (hi : Inv F stored [] i) (hc : Along (total (step F)) (AddsAbsent F) i ops) :
    Inv F stored ops (ops.foldl (step F) i) :=
  foldl_invariant (I := Inv F stored) (fun _ _ _ h hc => inv_step hF h hc) hi hc

theorem inv_create (hF : F.Lawful stored) (dimension : Nat) (metric : DistanceMetric)
    (nlist nprobe m : Nat) :
    Inv F stored [] (create F dimension metric nlist nprobe m) where
  untrained _ := ⟨⟨rfl, List.nodup_nil, fun _ h => by cases h⟩, hF.stored_init _ _ _ _⟩
  trained _ := ⟨rfl, columns_nil, hF.stored_init _ _ _ _, fun _ h => by cases h⟩

/-- Training an empty index. -/
theorem inv_train (hF : F.Lawful stored) (dimension : Nat) (metric : DistanceMetric)
    (nlist nprobe m : Nat) (sample : List (List PyFloat)) :
    Inv F stored [] ((create F dimension metric nlist nprobe m).train F sample) := by
  unfold train
  split
  · exact inv_create hF dimension metric nlist nprobe m
  · have hstored : ∀ vectors, stored
        (F.train (create F dimension metric nlist nprobe m).faissIndex vectors).1 = [] :=
      fun vectors => (hF.stored_train _ _).trans (hF.stored_init _ _ _ _)
    exact ⟨fun _ => ⟨⟨rfl, List.nodup_nil, fun _ h => by cases h⟩, hstored _⟩,
      fun _ => ⟨rfl, columns_nil, hstored _, fun _ h => by cases h⟩⟩

variable [LinearOrder δ] [Neg δ] {S : Scoring δ}

omit [LinearOrder δ] in
theorem accept_eq_some {i : IVFPQIndex ν} {filterFn : Option (Metadata → Bool)} {hit : δ × Int}
    {r : AnnResult δ} (h : i.accept filterFn hit = some r) :
    hit.2 ≠ -1 ∧ ∃ md, i.ids[hit.2.toNat]? = some r.id ∧ i.metadatas[hit.2.toNat]? = some md ∧
      isDeleted md = false := by
  unfold accept at h
  split at h
  · cases h
  · rename_i hidx
    split at h
    · rename_i id md hid hmd
      split at h
      · cases h
      · rename_i hd
        split at h
        · cases h
          exact ⟨hidx, md, hid, hmd, by simpa using hd⟩
        · cases h
    · cases h

omit [Neg δ] in
/-- What the fallback finds is a row of it, and no row is found twice. -/
theorem noneDeleted_fallback {ops : List AnnOp} {i : IVFPQIndex ν} {query : List PyFloat}
    {topK : Nat} {filterFn : Option (Metadata → Bool)} {results : List (AnnResult δ)}
    (hnodup : (i.fallback.rows.map (·.id)).Nodup)
    (hdeleted : ∀ id, lastTouch ops id = some .deleted → id ∉ i.fallback.rows.map (·.id))
    (h : i.FallbackAnswers S query topK filterFn results) : NoneDeleted ops results := by
  obtain ⟨found, ⟨picked, rest, hperm, -, -, -, hfound⟩, rfl⟩ := h
  have hids : ((picked ++ rest).map (·.id)).Perm (i.fallback.rows.map (·.id)) := by
    have hmap := hperm.map (·.id)
    rwa [List.map_map] at hmap
  have hsub : (found.map (·.id)).Sublist ((picked ++ rest).map (·.id)) := by
    rw [hfound]
    exact (List.filter_sublist.trans (List.sublist_append_left _ _)).map _
  have hann : (found.map IndexResult.toAnn).map (·.id) = found.map (·.id) := by
    rw [List.map_map]
    rfl
  refine ⟨?_, fun r hr hlast => hdeleted r.id hlast ?_⟩
  · rw [hann]
    exact (hids.nodup_iff.mpr hnodup).sublist hsub
  · have hmem : r.id ∈ (found.map IndexResult.toAnn).map (·.id) := List.mem_map_of_mem hr
    rw [hann] at hmem
    exact hids.subset (hsub.subset hmem)

omit [LinearOrder δ] in
/-- Hits of a trained index: an index in use is the newest of its id, and FAISS finds it once. -/
theorem noneDeleted_hits (hF : F.Lawful stored) {ops : List AnnOp} {i : IVFPQIndex ν}
    (h : Trained ops (stored i.faissIndex) i) {query : List PyFloat} {k nprobe topK : Nat}
    {hits : List (δ × Int)} (filterFn : Option (Metadata → Bool))
    (hhits : F.search i.faissIndex query k nprobe = .ok hits) :
    NoneDeleted ops (collect (i.accept filterFn) topK hits []) := by
  have hsub := hF.search_stored _ _ _ _ _ hhits
  have hnodup : ((hits.map Prod.snd).filter (· ≠ -1)).Nodup := by
    obtain ⟨l, hperm, hl⟩ := hsub
    refine hperm.nodup_iff.mp (List.Nodup.sublist hl ?_)
    rw [h.stored]
    exact List.nodup_range.map Int.ofNat_injective
  have hnat : ∀ hit ∈ hits, hit.2 ≠ -1 → (hit.2.toNat : Int) = hit.2 := by
    intro hit hmem hne
    have hmem : hit.2 ∈ (hits.map Prod.snd).filter (· ≠ -1) :=
      List.mem_filter.mpr ⟨List.mem_map_of_mem hmem, by simpa using hne⟩
    obtain ⟨n, -, hn⟩ := List.mem_map.mp (hsub.subset hmem)
    rw [← hn]
    rfl
  have hdistinct : hits.Pairwise fun a b => a.2 ≠ -1 → b.2 ≠ -1 → a.2 ≠ b.2 := by
    have := List.pairwise_map.mp (List.pairwise_filter.mp hnodup)
    simpa using this
  have hnewest : ∀ hit ∈ hits, ∀ r, i.accept filterFn hit = some r →
      hit.2 ≠ -1 ∧ i.idToIdx.get? r.id = some hit.2.toNat := by
    intro hit _ r hr
    obtain ⟨hne, md, hid, hmd, hd⟩ := accept_eq_some hr
    exact ⟨hne, h.columns.newest _ _ _ hid hmd hd⟩
  have hfound : hits.Pairwise fun a b =>
      ∀ r, i.accept filterFn a = some r → ∀ t, i.accept filterFn b = some t → r.id ≠ t.id := by
    refine hdistinct.imp_of_mem fun {a b} ha hb hab r hr t ht he => ?_
    obtain ⟨hane, hanew⟩ := hnewest a ha r hr
    obtain ⟨hbne, hbnew⟩ := hnewest b hb t ht
    rw [he, hbnew] at hanew
    refine hab hane hbne ?_
    rw [← hnat a ha hane, ← hnat b hb hbne, Option.some.inj hanew]
  refine ⟨nodup_collect hfound, fun r hr hlast => ?_⟩
  obtain ⟨hit, hmem, hhit⟩ := mem_collect hr
  obtain ⟨-, hnew⟩ := hnewest hit hmem r hhit
  rw [h.deleted _ hlast] at hnew
  cases hnew

theorem noneDeleted_answers (hF : F.Lawful stored) {ops : List AnnOp} {i : IVFPQIndex ν}
    (h : Inv F stored ops i) {query : List PyFloat} {topK : Nat} {nprobe : Option Nat}
    {filterFn : Option (Metadata → Bool)} {results : List (AnnResult δ)}
    (ha : i.Answers F S query topK nprobe filterFn results) :
    NoneDeleted ops results := by
  have hfallback : ∀ query, i.FallbackAnswers S query topK filterFn results →
      NoneDeleted ops results := by
    intro query hq
    by_cases ht : F.isTrained i.faissIndex
    · have hrows := (h.trained ht).fallback
      exact noneDeleted_fallback (by rw [hrows]; exact List.nodup_nil)
        (by rw [hrows]; exact fun _ _ => List.not_mem_nil) hq
    · have hun := (h.untrained (by simpa using ht)).1
      exact noneDeleted_fallback hun.nodup hun.deleted hq
  unfold Answers at ha
  split at ha
  · rename_i ht
    dsimp only at ha
    split at ha
    · exact hfallback _ ha
    · rename_i hits hhits
      have hnone : NoneDeleted ops (collect (i.accept filterFn) topK hits []) :=
        noneDeleted_hits hF (h.trained ht.1) filterFn hhits
      split at ha
      · exact hfallback _ ha
      · rw [ha]
        exact hnone
  · exact hfallback _ ha

end IVFPQIndex

end

/-! ## Both -/

section

variable {ν ν' δ : Type} [LinearOrder δ] [One δ] [Sub δ] [Neg δ] {H : Hnswlib ν δ} {F : Faiss ν' δ}
  {stored : ν' → List Nat} {S : Scoring δ}

/-- An IVF-PQ index that was perhaps trained before anything was added. -/
def IVFPQIndex.start (F : Faiss ν' δ) (dimension : Nat) (metric : DistanceMetric)
    (nlist nprobe m : Nat) (sample : Option (List (List PyFloat))) : IVFPQIndex ν' :=
  match sample with
  | some sample => (create F dimension metric nlist nprobe m).train F sample
  | none => create F dimension metric nlist nprobe m

/-- Where every `add` is of absent ids, a search finds no deleted id and no id twice. -/
theorem never_finds_deleted (hH : H.Lawful) (hF : F.Lawful stored) (dimension : Nat)
    (metric : DistanceMetric) (m efConstruction efSearch maxElements nlist nprobe subspaces : Nat)
    (sample : Option (List (List PyFloat))) (ops : List AnnOp) :
    (Along (total (HNSWIndex.step H)) HNSWIndex.AddsAbsent
        (.create H dimension metric m efConstruction efSearch maxElements) ops →
      ∀ query topK ef filterFn, NoneDeleted ops
        ((ops.foldl (HNSWIndex.step H)
          (.create H dimension metric m efConstruction efSearch maxElements)).search H
          query topK ef filterFn).2) ∧
    (Along (total (IVFPQIndex.step F)) (IVFPQIndex.AddsAbsent F)
        (.start F dimension metric nlist nprobe subspaces sample) ops →
      ∀ query topK probe filterFn results,
        (ops.foldl (IVFPQIndex.step F)
          (.start F dimension metric nlist nprobe subspaces sample)).Answers F S
          query topK probe filterFn results → NoneDeleted ops results) := by
  constructor
  · intro hc query topK ef filterFn
    have hinv := HNSWIndex.inv_run
      (HNSWIndex.inv_create dimension metric m efConstruction efSearch maxElements) hc
    have hset := hinv.congr (HNSWIndex.sameMaps_search H _ query topK ef filterFn)
    exact HNSWIndex.noneDeleted_results hH hset query topK filterFn
  · intro hc query topK probe filterFn results hr
    refine IVFPQIndex.noneDeleted_answers hF (IVFPQIndex.inv_run hF ?_ hc) hr
    cases sample with
    | none => exact IVFPQIndex.inv_create hF dimension metric nlist nprobe subspaces
    | some sample => exact IVFPQIndex.inv_train hF dimension metric nlist nprobe subspaces sample

end

section

/-- An `hnswlib` in which all distances are zero, as they are between equal vectors. -/
private def equalHnsw : Hnswlib (Dict Nat (List PyFloat)) Int where
  init _ _ _ _ _ := ∅
  setEf index _ := index
  getMaxElements _ := 1000000
  resizeIndex index _ := (index, .ok ())
  addItems index items := (items.foldl (fun d item => d.set item.2 item.1) index, .ok ())
  markDeleted index label := index.pop label
  knnQuery index _ k := .ok ((index.keys.take k).map fun label => (label, 0))

/-- A FAISS in which all distances are zero. -/
private def equalFaiss : Faiss (Bool × List Nat) Int where
  indexIVFPQ _ _ _ _ := (false, [])
  isTrained index := index.1
  train index _ := ((true, index.2), .ok ())
  addWithIds index items := ((index.1, index.2 ++ items.map Prod.snd), .ok ())
  add index vectors := ((index.1, index.2 ++ List.range' index.2.length vectors.length), .ok ())
  search index _ k _ :=
    .ok ((index.2.take k).map (fun i => (0, Int.ofNat i)) ++
      List.replicate (k - index.2.length) (0, -1))
  normalizeL2 v := v

private theorem equalHnsw_lawful : equalHnsw.Lawful where
  knn_nodup index query k hits h := by
    cases h
    rw [List.map_map, show (Prod.fst ∘ fun label : Nat => (label, (0 : Int))) = id from rfl,
      List.map_id]
    exact index.nodup.sublist (List.take_sublist _ _)

private theorem equalFaiss_lawful : equalFaiss.Lawful Prod.snd where
  stored_init _ _ _ _ := rfl
  stored_train _ _ := rfl
  trained_addWithIds _ _ := rfl
  stored_addWithIds index items left h := by cases h; rfl
  stored_addWithIds_error index items left e h := by cases h
  trained_add _ _ := rfl
  stored_add index vectors left h := by cases h; rfl
  stored_add_error index vectors left e h := by cases h
  search_stored index query k nprobe hits h := by
    cases h
    have hnone : ((List.replicate (k - index.2.length) ((0 : Int), (-1 : Int))).map Prod.snd).filter
        (· ≠ -1) = [] := by
      simp
    rw [List.map_append, List.filter_append, hnone, List.append_nil, List.map_map]
    exact (List.filter_sublist.trans ((List.take_sublist _ _).map _)).subperm

private def unitRow (id : String) : FlatRow := ⟨id, [.finite 1], []⟩
private def zeroScores : Scoring Int := ⟨fun _ _ => 0, -1, fun s => s < 0⟩

/-- Two ids are added, one is deleted and added again. -/
private def addAgain : List AnnOp :=
  [.add [unitRow "a", unitRow "b"], .delete ["a"], .add [unitRow "a"], .delete ["b"]]

/-- An id is added twice, then deleted. -/
private def addTwice : List AnnOp := [.add [unitRow "a"], .add [unitRow "a"], .delete ["a"]]

private def tinyHnsw (ops : List AnnOp) : HNSWIndex (Dict Nat (List PyFloat)) :=
  ops.foldl (HNSWIndex.step equalHnsw) (.create equalHnsw 1 .euclidean 16 200 100 1000000)

private def tinyIvf (ops : List AnnOp) : IVFPQIndex (Bool × List Nat) :=
  ops.foldl (IVFPQIndex.step equalFaiss)
    (.start equalFaiss 1 .euclidean 1 64 0 (some [[.finite 1]]))

private instance (i : HNSWIndex (Dict Nat (List PyFloat))) (op : AnnOp) :
    Decidable (HNSWIndex.AddsAbsent i op) := by
  cases op <;> unfold HNSWIndex.AddsAbsent <;> infer_instance

/-- `AddsAbsent` of an index that is trained. -/
private def TrainedAbsent (i : IVFPQIndex (Bool × List Nat)) : AnnOp → Prop
  | .add rows => i.faissIndex.1 = true ∧ (rows.map (·.id)).Nodup ∧
      ∀ r ∈ rows, i.idToIdx.get? r.id = none ∧ r.id ∉ i.fallback.rows.map (·.id)
  | _ => True

private instance (i : IVFPQIndex (Bool × List Nat)) (op : AnnOp) :
    Decidable (TrainedAbsent i op) := by
  cases op <;> unfold TrainedAbsent <;> infer_instance

private theorem addsAbsent_of_trained (i : IVFPQIndex (Bool × List Nat)) (op : AnnOp)
    (h : TrainedAbsent i op) :
    IVFPQIndex.AddsAbsent equalFaiss i op := by
  cases op with
  | add rows =>
    refine ⟨h.2.1, h.2.2, fun ht => ?_⟩
    rw [show equalFaiss.isTrained i.faissIndex = true from h.1] at ht
    cases ht
  | delete ids => trivial
  | search query topK efSearch nprobe filterFn => trivial

/-- Two ids are added, one of them is deleted and added again. -/
theorem never_finds_deleted_again :
    NoneDeleted addAgain ((tinyHnsw addAgain).search equalHnsw [.finite 1] 10 none none).2 ∧
      NoneDeleted addAgain [(⟨"a", 0, none, []⟩ : AnnResult Int)] := by
  have h := never_finds_deleted (S := zeroScores) equalHnsw_lawful equalFaiss_lawful 1 .euclidean
    16 200 100 1000000
    1 64 0 (some [[.finite 1]]) addAgain
  exact ⟨h.1 (by decide +kernel) [.finite 1] 10 none none,
    h.2 (.mono addsAbsent_of_trained (by decide +kernel)) [.finite 1] 10 none none _ rfl⟩

/-- An id that is added while it is present is found after it was deleted. -/
theorem finds_deleted : lastTouch addTwice "a" = some .deleted ∧
    ((tinyHnsw addTwice).search equalHnsw [.finite 1] 10 none none).2 = [⟨"a", 0, none, []⟩] ∧
    (tinyIvf addTwice).Answers equalFaiss zeroScores [.finite 1] 10 none none
      [⟨"a", 0, none, []⟩] :=
  ⟨rfl, rfl, rfl⟩

end

end Vsector.Index
