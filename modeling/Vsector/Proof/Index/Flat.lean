import Vsector.Framework.TopK
import Vsector.Impl.Index.Flat
import Vsector.Proof.Sharding.Router

/-!
# What a flat search returns

A search of a flat index selects the best of the rows that the filter accepts
and whose score does not sink to `-1e8` (`top_kept`): the rows it rejects are
among those that do. So it selects the best of all that are accepted exactly
if enough of them are above that (`top_search_iff`).
-/

namespace Vsector.Index.FlatIndex

open Framework Models Sharding

variable {K : Type} [Field K] [LinearOrder K] [IsStrictOrderedRing K]

/-- What is documented of `np.argpartition` and `np.argsort` on the scores, from the highest. -/
def PicksBest {σ : Type} [LinearOrder σ] (pick : List σ → Int → List Nat) : Prop :=
  ∀ (scores : List σ) (k : Int) (d : σ), 1 ≤ k → k ≤ scores.length →
    Top (fun j => scores.getD j d) k.toNat (List.range scores.length) (pick scores k)

/-- Whether a filter that does not raise accepts. -/
def accepts (filterFn : Option (Metadata → Except Exc Bool)) (md : Metadata) : Bool :=
  filterFn.all fun f => (f md).toOption.getD false

/-- No row makes the filter raise. -/
def Filters (filterFn : Option (Metadata → Except Exc Bool)) (rows : List FlatRow) : Prop :=
  ∀ f, filterFn = some f → ∀ row ∈ rows, ∃ b, f row.metadata = .ok b

/-- The ids and scores of the rows that are accepted. -/
def matching (score : List PyFloat → List PyFloat → K) (query : List PyFloat)
    (filterFn : Option (Metadata → Except Exc Bool)) (rows : List FlatRow) : List (String × K) :=
  (rows.filter fun row => accepts filterFn row.metadata).map fun row =>
    (row.id, score query row.vector)

variable {score : List PyFloat → List PyFloat → K} {pick : List K → Int → List Nat} {i : FlatIndex}
  {query : List PyFloat} {topK : Int} {filterFn : Option (Metadata → Except Exc Bool)}

theorem mask_ok (h : Filters filterFn i.rows) :
    i.mask filterFn = .ok (i.rows.map fun row => accepts filterFn row.metadata) := by
  cases filterFn with
  | none => rfl
  | some f =>
    refine ShardRouter.mapM_ok fun row hrow => ?_
    obtain ⟨b, hb⟩ := h f rfl row hrow
    rw [hb, accepts, Option.all_some, hb]
    rfl

theorem mask_ok_iff : (∃ mask, i.mask filterFn = .ok mask) ↔ Filters filterFn i.rows := by
  constructor
  · rintro ⟨mask, hmask⟩ f rfl
    exact ShardRouter.mapM_ok_iff.mp ⟨mask, hmask⟩
  · exact fun h => ⟨_, mask_ok h⟩

omit [IsStrictOrderedRing K] in
/-- A search raises exactly if the filter does. -/
theorem search_ok_iff :
    (∃ results, i.search (exactScoring score) pick query topK filterFn = .ok results) ↔
      Filters filterFn i.rows := by
  unfold search
  by_cases hrows : i.rows = []
  · rw [if_pos hrows]
    refine iff_of_true ⟨[], rfl⟩ fun f _ row hrow => ?_
    rw [hrows] at hrow
    cases hrow
  · rw [if_neg hrows, ← mask_ok_iff]
    rcases i.mask filterFn with exc | mask
    · exact iff_of_false (fun ⟨_, h⟩ => by cases h) fun ⟨_, h⟩ => by cases h
    · exact iff_of_true ⟨_, rfl⟩ ⟨mask, rfl⟩

omit [Field K] [IsStrictOrderedRing K] in
/-- The results at the positions that are picked. -/
theorem top_picked (hpick : PicksBest pick) (htop : 1 ≤ topK) {scored : List (IndexResult K)}
    (hne : scored ≠ []) :
    Top IndexResult.score topK.toNat scored
      ((pick (scored.map IndexResult.score) (min topK scored.length)).filterMap fun j =>
        scored[j]?) := by
  obtain ⟨d, -⟩ := List.exists_mem_of_ne_nil scored hne
  have hpos := List.length_pos_of_ne_nil hne
  have hpicked := hpick (scored.map IndexResult.score) (min topK scored.length) d.score (by omega)
    (by rw [List.length_map]; omega)
  generalize pick (scored.map IndexResult.score) (min topK scored.length) = picks at hpicked
  have hk : (min topK (scored.length : Int)).toNat = min topK.toNat scored.length := by omega
  rw [List.length_map, hk, top_min_iff List.length_range] at hpicked
  have hat : ∀ j ∈ picks, scored[j]? = some (scored.getD j d) := fun j hj => by
    have hlt := List.mem_range.mp (hpicked.mem hj)
    rw [List.getD_eq_getElem?_getD, List.getElem?_eq_getElem hlt]
    rfl
  have hall : (List.range scored.length).map (fun j => scored.getD j d) = scored := by
    refine List.ext_getElem (by rw [List.length_map, List.length_range]) fun j hj hj' => ?_
    rw [List.getElem_map, List.getElem_range, List.getD_eq_getElem?_getD,
      List.getElem?_eq_getElem hj']
    rfl
  have hmap : Top IndexResult.score topK.toNat ((List.range scored.length).map fun j =>
      scored.getD j d)
      (picks.map fun j => scored.getD j d) := by
    refine Top.map (hpicked.congr fun j _ => ?_)
    rw [List.getD_map]
  rw [hall] at hmap
  rw [List.filterMap_congr hat, show (fun j => some (scored.getD j d)) = some ∘ fun j =>
    scored.getD j d from rfl, List.filterMap_eq_map]
  exact hmap

variable (score) in
omit [IsStrictOrderedRing K] in
theorem not_sunk_iff {s : K} : (!(exactScoring score).sunk s) = true ↔ -10 ^ 8 < s := by
  rw [Bool.not_eq_true', ← Bool.not_eq_true, ← not_le]
  exact not_congr decide_eq_true_iff

/-- Of the scored rows, those that do not sink. -/
theorem kept_scored (rows : List FlatRow) :
    (((rows.map (result (exactScoring score) query (some (accepts filterFn)))).filter
        fun a => !(exactScoring score).sunk a.score).map fun a => (a.id, a.score)) =
      (matching score query filterFn rows).filter fun a => -10 ^ 8 < a.2 := by
  unfold matching
  induction rows with
  | nil => rfl
  | cons row rows ih =>
    have hscore : (result (exactScoring score) query (some (accepts filterFn)) row).score =
        if accepts filterFn row.metadata then score query row.vector else -10 ^ 9 := rfl
    rw [List.map_cons, List.filter_cons, List.filter_cons]
    by_cases haccepts : accepts filterFn row.metadata = true
    · rw [if_pos haccepts] at hscore
      rw [if_pos haccepts, List.map_cons, List.filter_cons]
      by_cases hlt : -10 ^ 8 < score query row.vector
      · rw [if_pos (by rw [hscore]; exact (not_sunk_iff score).mpr hlt),
          if_pos (decide_eq_true hlt), List.map_cons, ih, hscore]
        rfl
      · rw [if_neg (by rw [hscore]; exact mt (not_sunk_iff score).mp hlt),
          if_neg (by simpa using hlt), ih]
    · rw [if_neg haccepts] at hscore
      have hsunk : ¬ (-10 ^ 8 : K) < -10 ^ 9 := by norm_num
      rw [if_neg haccepts, if_neg (by rw [hscore]; exact mt (not_sunk_iff score).mp hsunk), ih]

omit [IsStrictOrderedRing K] in
/-- The rows that a search scores, where the filter does not raise. -/
theorem search_eq (hrows : i.rows ≠ []) (hfilters : Filters filterFn i.rows) :
    i.search (exactScoring score) pick query topK filterFn =
      let scored := i.rows.map (result (exactScoring score) query (some (accepts filterFn)))
      .ok (((pick (scored.map IndexResult.score) (min topK scored.length)).filterMap fun j =>
        scored[j]?).filter
        fun a => !(exactScoring score).sunk a.score) := by
  unfold search
  rw [if_neg hrows, mask_ok hfilters]
  dsimp only
  rw [List.zipWith_map_right, List.zipWith_self]
  rfl

/-- The results are the best of the rows that are accepted and do not sink. -/
theorem top_kept (hpick : PicksBest pick) (htop : 1 ≤ topK) {results : List (IndexResult K)}
    (h : i.search (exactScoring score) pick query topK filterFn = .ok results) :
    Top Prod.snd topK.toNat ((matching score query filterFn i.rows).filter fun a => -10 ^ 8 < a.2)
      (results.map fun a => (a.id, a.score)) := by
  have hfilters := search_ok_iff.mp ⟨results, h⟩
  by_cases hrows : i.rows = []
  · rw [search, if_pos hrows] at h
    cases h
    rw [hrows]
    exact ⟨[], List.Perm.refl _,
      by simp [matching], fun a ha => absurd ha List.not_mem_nil, List.Pairwise.nil⟩
  · rw [search_eq hrows hfilters] at h
    cases h
    let scored := i.rows.map (result (exactScoring score) query (some (accepts filterFn)))
    have hpicked : Top IndexResult.score topK.toNat scored _ :=
      top_picked hpick htop (mt List.map_eq_nil_iff.mp hrows)
    -- what sinks is below what does not
    have hbest := hpicked.filter fun a _ b _ ha hb =>
      (not_lt.mp (mt (not_sunk_iff score).mpr (Bool.not_eq_true _ ▸ hb))).trans_lt
        ((not_sunk_iff score).mp ha)
    rw [← kept_scored]
    exact Top.map hbest

/-- The results are the best of the rows that are accepted, where none of them sinks. -/
theorem top_search (hpick : PicksBest pick) (htop : 1 ≤ topK)
    (hscores : ∀ row ∈ i.rows, -10 ^ 8 < score query row.vector) {results : List (IndexResult K)}
    (h : i.search (exactScoring score) pick query topK filterFn = .ok results) :
    Top Prod.snd topK.toNat (matching score query filterFn i.rows)
      (results.map fun a => (a.id, a.score)) := by
  have hkept : ((matching score query filterFn i.rows).filter fun a => -10 ^ 8 < a.2) =
      matching score query filterFn i.rows := by
    refine List.filter_eq_self.mpr fun a ha => decide_eq_true ?_
    obtain ⟨row, hrow, rfl⟩ := List.mem_map.mp ha
    exact hscores row (List.mem_filter.mp hrow).1
  rw [← hkept]
  exact top_kept hpick htop h

/-- The results are the best of the rows that are accepted exactly if enough of these do not
sink. -/
theorem top_search_iff (hpick : PicksBest pick) (htop : 1 ≤ topK) {results : List (IndexResult K)}
    (h : i.search (exactScoring score) pick query topK filterFn = .ok results) :
    Top Prod.snd topK.toNat (matching score query filterFn i.rows)
      (results.map fun a => (a.id, a.score)) ↔
      min topK.toNat (matching score query filterFn i.rows).length ≤
        ((matching score query filterFn i.rows).filter fun a => -10 ^ 8 < a.2).length := by
  refine top_filter_iff (fun a _ b _ ha hb => ?_) (top_kept hpick htop h)
  exact (not_lt.mp (of_decide_eq_false hb)).trans_lt (of_decide_eq_true ha)

end Vsector.Index.FlatIndex
