import Vsector.Impl.Index.Scann
import Vsector.Proof.Index.Flat
import Vsector.Proof.Query.ShardedSearch

/-!
# Two stages find what one does

`scann_search_eq`: the ids that the two-stage search returns, and their order,
are those of the flat search. The first stage takes at least as many of the
same rows (`Top.take`), and the second multiplies their scores by a positive
number, so the sort that follows finds them sorted.
-/

namespace Vsector.Index.ScaNNIndex

open Framework Models Query FlatIndex

variable {K : Type} [Field K] [LinearOrder K] [IsStrictOrderedRing K] {norm : List K → K}
  {pick : List K → Int → List Nat} {i : ScaNNIndex} {query : List PyFloat} {topK : Int}
  {filterFn : Option (Metadata → Except Exc Bool)}

theorem correction_pos (hnorm : ∀ v, 0 ≤ norm v) (query : List PyFloat) :
    0 < correction norm query := by
  have hq := hnorm (query.map fun x => (number x : K))
  have he : (0 : K) < epsilon := by unfold epsilon; positivity
  unfold correction
  linarith

/-- Scores are multiplied by a positive number, and the order stays. -/
theorem boosted_sorted {c : K} (hc : 0 < c) {results : List (IndexResult K)}
    (h : results.Pairwise fun a b => b.score ≤ a.score) :
    (results.map fun r => { r with score := r.score * c }).insertionSort
      (fun a b => b.score ≤ a.score) =
      results.map fun r => { r with score := r.score * c } := by
  refine List.Pairwise.insertionSort_eq ?_
  rw [List.pairwise_map]
  exact h.imp fun hab => mul_le_mul_of_nonneg_right hab hc.le

theorem pyTake_map {α β : Type} (f : α → β) (l : List α) (k : Int) :
    pyTake (l.map f) k = (pyTake l k).map f := by
  unfold pyTake
  split
  · exact List.map_take.symm
  · rw [List.length_map]
    exact List.map_take.symm

/-- The second stage drops all but the first `top_k` of what the first found. -/
theorem search_of_candidates (hnorm : ∀ v, 0 ≤ norm v) {candidates : List (IndexResult K)}
    (hcount : i.count ≠ 0) (htop : 1 ≤ topK)
    (h : i.flat.search (exactScoring (metricScore norm i.metric)) pick query
      (min (topK * 3) i.count) filterFn = .ok candidates)
    (hsorted : candidates.Pairwise fun a b => b.score ≤ a.score) :
    (i.search norm pick query topK filterFn).map (List.map IndexResult.id) =
      .ok ((candidates.take topK.toNat).map IndexResult.id) := by
  have htake {α : Type} (l : List α) : pyTake l topK = l.take topK.toNat := if_pos (by omega)
  have hk : ¬ (min (topK * 3) (i.count : Int)) = 0 := by omega
  simp only [search, if_neg hcount, if_neg hk, h]
  split
  · rw [boosted_sorted (correction_pos hnorm query) hsorted, pyTake_map, htake]
    exact congrArg Except.ok (List.map_map ..)
  · rw [htake]
    rfl

omit [IsStrictOrderedRing K] in
theorem search_of_empty (h : i.flat.rows = []) :
    i.search norm pick query topK filterFn = .ok [] := by
  simp [search, count, h]

omit [IsStrictOrderedRing K] in
/-- Both searches ask the filter of every row first. -/
theorem search_error (hcount : i.count ≠ 0) (htop : 1 ≤ topK) {k : Int} {exc : Exc}
    (h : i.flat.search (exactScoring (metricScore norm i.metric)) pick query k
      filterFn = .error exc) :
    i.search norm pick query topK filterFn = .error exc := by
  have hrows : i.flat.rows ≠ [] := fun he => hcount (by rw [count, he]; rfl)
  have hk : ¬ (min (topK * 3) (i.count : Int)) = 0 := by omega
  have hall : i.flat.search (exactScoring (metricScore norm i.metric)) pick query
      (min (topK * 3) i.count) filterFn = .error exc := by
    unfold FlatIndex.search at h ⊢
    rw [if_neg hrows] at h ⊢
    revert h
    rcases i.flat.mask filterFn with e | mask
    · exact id
    · intro h
      cases h
  simp only [search, if_neg hcount, if_neg hk, hall]

/-- The two-stage search, beside the flat search of the same rows. -/
theorem scann_search_eq (hpick : PicksBest pick) (hnorm : ∀ v, 0 ≤ norm v) (htop : 1 ≤ topK)
    (hdistinct : ((matching (metricScore norm i.metric) query filterFn i.flat.rows).map
      Prod.snd).Nodup) :
    (i.search norm pick query topK filterFn).map (List.map IndexResult.id) =
      (i.flat.search (exactScoring (metricScore norm i.metric)) pick query topK filterFn).map
        (List.map IndexResult.id) := by
  by_cases hrows : i.flat.rows = []
  · rw [search_of_empty hrows, FlatIndex.search, if_pos hrows]
  · have hcount : i.count ≠ 0 := fun he => hrows (List.length_eq_zero_iff.mp he)
    rcases hflat : i.flat.search (exactScoring (metricScore norm i.metric)) pick query topK
      filterFn with exc | results
    · rw [search_error hcount htop hflat]
    · -- the filter raises in neither
      obtain ⟨candidates, hcands⟩ :
          ∃ candidates, i.flat.search (exactScoring (metricScore norm i.metric)) pick query
          (min (topK * 3) i.count) filterFn = .ok candidates :=
            search_ok_iff.mpr (search_ok_iff.mp ⟨results, hflat⟩)
      have hbest := top_kept hpick htop hflat
      have hfirst := top_kept hpick (by omega) hcands
      have hsorted : candidates.Pairwise fun a b => b.score ≤ a.score := by
        obtain ⟨-, -, -, -, hs⟩ := hfirst
        exact List.pairwise_map.mp hs
      have hkept : (((matching (metricScore norm i.metric) query filterFn i.flat.rows).filter
          fun a => -10 ^ 8 < a.2).map Prod.snd).Nodup := hdistinct.sublist
            (List.filter_sublist.map _)
      have hlen : ((matching (metricScore norm i.metric) query filterFn i.flat.rows).filter
          fun a => -10 ^ 8 < a.2).length ≤ i.count := by
        refine (List.length_filter_le ..).trans ?_
        rw [matching, List.length_map]
        exact List.length_filter_le ..
      have heq := hbest.unique hkept (hfirst.take (k := topK.toNat) (by omega))
      rw [search_of_candidates hnorm hcount htop hcands hsorted]
      have hids := congrArg (List.map Prod.fst) heq
      rw [← List.map_take, List.map_map, List.map_map] at hids
      exact congrArg Except.ok hids.symm

/-- The norm of a vector of one element. -/
def abs1 (v : List ℚ) : ℚ := |v.sum|

private def threeVectors : ScaNNIndex :=
  ⟨"cosine", ⟨1, [⟨"a", [.finite 1], []⟩, ⟨"b", [.finite 3], []⟩, ⟨"c", [.finite 2], []⟩]⟩⟩

theorem scann_search_three : PicksBest sortedPick ∧ (∀ v, 0 ≤ abs1 v) ∧
    ((matching (metricScore abs1 threeVectors.metric) [.finite 1] none threeVectors.flat.rows).map
      Prod.snd).Nodup ∧
    (threeVectors.search abs1 sortedPick [.finite 1] 2 none).map (List.map IndexResult.id) =
      (threeVectors.flat.search (exactScoring (metricScore abs1 threeVectors.metric)) sortedPick
        [.finite 1] 2 none).map
        (List.map IndexResult.id) := by
  have hdistinct : ((matching (metricScore abs1 threeVectors.metric) [.finite 1] none
      threeVectors.flat.rows).map Prod.snd).Nodup := by
    decide +kernel
  have hnorm : ∀ v, 0 ≤ abs1 v := fun v => abs_nonneg _
  exact ⟨picksBest_sortedPick, hnorm, hdistinct,
    scann_search_eq picksBest_sortedPick hnorm (by decide) hdistinct⟩

end Vsector.Index.ScaNNIndex
