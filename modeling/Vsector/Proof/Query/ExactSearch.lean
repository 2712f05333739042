import Vsector.Proof.Query.ShardedSearch

/-!
# Exact search

Whether `FlatIndex.search` returns the best of the entries that pass the
filter, for the metrics whose scores are exact. It marks an entry that does
not pass by a score of `-1e9` and drops what has at most `-1e8`, an entry with
so low a score of its own too (`exact_search_iff`).
-/

namespace Vsector.Index.FlatIndex

open Framework Models Query

/-- The results are the `min(top_k, m)` best of the `m` entries that pass the filter, best first. -/
def ReturnsBest (metric : ExactMetric) (pick : List ℚ → Int → List Nat) (i : FlatIndex)
    (query : List PyFloat) (topK : Int) (filterFn : Option (Metadata → Except Exc Bool)) : Prop :=
  ∃ results, i.search (exactScoring metric.score) pick query topK filterFn = .ok results ∧
    Top Prod.snd topK.toNat (matching metric.score query filterFn i.rows)
      (results.map fun a => (a.id, a.score))

/-- A search returns the best of the entries that pass exactly if the filter does not raise and
enough of these score above `-1e8`. -/
theorem exact_search_iff {pick : List ℚ → Int → List Nat} (hpick : PicksBest pick)
    (metric : ExactMetric) (i : FlatIndex) (query : List PyFloat) {topK : Int} (htop : 1 ≤ topK)
    (filterFn : Option (Metadata → Except Exc Bool)) :
    ReturnsBest metric pick i query topK filterFn ↔ Filters filterFn i.rows ∧
      min topK.toNat (matching metric.score query filterFn i.rows).length ≤
        ((matching metric.score query filterFn i.rows).filter fun a => -10 ^ 8 < a.2).length := by
  constructor
  · rintro ⟨results, h, hbest⟩
    exact ⟨search_ok_iff.mp ⟨results, h⟩, (top_search_iff hpick htop h).mp hbest⟩
  · rintro ⟨hfilters, henough⟩
    obtain ⟨results, h⟩ : ∃ results, i.search (exactScoring metric.score) pick query topK filterFn =
        .ok results :=
      search_ok_iff.mpr hfilters
    exact ⟨results, h, (top_search_iff hpick htop h).mpr henough⟩

private def rowOf (id : String) (x : ℚ) : FlatRow := ⟨id, [.finite x], []⟩

theorem exact_search_two :
    ReturnsBest .dotProduct sortedPick ⟨1, [rowOf "a" 1, rowOf "b" 3, rowOf "c" (-2)]⟩
      [.finite 1] 2 none := by
  refine (exact_search_iff picksBest_sortedPick .dotProduct _ [.finite 1] (by decide) none).mpr
    ⟨?_, by decide +kernel⟩
  rintro f ⟨⟩

/-- The only entry scores `-2e8`, and is not returned. -/
theorem exact_search_misses_low_scores : ∃ (i : FlatIndex) (query : List PyFloat),
    (i.rows.map fun row => ExactMetric.dotProduct.score query row.vector).Nodup ∧
      ¬ ReturnsBest .dotProduct sortedPick i query 1 none := by
  refine ⟨⟨1, [rowOf "a" (-2 * 10 ^ 8)]⟩, [.finite 1], by decide +kernel, ?_⟩
  rintro ⟨results, h, hbest⟩
  have henough := (top_search_iff picksBest_sortedPick (by decide) h).mp hbest
  revert henough
  decide +kernel

end Vsector.Index.FlatIndex
