import Vsector.Impl.Query.Engine

/-!
# Re-ranking for diversity

`mmr_rerank` of `query/ranking.py`, in exact arithmetic. Of a candidate it
reads the score and the vector, and otherwise compares whole candidates; the
similarity of two vectors is a parameter. The query vector is normalised, but
nothing reads what comes of it.
-/

namespace Vsector.Query

/-- What `mmr_rerank` reads of a candidate, the cosine, and `lambda_mult`. -/
structure Mmr (α : Type) where
  score : α → ℚ
  vector : α → Option (List ℚ)
  /-- `np.dot(_norm(v), _norm(w))`. -/
  sim : List ℚ → List ℚ → ℚ
  lambdaMult : ℚ

namespace Mmr

variable {α : Type} [DecidableEq α] (M : Mmr α)

omit [DecidableEq α] in
/-- `vecs`: the score stands in where there is no vector. -/
def vecs (candidates : List α) : List (List ℚ) :=
  candidates.map fun c => (M.vector c).getD [M.score c]

/-- `vecs[candidates.index(c)]`. -/
def vec (candidates : List α) (c : α) : List ℚ := ((M.vecs candidates)[candidates.idxOf c]?).getD []

/-- `max_sim`, the greatest similarity to what is selected, and at least zero. -/
def maxSim (candidates selected : List α) (cand : α) : ℚ :=
  selected.foldl (fun m sel => max m (M.sim (M.vec candidates cand) (M.vec candidates sel))) 0

/-- `mmr`, the marginal relevance of a candidate. -/
def mmr (candidates selected : List α) (cand : α) : ℚ :=
  M.lambdaMult * M.score cand - (1 - M.lambdaMult) * M.maxSim candidates selected cand

/-- The loop over `remaining`, from `best` and `best_mmr`. -/
def better (candidates selected : List α) : List α → Option α → ℚ → Option α
  | [], best, _ => best
  | cand :: remaining, best, bestMmr =>
    if bestMmr < M.mmr candidates selected cand then
      better candidates selected remaining (some cand) (M.mmr candidates selected cand)
    else better candidates selected remaining best bestMmr

/-- The candidate that is selected next, if there is one. -/
def best (candidates selected remaining : List α) : Option α :=
  M.better candidates selected remaining none (-10 ^ 9)

theorem mem_better {candidates selected remaining : List α} {b : Option α} {m : ℚ} {c : α}
    (h : M.better candidates selected remaining b m = some c) : c ∈ remaining ∨ b = some c := by
  induction remaining generalizing b m with
  | nil => exact .inr h
  | cons a remaining ih =>
    rw [better] at h
    split at h
    · rcases ih h with hc | hc
      · exact .inl (List.mem_cons_of_mem _ hc)
      · cases hc
        exact .inl List.mem_cons_self
    · exact (ih h).imp_left (List.mem_cons_of_mem _)

theorem mem_best {candidates selected remaining : List α} {c : α}
    (h : M.best candidates selected remaining = some c) :
    c ∈ remaining := (M.mem_better h).resolve_right (by simp)

/-- The `while` loop. No candidate is empty, so `best` is false only where it is `None`. -/
def select (candidates : List α) (topK : Int) (selected remaining : List α) : List α :=
  if remaining ≠ [] ∧ (selected.length : Int) < topK then
    match _h : M.best candidates selected remaining with
    | none => selected
    | some b => select candidates topK (selected ++ [b]) (remaining.erase b)
  else selected
termination_by remaining.length
decreasing_by
  have hb := M.mem_best ‹_›
  have := List.length_pos_of_mem hb
  rw [List.length_erase_of_mem hb]
  omega

/-- `mmr_rerank(query_vec, candidates, top_k, lambda_mult)`. -/
def rerank (candidates : List α) (topK : Int) : List α :=
  if candidates = [] ∨ (candidates.length : Int) ≤ topK then pyTake candidates topK
  else
    match candidates.insertionSort fun a b => M.score b ≤ M.score a with
    | [] => []
    | first :: remaining => M.select candidates topK [first] remaining

end Mmr

end Vsector.Query
