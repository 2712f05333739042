import Vsector.Impl.Index.Base

/-!
# Searching a flat index

`FlatIndex.search` of `index/flat.py`. Which of the rows with equal scores
`np.argpartition` and `np.argsort` take first is not documented, so a search
has several possible answers (`Answers`), or is one for each choice of theirs
(`search`).
-/

namespace Vsector.Index

open Models

/-- What a search takes from numpy: scores in the order it sorts them. -/
structure Scoring (σ : Type) where
  /-- `_score(query, vector)`. -/
  score : List PyFloat → List PyFloat → σ
  /-- `-1e9`. -/
  masked : σ
  /-- `score <= -1e8`. -/
  sunk : σ → Bool

/-- The metrics whose scores are sums of products or of distances. -/
inductive ExactMetric where
  | dotProduct
  | manhattan

/-- The number a float denotes; one that is not finite has none. -/
def number : PyFloat → ℚ
  | .finite x => x
  | _ => 0

/-- `_score` of one vector, for these metrics and in exact arithmetic. The query has the dimension
of the index, which numpy raises without. -/
def ExactMetric.score : ExactMetric → List PyFloat → List PyFloat → ℚ
  | dotProduct, query, vector => (List.zipWith (fun x q => number x * number q) vector query).sum
  | manhattan, query, vector => -(List.zipWith (fun x q => |number x - number q|) vector query).sum

/-- Scores in exact arithmetic. -/
def exactScoring {K : Type} [Field K] [LinearOrder K] (score : List PyFloat → List PyFloat → K) :
    Scoring K where
  score := score
  masked := -10 ^ 9
  sunk s := s ≤ -10 ^ 8

structure IndexResult (σ : Type) where
  id : String
  score : σ
  vector : List PyFloat
  metadata : Metadata

namespace FlatIndex

variable {σ : Type} [LinearOrder σ] (S : Scoring σ)

/-- A row and its score; a row that the filter rejects has the score `-1e9`. -/
def result (query : List PyFloat) (filterFn : Option (Metadata → Bool)) (row : FlatRow) :
    IndexResult σ where
  id := row.id
  score := if filterFn.all (· row.metadata) then S.score query row.vector else S.masked
  vector := row.vector
  metadata := row.metadata

/-- `results` is a possible answer of `search(query, top_k, filter_fn)`: `picked` are the `k` best
rows, best first, and those that sank are left out. -/
def Answers (i : FlatIndex) (query : List PyFloat) (topK : Nat)
    (filterFn : Option (Metadata → Bool)) (results : List (IndexResult σ)) : Prop :=
  ∃ picked rest : List (IndexResult σ),
    (picked ++ rest).Perm (i.rows.map (result S query filterFn)) ∧
    picked.length = min topK i.rows.length ∧ (∀ a ∈ picked, ∀ b ∈ rest, b.score ≤ a.score) ∧
    picked.Pairwise (fun a b => b.score ≤ a.score) ∧ results = picked.filter fun a =>
      !S.sunk a.score

/-- `filter_fn` of every row. -/
def mask (i : FlatIndex) : Option (Metadata → Except Exc Bool) → Except Exc (List Bool)
  | none => .ok (i.rows.map fun _ => true)
  | some filterFn => i.rows.mapM fun row => filterFn row.metadata

/-- `search(query, top_k, filter_fn)`; `pick scores k` are the positions that numpy picks, best
first. -/
def search (pick : List σ → Int → List Nat) (i : FlatIndex) (query : List PyFloat) (topK : Int)
    (filterFn : Option (Metadata → Except Exc Bool)) : Except Exc (List (IndexResult σ)) :=
  if i.rows = [] then .ok []
  else
    match i.mask filterFn with
    | .error e => .error e
    | .ok mask =>
      let scored : List (IndexResult σ) := List.zipWith (fun row m =>
        ⟨row.id, if m then S.score query row.vector else S.masked, row.vector,
          row.metadata⟩) i.rows mask
      let idx := pick (scored.map IndexResult.score) (min topK scored.length)
      .ok ((idx.filterMap fun j => scored[j]?).filter fun a => !S.sunk a.score)

end FlatIndex

end Vsector.Index
