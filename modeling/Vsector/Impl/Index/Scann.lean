import Vsector.Impl.Index.Flat
import Vsector.Impl.Query.Engine

/-!
# The two-stage search

`ScaNNIndex` of `index/scann.py`, and `_score` of `index/base.py` for every
metric, in exact arithmetic. The norm, a square root, is a parameter. The
compressed vectors and the raw copies that `add` makes are read by nothing,
and are left out.
-/

namespace Vsector.Index

open Models Query

variable {K : Type} [Field K] [LinearOrder K]

/-- `1e-9`. -/
def epsilon : K := 1 / ((10 ^ 9 : ℕ) : K)

/-- `_score` of one vector; the metric is in lower case. -/
def metricScore (norm : List K → K) (metric : String) (query vector : List PyFloat) : K :=
  let q : List K := query.map fun x => (number x : K)
  let v : List K := vector.map fun x => (number x : K)
  if metric = "cosine" then
    let qn := q.map fun x => x / (norm q + epsilon)
    let dbn := v.map fun x => x / (norm v + epsilon)
    (List.zipWith (· * ·) dbn qn).sum
  else if metric = "dot_product" then (List.zipWith (· * ·) v q).sum
  else if metric = "manhattan" then -(List.zipWith (fun x y => |x - y|) v q).sum
  else -norm (List.zipWith (· - ·) v q)

structure ScaNNIndex where
  metric : String
  flat : FlatIndex

namespace ScaNNIndex

def add (i : ScaNNIndex) (id : String) (vector : List PyFloat) (metadata : Metadata) :
    Except Exc ScaNNIndex :=
  (i.flat.add id vector metadata).map fun flat => { i with flat := flat }

def delete (i : ScaNNIndex) (id : String) : ScaNNIndex := { i with flat := i.flat.delete id }

def count (i : ScaNNIndex) : Nat := i.flat.rows.length

/-- `1.0 + 0.05 * (qn - 1.0)`. -/
def correction (norm : List K → K) (query : List PyFloat) : K :=
  let qn := norm (query.map fun x => (number x : K)) + epsilon
  1 + 5 / 100 * (qn - 1)

/-- `search(query, top_k, filter_fn)`. -/
def search (norm : List K → K) (pick : List K → Int → List Nat) (i : ScaNNIndex)
    (query : List PyFloat) (topK : Int) (filterFn : Option (Metadata → Except Exc Bool)) :
    Except Exc (List (IndexResult K)) :=
  let k1 : Int := if i.count = 0 then 0 else min (topK * 3) i.count
  if k1 = 0 then .ok []
  else
    match i.flat.search (exactScoring (metricScore norm i.metric)) pick query k1 filterFn with
    | .error e => .error e
    | .ok candidates =>
      if i.metric = "cosine" then
        let boosted := candidates.map fun r => { r with score := r.score * correction norm query }
        .ok (pyTake (boosted.insertionSort fun a b => b.score ≤ a.score) topK)
      else .ok (pyTake candidates topK)

end ScaNNIndex

end Vsector.Index
