import Vsector.Framework.Dict
import Vsector.Impl.Index.Flat

/-!
# Approximate indexes

What `HNSWIndex` and `IVFPQIndex` share: batches, results, and the loop over
what the library behind them finds. A batch is the list of its rows, so that
`ids`, `vectors` and `metadatas` are of one length; the metadata of a row is
empty where none are passed.
-/

namespace Vsector.Index

open Models

/-- `IndexResult` of `index/base.py`. -/
structure AnnResult (δ : Type) where
  id : String
  score : δ
  vector : Option (List PyFloat)
  metadata : Metadata

def IndexResult.toAnn {δ : Type} (r : IndexResult δ) : AnnResult δ :=
  ⟨r.id, r.score, some r.vector, r.metadata⟩

/-- What is done to an approximate index. -/
inductive AnnOp where
  | add (rows : List FlatRow)
  | delete (ids : List String)
  | search (query : List PyFloat) (topK : Nat) (efSearch nprobe : Option Nat)
      (filterFn : Option (Metadata → Bool))

/-- The loop over a library's hits: what `accept` drops is passed over, and it stops at `topK`
results. -/
def collect {η ρ : Type} (accept : η → Option ρ) (topK : Nat) : List η → List ρ → List ρ
  | [], res => res
  | hit :: hits, res =>
    match accept hit with
    | none => collect accept topK hits res
    | some r =>
      if topK ≤ (res ++ [r]).length then res ++ [r] else collect accept topK hits (res ++ [r])

namespace FlatIndex

/-- `add` of a batch. -/
def addRows (i : FlatIndex) (rows : List FlatRow) : Except Exc FlatIndex :=
  if ∀ r ∈ rows, r.vector.length = i.dimension then .ok { i with rows := i.rows ++ rows }
    else .error .assertionError

/-- `delete` of a batch. -/
def deleteIds (i : FlatIndex) (ids : List String) : FlatIndex :=
  { i with rows := i.rows.filter fun r => r.id ∉ ids }

end FlatIndex

/-- `bool(value)`. -/
def truthy : Json → Bool
  | .null => false
  | .bool b => b
  | .int n => n ≠ 0
  | .float x => x ≠ .finite 0
  | .str s => s ≠ ""
  | .arr items => !items.isEmpty
  | .obj fields => !fields.isEmpty

/-- `md.get("_deleted")`, as a condition. -/
def isDeleted (md : Metadata) : Bool := (md.lookup "_deleted").any truthy

end Vsector.Index
