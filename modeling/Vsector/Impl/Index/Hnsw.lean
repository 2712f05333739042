import Vsector.Impl.Index.Ann

/-!
# HNSW

`HNSWIndex` of `index/hnsw.py` where `hnswlib` is installed; the library is a
parameter. `compact`, which only logs, and the log texts are left out.
-/

namespace Vsector.Index

open Framework Models

/-- `_space`. -/
inductive Space where
  | cosine
  | l2
  | ip
deriving DecidableEq

def DistanceMetric.space : DistanceMetric → Space
  | .cosine => .cosine
  | .euclidean => .l2
  | .dotProduct => .ip
  | .manhattan => .l2

/-- `hnswlib.Index`. A call that may raise also says what it leaves behind. -/
structure Hnswlib (ν δ : Type) where
  init (space : Space) (dim maxElements efConstruction m : Nat) : ν
  setEf : ν → Nat → ν
  getMaxElements : ν → Nat
  resizeIndex : ν → Nat → ν × Except Exc Unit
  addItems : ν → List (List PyFloat × Nat) → ν × Except Exc Unit
  /-- What raises here is ignored. -/
  markDeleted : ν → Nat → ν
  knnQuery : ν → List PyFloat → Nat → Except Exc (List (Nat × δ))

structure HNSWIndex (ν : Type) where
  space : Space
  efSearch : Nat
  count : Nat
  labelToId : Dict Nat String
  idToLabel : Dict String Nat
  metadatas : Dict Nat Metadata
  nextLabel : Nat
  index : ν

variable {ν δ : Type} [One δ] [Sub δ] [Neg δ] (H : Hnswlib ν δ)

namespace HNSWIndex

def create (dimension : Nat) (metric : DistanceMetric)
    (m efConstruction efSearch maxElements : Nat) : HNSWIndex ν where
  space := DistanceMetric.space metric
  efSearch := efSearch
  count := 0
  labelToId := ∅
  idToLabel := ∅
  metadatas := ∅
  nextLabel := 0
  index := H.setEf (H.init (DistanceMetric.space metric) dimension maxElements efConstruction m)
    efSearch

/-- `_ensure_capacity`. -/
def ensureCapacity (i : HNSWIndex ν) (need : Nat) : HNSWIndex ν × Except Exc Unit :=
  let most := H.getMaxElements i.index
  if i.count + need > most then
    let (index, r) := H.resizeIndex i.index (max (most * 2) (i.count + need + 1000))
    ({ i with index := index }, r)
  else (i, .ok ())

/-- The body of `add`'s loop. -/
def bindLabel (i : HNSWIndex ν) (item : FlatRow × Nat) : HNSWIndex ν :=
  { i with
    labelToId := i.labelToId.set item.2 item.1.id
    idToLabel := i.idToLabel.set item.1.id item.2
    metadatas := i.metadatas.set item.2 item.1.metadata }

def add (i : HNSWIndex ν) (rows : List FlatRow) : HNSWIndex ν × Except Exc Unit :=
  match i.ensureCapacity H rows.length with
  | (i, .error e) => (i, .error e)
  | (i, .ok ()) =>
    let items := rows.zip (List.range' i.nextLabel rows.length)
    match H.addItems i.index (items.map fun item => (item.1.vector, item.2)) with
    | (index, .error e) => ({ i with index := index }, .error e)
    | (index, .ok ()) =>
      let i := items.foldl bindLabel { i with index := index }
      ({ i with nextLabel := i.nextLabel + rows.length, count := i.count + rows.length }, .ok ())

/-- The body of `delete`'s loop. -/
def deleteId (i : HNSWIndex ν) (id : String) : HNSWIndex ν :=
  match i.idToLabel.get? id with
  | none => i
  | some label =>
    { i with
      idToLabel := i.idToLabel.pop id
      index := H.markDeleted i.index label
      labelToId := i.labelToId.pop label
      metadatas := i.metadatas.pop label
      count := i.count - 1 }

def delete (i : HNSWIndex ν) (ids : List String) : HNSWIndex ν := ids.foldl (deleteId H) i

def setEf (i : HNSWIndex ν) (ef : Nat) : HNSWIndex ν :=
  { i with efSearch := ef, index := H.setEf i.index ef }

/-- The score of a distance. -/
def score (i : HNSWIndex ν) (dist : δ) : δ := if i.space = .cosine then 1 - dist else -dist

/-- What `search` makes of a hit. -/
def accept (i : HNSWIndex ν) (filterFn : Option (Metadata → Bool)) (hit : Nat × δ) :
    Option (AnnResult δ) :=
  match i.labelToId.get? hit.1 with
  | none => none
  | some id =>
    let md := (i.metadatas.get? hit.1).getD []
    if filterFn.all (· md) then some ⟨id, i.score hit.2, none, md⟩ else none

/-- `search` once `ef` is set. -/
def results (i : HNSWIndex ν) (query : List PyFloat) (topK : Nat)
    (filterFn : Option (Metadata → Bool)) :
    List (AnnResult δ) :=
  if i.count = 0 then []
  else
    let k := min (if filterFn.isSome then topK * 3 else topK) i.count
    match H.knnQuery i.index query k with
    | .error _ => []
    | .ok hits => collect (i.accept filterFn) topK hits []

def search (i : HNSWIndex ν) (query : List PyFloat) (topK : Nat) (efSearch : Option Nat)
    (filterFn : Option (Metadata → Bool)) : HNSWIndex ν × List (AnnResult δ) :=
  let i := match efSearch with
    | some ef => i.setEf H ef
    | none => i
  (i, i.results H query topK filterFn)

/-- The index an operation leaves, whether or not it raises. -/
def step (i : HNSWIndex ν) : AnnOp → HNSWIndex ν
  | .add rows => (i.add H rows).1
  | .delete ids => i.delete H ids
  | .search query topK efSearch _ filterFn => (i.search H query topK efSearch filterFn).1

end HNSWIndex

end Vsector.Index
