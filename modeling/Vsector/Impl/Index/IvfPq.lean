import Vsector.Impl.Index.Ann

/-!
# IVF-PQ

`IVFPQIndex` of `index/ivf_pq.py` where FAISS is installed; the library is a
parameter. Until FAISS is trained, a flat index keeps the vectors, and they
are moved as soon as there are enough of them to train it. `_trained`, which
nothing reads, and the log texts are left out.
-/

namespace Vsector.Index

open Framework Models

/-- `faiss.IndexIVFPQ`. A call that may raise also says what it leaves behind. -/
structure Faiss (ν δ : Type) where
  indexIVFPQ (cosine : Bool) (dimension nlist m : Nat) : ν
  isTrained : ν → Bool
  train : ν → List (List PyFloat) → ν × Except Exc Unit
  addWithIds : ν → List (List PyFloat × Nat) → ν × Except Exc Unit
  add : ν → List (List PyFloat) → ν × Except Exc Unit
  /-- The index is `-1` where nothing was found. -/
  search (index : ν) (query : List PyFloat) (k nprobe : Nat) : Except Exc (List (δ × Int))
  normalizeL2 : List PyFloat → List PyFloat

structure IVFPQIndex (ν : Type) where
  dimension : Nat
  metric : DistanceMetric
  nlist : Nat
  nprobe : Nat
  fallback : FlatIndex
  faissIndex : ν
  ids : List String
  idToIdx : Dict String Nat
  metadatas : List Metadata

variable {ν δ : Type} [LinearOrder δ] [Neg δ] (F : Faiss ν δ) (S : Scoring δ)

namespace IVFPQIndex

def create (dimension : Nat) (metric : DistanceMetric) (nlist nprobe m : Nat) : IVFPQIndex ν where
  dimension := dimension
  metric := metric
  nlist := nlist
  nprobe := nprobe
  fallback := ⟨dimension, []⟩
  faissIndex := F.indexIVFPQ (metric = .cosine) dimension nlist
    (if m = 0 then max 1 (dimension / 8) else m)
  ids := []
  idToIdx := ∅
  metadatas := []

/-- `faiss.normalize_L2`, called for the cosine metric. -/
def normalize (i : IVFPQIndex ν) (v : List PyFloat) : List PyFloat :=
  if i.metric = .cosine then F.normalizeL2 v else v

def normalizeRow (i : IVFPQIndex ν) (r : FlatRow) : FlatRow :=
  { r with vector := i.normalize F r.vector }

/-- `train`; what FAISS raises is logged. -/
def train (i : IVFPQIndex ν) (sample : List (List PyFloat)) : IVFPQIndex ν :=
  if sample.length < i.nlist then i
  else { i with faissIndex := (F.train i.faissIndex (sample.map (i.normalize F))).1 }

/-- `train` on the first vectors of the fallback, which are normalized in place. -/
def trainFallback (i : IVFPQIndex ν) : IVFPQIndex ν :=
  let sample := i.fallback.rows.take 100000
  if sample.length < i.nlist then i
  else
    { i.train F (sample.map (·.vector)) with
      fallback := { i.fallback with
        rows := sample.map (i.normalizeRow F) ++ i.fallback.rows.drop 100000 } }

/-- The fallback's rows are moved to FAISS. -/
def migrate (i : IVFPQIndex ν) : IVFPQIndex ν × Except Exc Unit :=
  let rows := i.fallback.rows.map (i.normalizeRow F)
  match F.addWithIds i.faissIndex ((rows.map (·.vector)).zip (List.range rows.length)) with
  | (faissIndex, .error e) =>
    ({ i with faissIndex := faissIndex, fallback := { i.fallback with rows := rows } }, .error e)
  | (faissIndex, .ok ()) =>
    ({ i with
        faissIndex := faissIndex
        ids := rows.map (·.id)
        metadatas := rows.map (·.metadata)
        idToIdx := (rows.map (·.id)).zipIdx.foldl (fun d p => d.set p.1 p.2) ∅
        fallback := ⟨i.dimension, []⟩ }, .ok ())

/-- The body of `add`'s loop. -/
def appendRow (i : IVFPQIndex ν) (item : FlatRow × Nat) : IVFPQIndex ν :=
  { i with
    ids := i.ids ++ [item.1.id]
    idToIdx := i.idToIdx.set item.1.id item.2
    metadatas := i.metadatas ++ [item.1.metadata] }

/-- `add_with_ids`, and `add` where it raises. -/
def store (i : IVFPQIndex ν) (items : List (List PyFloat × Nat)) : ν × Except Exc Unit :=
  match F.addWithIds i.faissIndex items with
  | (faissIndex, .ok ()) => (faissIndex, .ok ())
  | (faissIndex, .error _) => F.add faissIndex (items.map Prod.fst)

/-- `add` to a trained index. -/
def addTrained (i : IVFPQIndex ν) (rows : List FlatRow) : IVFPQIndex ν × Except Exc Unit :=
  let items := rows.zip (List.range' i.ids.length rows.length)
  match i.store F (items.map fun item => (i.normalize F item.1.vector, item.2)) with
  | (faissIndex, .error e) => ({ i with faissIndex := faissIndex }, .error e)
  | (faissIndex, .ok ()) => (items.foldl appendRow { i with faissIndex := faissIndex }, .ok ())

/-- `add` to an index that is not trained. -/
def addUntrained (i : IVFPQIndex ν) (rows : List FlatRow) : IVFPQIndex ν × Except Exc Unit :=
  match i.fallback.addRows rows with
  | .error e => (i, .error e)
  | .ok fallback =>
    let i := { i with fallback := fallback }
    if 1000 ≤ fallback.rows.length then
      let i := i.trainFallback F
      if F.isTrained i.faissIndex then i.migrate F else (i, .ok ())
    else (i, .ok ())

def add (i : IVFPQIndex ν) (rows : List FlatRow) : IVFPQIndex ν × Except Exc Unit :=
  if F.isTrained i.faissIndex then i.addTrained F rows else i.addUntrained F rows

/-- The body of `delete`'s loop. -/
def deleteId (i : IVFPQIndex ν) (id : String) : IVFPQIndex ν :=
  match i.idToIdx.get? id with
  | none => i
  | some idx =>
    { i with
      idToIdx := i.idToIdx.pop id
      metadatas := i.metadatas.set idx [("_deleted", .bool true)] }

def delete (i : IVFPQIndex ν) (ids : List String) : IVFPQIndex ν :=
  if i.ids ≠ [] then ids.foldl deleteId i else { i with fallback := i.fallback.deleteIds ids }

/-- What `search` makes of a hit. -/
def accept (i : IVFPQIndex ν) (filterFn : Option (Metadata → Bool)) (hit : δ × Int) :
    Option (AnnResult δ) :=
  if hit.2 = -1 then none
  else
    match i.ids[hit.2.toNat]?, i.metadatas[hit.2.toNat]? with
    | some id, some md =>
      if isDeleted md then none
      else if filterFn.all (· md) then
        some ⟨id, if i.metric = .cosine then hit.1 else -hit.1, none, md⟩
      else none
    | _, _ => none

/-- A possible answer of the fallback. -/
def FallbackAnswers (i : IVFPQIndex ν) (query : List PyFloat) (topK : Nat)
    (filterFn : Option (Metadata → Bool)) (results : List (AnnResult δ)) : Prop :=
  ∃ found, i.fallback.Answers S query topK filterFn found ∧ results = found.map IndexResult.toAnn

/-- `results` is a possible answer of `search`. -/
def Answers (i : IVFPQIndex ν) (query : List PyFloat) (topK : Nat) (nprobe : Option Nat)
    (filterFn : Option (Metadata → Bool)) (results : List (AnnResult δ)) : Prop :=
  if F.isTrained i.faissIndex ∧ i.ids ≠ [] then
    let probe := match nprobe with
      | some n => if n = 0 then i.nprobe else n
      | none => i.nprobe
    let k := if filterFn.isSome then topK * 3 else topK
    match F.search i.faissIndex (i.normalize F query) k (min probe i.nlist) with
    | .error _ => i.FallbackAnswers S (i.normalize F query) topK filterFn results
    | .ok hits =>
      match collect (i.accept filterFn) topK hits [] with
      | [] => i.FallbackAnswers S (i.normalize F query) topK filterFn results
      | res => results = res
  else i.FallbackAnswers S query topK filterFn results

/-- The index an operation leaves, whether or not it raises. -/
def step (i : IVFPQIndex ν) : AnnOp → IVFPQIndex ν
  | .add rows => (i.add F rows).1
  | .delete ids => i.delete ids
  | .search .. => i

end IVFPQIndex

end Vsector.Index
