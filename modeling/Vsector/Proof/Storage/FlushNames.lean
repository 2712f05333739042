import Vsector.Framework.Run
import Vsector.Proof.Models.Documents
import Vsector.Proof.Storage.Segments

/-!
# Flushes that keep each other

A segment store that is only written to and flushed, each memtable flush to a
file whose name sorts after those there are, serves the last record put for
every id (`Serving`, `serving_step`), and so does a new store over its files
once the memtable is flushed (`get_last_put`). The name is the time in
milliseconds and the process id: a second flush in one millisecond replaces
the file of the first, and its records are gone (`same_millisecond_lost`).
-/

namespace Vsector.Storage

open Framework Models

variable {X : Externals}

/-! ## Runs -/

inductive SegmentOp where
  | put (record : VectorRecord) (env : FlushEnv)
  | flush (env : FlushEnv)

/-- The store after an operation; `none` where it raises. -/
def segmentStep (X : Externals) (s : SegmentStore) : SegmentOp → Option SegmentStore
  | .put record env =>
    match s.put X record env with
    | (s, .ok ()) => some s
    | (_, .error _) => none
  | .flush env =>
    match s.flush X env with
    | (s, .ok _) => some s
    | (_, .error _) => none

def SegmentOp.record? : SegmentOp → Option VectorRecord
  | .put record _ => some record
  | .flush _ => none

/-- The last record put for an id. -/
def lastPut (ops : List SegmentOp) (id : String) : Option VectorRecord :=
  Layers.last idOf (ops.filterMap SegmentOp.record?) id

/-- The condition on an operation: records have finite floats, and a file's name sorts after those
there are. -/
def SegmentOk (s : SegmentStore) : SegmentOp → Prop
  | .put record env => record.Finite ∧
    ((s.memtable.put record).shouldFlush →
      NamesLast { s with memtable := s.memtable.put record } env)
  | .flush env => s.memtable.count ≠ 0 → NamesLast s env

instance (s : SegmentStore) (op : SegmentOp) : Decidable (SegmentOk s op) := by
  cases op <;> rw [SegmentOk] <;> infer_instance

/-! ## The invariant -/

/-- A store that serves the records `last`, from files that were written in the order of their
names. -/
structure Serving (X : Externals) (s : SegmentStore) (last : String → Option VectorRecord) :
    Prop where
  tables : ∃ tables, Reads X s tables ∧ ∀ id, served s tables id = last id
  sorted : Sorted s
  finite : ∀ id r, s.memtable.data.get? id = some r → r.Finite

variable {s s' : SegmentStore} {last : String → Option VectorRecord}

theorem Serving.get_eq (h : Serving X s last) (id : String) : s.get X id = .ok (last id) := by
  obtain ⟨tables, hr, hs⟩ := h.tables
  rw [hr.get_eq, hs]

theorem Serving.flush (hX : X.Lawful) (h : Serving X s last) {env : FlushEnv} {t : Option SSTable}
    (hn : s.memtable.count ≠ 0 → NamesLast s env) (hf : s.flush X env = (s', .ok t)) :
    Serving X s' last := by
  by_cases hc : s.memtable.count = 0
  · rw [SegmentStore.flush, if_pos hc] at hf
    cases hf
    exact h
  · have hfault : env.fault = none := by
      rw [SegmentStore.flush, if_neg hc] at hf
      cases hfault : env.fault with
      | none => rfl
      | some fault => rw [hfault] at hf; cases hf
    obtain ⟨tables, hr, hs⟩ := h.tables
    have hcan : CanFlush s env := by
      refine ⟨fun r hr => ?_, (hn hc).get?, hfault⟩
      obtain ⟨id, hid⟩ := Dict.mem_values.mp hr
      exact h.finite id r hid
    obtain ⟨s₁, tables', t', hfl, hr', hserved, -⟩ := flush_ok hX hr fun _ => hcan
    have hsort : Sorted (s.flush X env).1 := h.sorted.flush fun hc => ⟨hn hc, hfault⟩
    rw [hf] at hfl hsort
    cases hfl
    refine ⟨⟨tables', hr', fun id => (hserved id).trans (hs id)⟩, hsort, fun id r hid => ?_⟩
    rw [SegmentStore.flush, if_neg hc, hfault] at hf
    cases hf
    cases hid

theorem Serving.put (h : Serving X s last) {r : VectorRecord} (hr : r.Finite) :
    Serving X { s with memtable := s.memtable.put r } fun id => if id = idOf r then some r
      else last id := by
  obtain ⟨tables, hreads, hs⟩ := h.tables
  refine ⟨⟨tables, hreads.put r, fun id => by rw [served_put, hs]⟩,
    ⟨h.sorted.cold, h.sorted.sstables, h.sorted.names⟩, fun id r' hr' => ?_⟩
  simp only [MemTable.put, Dict.get?_set] at hr'
  split at hr'
  · cases hr'; exact hr
  · exact h.finite id r' hr'

theorem lastPut_put (ops : List SegmentOp) (r : VectorRecord) (env : FlushEnv) :
    lastPut (ops ++ [.put r env]) = fun id => if id = idOf r then some r else lastPut ops id := by
  funext id
  have hf : (ops ++ [SegmentOp.put r env]).filterMap SegmentOp.record? =
      ops.filterMap SegmentOp.record? ++ [r] := by
    rw [List.filterMap_append]; rfl
  rw [lastPut, hf, Layers.last_append_singleton]
  simp only [eq_comm (a := id)]
  rfl

theorem lastPut_flush (ops : List SegmentOp) (env : FlushEnv) :
    lastPut (ops ++ [.flush env]) = lastPut ops := by
  funext id
  rw [lastPut, List.filterMap_append, List.filterMap_cons_none rfl, List.filterMap_nil,
    List.append_nil, lastPut]

theorem serving_step (hX : X.Lawful) {ops : List SegmentOp} {op : SegmentOp}
    (h : Serving X s (lastPut ops)) (hc : SegmentOk s op) (hs : segmentStep X s op = some s') :
    Serving X s' (lastPut (ops ++ [op])) := by
  cases op with
  | put r env =>
    rw [lastPut_put]
    have hput := h.put hc.1
    simp only [segmentStep, SegmentStore.put] at hs
    by_cases hfull : (s.memtable.put r).shouldFlush
    · simp only [hfull, if_true] at hs
      cases hf : SegmentStore.flush X { s with memtable := s.memtable.put r } env with
      | mk s₁ result =>
        rw [hf] at hs
        cases result with
        | error e => cases hs
        | ok t => cases hs; exact hput.flush hX (fun _ => hc.2 hfull) hf
    · simp only [hfull, Bool.false_eq_true, if_false] at hs
      cases hs
      exact hput
  | flush env =>
    rw [lastPut_flush]
    simp only [segmentStep] at hs
    split at hs
    · rename_i hf
      cases hs
      exact h.flush hX hc hf
    · cases hs

theorem serving_new (threshold : Nat) : Serving X (.init threshold ∅ ∅) (lastPut []) where
  tables := ⟨[], ⟨.nil, fun _ h => absurd h List.not_mem_nil, fun _ h => absurd h List.not_mem_nil,
    fun _ _ h => by cases h⟩, fun _ => rfl⟩
  sorted := ⟨rfl, rfl, .nil⟩
  finite _ _ h := by cases h

/-- A new store over the files serves what the tables have. -/
theorem Serving.init (h : Serving X s last) (hm : s.memtable.count = 0) (threshold : Nat) :
    Serving X (.init threshold s.hot s.cold) last := by
  obtain ⟨tables, hr, hs⟩ := h.tables
  have hempty : s.memtable.data.entries = [] := List.length_eq_zero_iff.mp hm
  rw [h.sorted.init threshold]
  refine ⟨⟨tables, hr.init threshold, fun id => ?_⟩, ⟨h.sorted.cold, h.sorted.sstables,
    h.sorted.names⟩, fun id r hr => by cases hr⟩
  rw [← hs id, served, served, MemTable.get, MemTable.get, Dict.get?, Dict.get?, hempty]
  rfl

/-- After any run under the condition from an empty directory, `get` returns the last record put
for every id, and once the memtable is flushed a new store over the directory returns it too. -/
theorem get_last_put (hX : X.Lawful) (threshold : Nat) (ops : List SegmentOp) (s : SegmentStore)
    (hr : run (segmentStep X) (.init threshold ∅ ∅) ops = some s)
    (hc : Along (segmentStep X) SegmentOk (.init threshold ∅ ∅) ops) (id : String) :
    s.get X id = .ok (lastPut ops id) ∧
      (s.memtable.count = 0 → ∀ memtableThreshold,
        (SegmentStore.init memtableThreshold s.hot s.cold).get X id = .ok (lastPut ops id)) := by
  have h : Serving X s (lastPut ([] ++ ops)) :=
    invariant_history (I := fun ops s => Serving X s (lastPut ops))
      (fun _ _ _ _ h hc hs => serving_step hX h hc hs)
      (serving_new threshold) hc hr
  rw [List.nil_append] at h
  exact ⟨h.get_eq id, fun hm memtableThreshold => (h.init hm memtableThreshold).get_eq id⟩

section

private def somePuts (ts : Nat) : List SegmentOp :=
  [.put (unitRecord zeroId []) ⟨1, 1, none⟩, .flush ⟨1, 1, none⟩,
    .put (unitRecord oneId []) ⟨1, 1, none⟩, .flush ⟨ts, 1, none⟩]

/-- Flushes at 1 and 2 ms. -/
theorem get_last_put_two_flushes :
    ∃ s, run (segmentStep fieldwise) (.init 10000 ∅ ∅) (somePuts 2) = some s ∧
    s.get fieldwise zeroId.text = .ok (some (unitRecord zeroId [])) ∧
    (SegmentStore.init 10000 s.hot s.cold).get fieldwise zeroId.text =
      .ok (some (unitRecord zeroId [])) := by
  obtain ⟨h, hi⟩ := get_last_put fieldwise_lawful 10000 (somePuts 2) _ rfl
    (by decide +kernel) zeroId.text
  exact ⟨_, rfl, h, hi rfl 10000⟩

/-- Both flushes at 1 ms: the file of the first record is replaced. -/
theorem same_millisecond_lost :
    ∃ s, run (segmentStep fieldwise) (.init 10000 ∅ ∅) (somePuts 1) = some s ∧
    lastPut (somePuts 1) zeroId.text = some (unitRecord zeroId []) ∧
    s.get fieldwise zeroId.text = .ok none ∧
    (SegmentStore.init 10000 s.hot s.cold).get fieldwise zeroId.text = .ok none ∧
    s.get fieldwise zeroId.text ≠ .ok (lastPut (somePuts 1) zeroId.text) := by
  refine ⟨_, rfl, rfl, rfl, rfl, fun h => ?_⟩
  have he : none = some (unitRecord zeroId []) := Except.ok.inj h
  cases he

end

end Vsector.Storage
