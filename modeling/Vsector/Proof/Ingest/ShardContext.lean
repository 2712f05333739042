import Vsector.Impl.Ingest.ShardContext
import Vsector.Proof.Storage.Recovery

/-!
# What a shard context shows

A context shows the last operation on every id (`Shows`): the record of an
upsert is served and not hidden, a deleted id is hidden, and an id without
an operation is not served. Writing a record, deleting an id and flushing
the memtable keep this (`upsert_ok`, `delete_ok`, `flushMemtable_ok`), and
`fetch` returns what is shown (`Shows.fetch_eq`).
-/

namespace Vsector.Ingest

open Framework Models Storage Index

variable {X : Externals} {ι : Type} [BaseIndex ι]

/-! ## What is shown -/

/-- The record served for an id and whether it is hidden, after the last operation on it. -/
def Shown (v : Option VectorRecord) (hidden : Bool) : Option Op → Prop
  | some (.upsert r) => v = some r ∧ hidden = false
  | some (.delete _) => hidden = true
  | none => v = none

/-- The last operation of every id, after one more. -/
def write (last : String → Option Op) (op : Op) : String → Option Op :=
  Function.update last op.id (some op)

theorem write_apply (last : String → Option Op) (op : Op) (id : String) :
    write last op id = if id = op.id then some op else last id := by
  rw [write, Function.update_apply]

structure Shows (X : Externals) [LawfulIndex ι] (ctx : ShardContext ι) (last : String → Option Op) :
    Prop where
  index : LawfulIndex.dimension ctx.index = ctx.ns.dimension
  tables : ∃ tables, Reads X ctx.segments tables ∧
    ∀ id, Shown (served ctx.segments tables id) (ctx.tombstones.has id) (last id)

namespace ShardContext

/-- What a context shows for an id: the record served, unless a tombstone hides it. -/
def visible (X : Externals) (ctx : ShardContext ι) (id : String) :
    Except Exc (Option VectorRecord) :=
  (ctx.segments.get X id).map fun rec => if ctx.tombstones.has id then none else rec

/-- The record an id is left with by the last operation on it. -/
def recordOf : Option Op → Option VectorRecord
  | some (.upsert r) => some r
  | _ => none

/-- What a fetch returns, given the last operation on the id. -/
def payloadOf : Option Op → Option Payload
  | some (.upsert r) => some r.toPayload
  | _ => none

/-- A new context over empty directories. -/
def fresh (shard : Sharding.Shard) (ns : Namespace) (threshold : Nat) : ShardContext ι where
  shard := shard
  ns := ns
  wal := ⟨[], []⟩
  segments := ⟨∅, ∅, ⟨threshold, ∅⟩, []⟩
  index := BaseIndex.create ns
  lifecycle := ⟨0, 0⟩
  recovery := ⟨[], [], 0, 0⟩
  tombstones := ∅

theorem init_empty (shard : Sharding.Shard) (ns : Namespace) (threshold : Nat) :
    init X shard ns threshold ∅ = .ok (fresh shard ns threshold : ShardContext ι) := rfl

end ShardContext

open ShardContext

variable [LawfulIndex ι] {ctx : ShardContext ι} {last : String → Option Op}

theorem shows_fresh (shard : Sharding.Shard) (ns : Namespace) (threshold : Nat) :
    Shows X (fresh shard ns threshold : ShardContext ι) fun _ => none := by
  refine ⟨LawfulIndex.dimension_create ns, [], ⟨.nil, ?_, ?_, ?_⟩, fun _ => rfl⟩
  · simp
  · exact fun _ h => absurd h List.not_mem_nil
  · exact fun _ _ h => by cases h

theorem Shows.visible_eq (h : Shows X ctx last) (id : String) :
    ctx.visible X id = .ok (recordOf (last id)) := by
  obtain ⟨tables, hr, hs⟩ := h.tables
  have hs := hs id
  rw [visible, hr.get_eq]
  cases hl : last id with
  | none =>
    rw [hl] at hs; rw [show served ctx.segments tables id = none from hs]
    simp [Except.map, recordOf]
  | some op =>
    rw [hl] at hs
    cases op with
    | upsert r => rw [hs.1, hs.2]; rfl
    | delete a => rw [show ctx.tombstones.has id = true from hs]; rfl

theorem Shows.fetch_eq (h : Shows X ctx last) (id : String) :
    ctx.fetch X id = .ok (payloadOf (last id)) := by
  obtain ⟨tables, hr, hs⟩ := h.tables
  have hs := hs id
  rw [fetch, hr.get_eq]
  cases hl : last id with
  | none => rw [hl] at hs; rw [show served ctx.segments tables id = none from hs]; rfl
  | some op =>
    rw [hl] at hs
    cases op with
    | upsert r => rw [hs.1]; simp [hs.2, payloadOf]
    | delete a =>
      rw [show ctx.tombstones.has id = true from hs]
      cases served ctx.segments tables id <;> rfl

theorem indexRecord_ok {r : VectorRecord} (hi : LawfulIndex.dimension ctx.index = ctx.ns.dimension)
    (hd : r.dimension = ctx.ns.dimension) :
    ∃ index, BaseIndex.add ctx.index r.id.text r.vector r.metadata = .ok index ∧
      LawfulIndex.dimension index = ctx.ns.dimension ∧ ctx.indexRecord r = .ok
        { ctx with
          index := index
          lifecycle := ctx.lifecycle.notifyWrite
          shard := { ctx.shard with vectorCount := ctx.shard.vectorCount + 1 } } := by
  obtain ⟨index, hadd⟩ := LawfulIndex.add_ok ctx.index r.id.text r.vector r.metadata (by
    rw [hi, ← hd, r.dimension_eq])
  exact ⟨index, hadd, (LawfulIndex.dimension_add _ _ _ _ _ hadd).trans hi,
    by rw [indexRecord, hadd]⟩

/-- An upsert without faults. -/
theorem upsert_ok (hX : X.Lawful) (h : Shows X ctx last) {r : VectorRecord} (payload : Text)
    {env : FlushEnv} (hd : r.dimension = ctx.ns.dimension)
    (hf : (ctx.segments.memtable.put r).shouldFlush →
      CanFlush { ctx.segments with memtable := ctx.segments.memtable.put r } env) :
    ∃ ctx', ctx.applyUpsert X r payload env none = (ctx', .ok ()) ∧
      Shows X ctx' (write last (.upsert r)) ∧
      ctx'.segments = (ctx.segments.put X r env).1 ∧ ctx'.wal = ctx.wal.append payload ∧
      ctx'.ns = ctx.ns ∧
      ctx'.tombstones = ctx.tombstones.discard r.id.text ∧
      BaseIndex.add ctx.index r.id.text r.vector r.metadata = .ok ctx'.index ∧
      ctx'.shard = { ctx.shard with vectorCount := ctx.shard.vectorCount + 1 } := by
  obtain ⟨tables, hr, hs⟩ := h.tables
  obtain ⟨s', tables', hput, hr', hserved, -⟩ := put_ok hX hr hf
  let mid : ShardContext ι := { ctx with
    wal := ctx.wal.append payload
    tombstones := ctx.tombstones.discard r.id.text
    segments := s' }
  have hmid : LawfulIndex.dimension mid.index = mid.ns.dimension := h.index
  obtain ⟨index, hadd, hdim, hidx⟩ := indexRecord_ok hmid hd
  refine ⟨{ mid with
      index := index
      lifecycle := mid.lifecycle.notifyWrite
      shard := { mid.shard with vectorCount := mid.shard.vectorCount + 1 } },
    ?_, ⟨hdim, tables', hr', fun id => ?_⟩, by rw [hput], rfl, rfl, rfl, hadd, rfl⟩
  · simp only [applyUpsert, hput]
    rw [hidx]
  · show Shown (served s' tables' id) ((ctx.tombstones.discard r.id.text).has id) _
    rw [hserved, write_apply, PySet.has_discard, Op.id]
    by_cases hid : id = idOf r
    · subst hid; simp [Shown]
    · simpa [hid] using hs id

/-- A deletion: the memtable forgets the record, and the tombstone hides what the tables have. -/
theorem delete_ok (h : Shows X ctx last) (id : String) :
    ∃ ctx', ctx.applyDelete X id = (ctx', .ok ()) ∧ Shows X ctx' (write last (.delete id)) ∧
      ctx'.segments = { ctx.segments with memtable := ctx'.segments.memtable } ∧
      ctx'.wal = ctx.wal.append (deletePayload id) ∧ ctx'.ns = ctx.ns ∧ ctx'.shard = ctx.shard ∧
      (ctx'.segments.memtable = ctx.segments.memtable ∨
        ctx'.segments.memtable = ctx.segments.memtable.delete id) := by
  obtain ⟨tables, hr, hs⟩ := h.tables
  have hd : LawfulIndex.dimension (BaseIndex.delete ctx.index id) = ctx.ns.dimension := by
    rw [LawfulIndex.dimension_delete, h.index]
  have hshown : ∀ v a, (a ≠ id → v = served ctx.segments tables a) →
      Shown v ((ctx.tombstones.add id).has a) (write last (.delete id) a) := by
    intro v a hv
    rw [write_apply, PySet.has_add, Op.id]
    by_cases ha : a = id
    · simp [ha, Shown]
    · simpa [ha, hv ha] using hs a
  rw [applyDelete, hr.get_eq]
  cases hserved : served ctx.segments tables id with
  | none =>
    exact ⟨_, rfl, ⟨hd, tables, hr, fun a => hshown _ a fun _ => rfl⟩, rfl, rfl, rfl, rfl, .inl rfl⟩
  | some r =>
    exact ⟨_, rfl, ⟨hd, tables, hr.delete id, fun a => hshown _ a fun ha => served_delete ha⟩, rfl,
      rfl, rfl, rfl, .inr rfl⟩

theorem flushMemtable_ok (hX : X.Lawful) (h : Shows X ctx last) {env : FlushEnv}
    (hf : ctx.segments.memtable.count ≠ 0 → CanFlush ctx.segments env) :
    ∃ ctx', ctx.flushMemtable X env = (ctx', .ok ()) ∧ Shows X ctx' last ∧
      ctx' = { ctx with segments := (ctx.segments.flush X env).1 } := by
  obtain ⟨tables, hr, hs⟩ := h.tables
  obtain ⟨s', tables', t, hfl, hr', hserved, -⟩ := flush_ok hX hr hf
  refine ⟨{ ctx with segments := s' },
    by rw [flushMemtable, hfl]; rfl, ⟨h.index, tables', hr', fun id => ?_⟩, by rw [hfl]⟩
  show Shown (served s' tables' id) _ _
  rw [hserved]
  exact hs id

/-- Only the segments, the tombstones, the index and the settings matter. -/
theorem Shows.congr {ctx' : ShardContext ι} (h : Shows X ctx last)
    (hs : ctx'.segments = ctx.segments) (ht : ctx'.tombstones = ctx.tombstones)
    (hi : ctx'.index = ctx.index) (hn : ctx'.ns = ctx.ns) :
    Shows X ctx' last := by
  obtain ⟨tables, hr, hsh⟩ := h.tables
  exact ⟨by rw [hi, hn]; exact h.index, tables, by rw [hs]; exact hr, by rw [hs, ht]; exact hsh⟩

end Vsector.Ingest
