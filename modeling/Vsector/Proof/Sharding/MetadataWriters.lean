import Vsector.Framework.SnapshotWrites
import Vsector.Impl.Sharding.MetadataOps

/-!
# Concurrent metadata writers

A mutation of `InMemoryEtcd` changes the data under the lock, takes a
snapshot under the lock, and writes the file without it. One call at a time
leaves the file that `InMemoryEtcd` has (`one_call`); of a schedule of many
calls the file is the data, whatever they change, exactly where no change
comes after the snapshot that is written last (`writers_lose_nothing_iff`).
-/

namespace Vsector.Sharding

open Framework SnapshotWrites

namespace MetadataWriters

/-- The calls of a store with a file, `ops i` the mutation of call `i`. -/
abbrev writersStep {ι : Type} [DecidableEq ι] (ops : ι → MetadataOp) := step EtcdData.apply ops

/-- A call without others between its steps. -/
theorem one_call {ι : Type} [DecidableEq ι] (ops : ι → MetadataOp) (d : EtcdData) (i : ι) :
    ∃ t, run (writersStep ops) (init d) [.change i, .snapshot i, .write i] = some t ∧ Quiet t ∧
      InMemoryEtcd.mutate (.init (some d)) (ops i) = ⟨t.live, some t.file⟩ := by
  obtain ⟨t, ht, hlive, hfile, hi, hothers⟩ :=
    run_alone EtcdData.apply ops (s := init d) (i := i) rfl
  refine ⟨t, ht, fun j => ?_, ?_⟩
  · by_cases hj : j = i
    · exact .inr (hj ▸ hi)
    · exact .inl (hothers j hj)
  · rw [hfile, hlive]
    rfl

private def nodeShard (id : String) : Shard := ⟨id, "ns", "node-0", .active, 0, 10, [], 1⟩

/-- Under every choice of mutations and data, once all calls have returned the file holds the data
in memory, if and only if the snapshot that is written last is taken after the last mutation (or no
call was made). -/
theorem writers_lose_nothing_iff {ι : Type} [DecidableEq ι] {ls : List (Label ι)}
    (h : Complete ls) :
    (∀ (ops : ι → MetadataOp) (d : EtcdData),
        ∃ t, run (writersStep ops) (init d) ls = some t ∧ Quiet t ∧ t.file = t.live) ↔
          ls = [] ∨ LastWriteCurrent ls := by
  have hset : EtcdData.apply (.put (nodeShard "a")) ∅ ≠ ∅ := fun h => by
    have hget := congrArg (fun d : EtcdData => d.shards.get? "a") h
    cases hget
  have hnoop : EtcdData.apply (.deleteNode "") ∅ = ∅ := rfl
  have hkeep : EtcdData.apply (.deleteNode "") (EtcdData.apply (.put (nodeShard "a")) ∅) =
      EtcdData.apply (.put (nodeShard "a")) ∅ := rfl
  exact file_eq_live_iff hnoop hkeep hset h

private def inTurn : List (Label Bool) :=
  [.change false, .snapshot false, .write false, .change true, .snapshot true, .write true]

/-- The second call's steps between the snapshot and the write of the first. -/
private def overtaken : List (Label Bool) :=
  [.change false, .snapshot false, .change true, .snapshot true, .write true, .write false]

private theorem complete_of_run {ls : List (Label Bool)}
    (h : ((run (step (fun _ => id : Unit → Unit → Unit) fun _ => ()) (init ()) ls).map fun t =>
      (t.phase false, t.phase true)) = some (.returned, .returned)) : Complete ls := by
  obtain ⟨t, ht, hphases⟩ := Option.map_eq_some_iff.mp h
  obtain ⟨hfalse, htrue⟩ := Prod.mk.inj hphases
  exact ⟨t, ht, fun | false => .inr hfalse | true => .inr htrue⟩

theorem writers_lose_nothing_in_turn :
    (∀ (ops : Bool → MetadataOp) (d : EtcdData),
        ∃ t, run (writersStep ops) (init d) inTurn = some t ∧ Quiet t ∧ t.file = t.live) ↔
      inTurn = [] ∨ LastWriteCurrent inTurn :=
  writers_lose_nothing_iff (complete_of_run rfl)

/-- Of two calls that put shards the file lacks the second one's, though it was written. -/
theorem older_snapshot_written_last : ¬ ∀ (ls : List (Label Bool)), Complete ls → ∀ ops d,
    ∃ t, run (writersStep ops) (init d) ls = some t ∧ Quiet t ∧ t.file = t.live := by
  intro h
  obtain ⟨t, ht, -, hfile⟩ :=
    h overtaken (complete_of_run rfl) (fun i => .put (nodeShard (if i then "b" else "a"))) ∅
  have hb := congrArg (fun d : EtcdData => (d.shards.get? "b").isSome) hfile
  have hrun : (run (writersStep fun i => .put (nodeShard (if i then "b" else "a")))
      (init ∅) overtaken).map
      (fun t => ((t.file.shards.get? "b").isSome, (t.live.shards.get? "b").isSome)) =
        some (false, true) := rfl
  rw [ht] at hrun
  obtain ⟨hlost, hthere⟩ := Prod.mk.inj (Option.some.inj hrun)
  rw [show _ = _ from hlost, show _ = _ from hthere] at hb
  cases hb

end MetadataWriters

end Vsector.Sharding
