import Vsector.Impl.Sharding.FileStore
import Vsector.Proof.Sharding.MetadataFile

/-!
# The metadata file of a run

Whatever mutations came before, and whether their writes succeeded or not,
the file that a successful write leaves holds the store's shards, nodes and
migrations field for field, and nothing else (`file_holds_data`).
-/

namespace Vsector.Sharding

open Framework Models

namespace FileStore

variable {X : Externals}

theorem storable_mutate {s : FileStore} (hs : s.data.Storable) {call : FileCall}
    (hc : call.op.Storable) :
    (s.mutate X call).data.Storable := hs.apply hc

theorem storable_run {s : FileStore} (hs : s.data.Storable) {calls : List FileCall}
    (hc : ∀ c ∈ calls, c.op.Storable) :
    (calls.foldl (mutate X) s).data.Storable := by
  induction calls generalizing s with
  | nil => exact hs
  | cons call calls ih =>
    exact ih (storable_mutate hs (hc call List.mem_cons_self)) fun c h =>
      hc c (List.mem_cons_of_mem _ h)

/-- A mutation whose write succeeds. -/
theorem loadText_mutate (hX : X.FloatReads) {s : FileStore} (hs : s.data.Storable) {call : FileCall}
    (hc : call.op.Storable) (hw : call.failed = none) : ∃ text, (s.mutate X call).file = some text ∧
      loadText X text = (s.mutate X call).data.loaded (s.mutate X call).times := by
  refine ⟨(s.data.apply call.op).persistText X (timesAfter s.times call), ?_, ?_⟩
  · rw [mutate, hw]
  · exact loadText_persistText hX (hs.apply hc) (timesAfter s.times call)

/-- After any mutations, the file that a successful write leaves is read back as the store's
contents. -/
theorem file_holds_data (hX : X.FloatReads) {calls : List FileCall} {call : FileCall}
    (hc : ∀ c ∈ calls ++ [call], c.op.Storable) (hw : call.failed = none) :
    let s := (calls ++ [call]).foldl (mutate X) init
    ∃ text, s.file = some text ∧ loadText X text = s.data.loaded s.times := by
  intro s
  have hrun : (calls.foldl (mutate X) init).data.Storable :=
    storable_run storable_empty fun c h => hc c (List.mem_append_left _ h)
  have hs : s = (calls.foldl (mutate X) init).mutate X call := by
    show (calls ++ [call]).foldl (mutate X) init = _
    rw [List.foldl_append]
    rfl
  rw [hs]
  exact loadText_mutate hX hrun (hc call (List.mem_append_right _ List.mem_cons_self)) hw

/-- A migration, a shard whose write fails, and a node. -/
theorem file_holds_three_records :
    let calls : List FileCall :=
      [⟨.putMigration ⟨"m-1", "docs", "docs#shard-000", "node-0", "node-1", .failed, 3,
        "vsector-cluster-default",
          some "gone", 4, some "d1", none, true⟩, (1, 2), none⟩,
        ⟨.put ⟨"docs#shard-000", "docs", "node-0", .splitting, 12, 50000000000, ["node-1"], 3⟩,
          (0, 0), some none⟩]
    let call : FileCall := ⟨.putNode ⟨"migration::x", "", .removed, 3⟩, (0, 0), none⟩
    let s := (calls ++ [call]).foldl (mutate readable) init
    ∃ text, s.file = some text ∧ loadText readable text = s.data.loaded s.times := by
  refine file_holds_data readable_floatReads (fun c hc => ?_) rfl
  simp only [List.cons_append, List.nil_append, List.mem_cons, List.not_mem_nil, or_false] at hc
  rcases hc with rfl | rfl | rfl
  · trivial
  · exact ⟨by decide, by decide⟩
  · trivial

end FileStore

end Vsector.Sharding
