import Vsector.Proof.Models.SortKeys
import Vsector.Proof.Sharding.Router

/-!
# The gate of deletions

A deletion goes to all the shards that `writable` returns, and a write to the
one that `route_write` does. Both look at the lifecycle and the owner of a
shard, but only `route_write` asks whether the owner is a member of the
cluster. So the gates agree exactly where every owner is known, and a record
can be placed at all (`delete_gate_strict_iff`).
-/

namespace Vsector.Sharding.ShardRouter

open Framework Models Cluster

variable {X : Externals} {r : ShardRouter} {ns recordId : String} {node : Option String} {s : Shard}
  {shards : List Shard}

/-- Where the router knows the cluster, the owner of the shard is a member that was not removed. -/
def KnownOwner (r : ShardRouter) (s : Shard) : Prop :=
  r.membership = none ∨ ∃ n, r.etcd.getNode s.nodeId = some n ∧ n.state ≠ .removed

/-- No deletion is applied where no write would be: every record has one of the shards to be
written to, and none of the shards has an owner that is refused. -/
def DeletesLikeWrites (X : Externals) (r : ShardRouter) (ns : String) (node : Option String)
    (shards : List Shard) : Prop :=
  (∀ recordId, ∃ s ∈ shards, r.routeWrite X ns recordId node = .ok s) ∧
  ∀ s ∈ shards, r.validateOwner s = .ok ()

theorem validateNode_ok_iff {e : InMemoryEtcd} {owner : String} :
    ClusterMembershipManager.validateNode e owner = .ok () ↔
      ∃ n, e.getNode owner = some n ∧ n.state ≠ .removed := by
  unfold ClusterMembershipManager.validateNode
  rcases e.getNode owner with _ | n
  · exact iff_of_false (fun h => by cases h) fun ⟨_, h, _⟩ => by cases h
  · dsimp only
    split
    · rename_i hremoved
      exact iff_of_false (fun h => by cases h) fun ⟨_, h, hn⟩ => hn (by cases h; exact hremoved)
    · rename_i hn
      exact iff_of_true rfl ⟨n, rfl, hn⟩

theorem validateOwner_ok_iff (howner : s.requireOwner = .ok s.nodeId) :
    r.validateOwner s = .ok () ↔ KnownOwner r s := by
  unfold validateOwner KnownOwner
  rcases hm : r.membership with _ | m
  · exact iff_of_true rfl (.inl rfl)
  · rw [howner, or_iff_right (by simp)]
    exact validateNode_ok_iff

theorem requireOwner_of_checkOwner (h : checkOwner ns s node = .ok ()) :
    s.requireOwner = .ok s.nodeId := by
  unfold checkOwner Shard.requireOwner at h
  unfold Shard.requireOwner
  split at h
  · cases h
  all_goals
    rename_i howner
    split at howner
    · cases howner
    · rename_i hne
      exact if_neg hne

/-- What `writable` requires of each shard. -/
theorem active_of_writable (h : r.writable ns node = .ok shards)
    (hs : s ∈ r.etcd.listByNamespace ns) :
    s.state = .active ∧ checkOwner ns s node = .ok () := by
  obtain ⟨t, ht⟩ := mapM_ok_iff.mp ⟨shards, h⟩ s hs
  split at ht
  · cases ht
  · rename_i hactive
    refine ⟨not_not.mp hactive, ?_⟩
    rcases hc : checkOwner ns s node with exc | ⟨⟩
    · rw [hc] at ht
      cases ht
    · rfl

/-- A shard is selected if there is one to select from. -/
theorem select_ok_iff : (∃ s, r.select X ns recordId = .ok s) ↔
    ∃ s ∈ r.etcd.listByNamespace ns, s.id ≠ "" := by
  constructor
  · rintro ⟨s, hs⟩
    by_contra hnone
    have hactive : (r.etcd.listByNamespace ns).filter (fun s => s.id ≠ "") = [] :=
      List.filter_eq_nil_iff.mpr fun a ha hid => hnone ⟨a, ha, of_decide_eq_true hid⟩
    unfold select at hs
    simp only [hactive, List.map_nil, RendezvousHash.getNode, RendezvousHash.best] at hs
    split at hs
    · cases hs
    · cases hs
  · rintro ⟨a, ha, hid⟩
    have hne : r.etcd.listByNamespace ns ≠ [] := List.ne_nil_of_mem ha
    have hmem : a ∈ (r.etcd.listByNamespace ns).filter fun s => s.id ≠ "" :=
      List.mem_filter.mpr ⟨ha, decide_eq_true hid⟩
    unfold select
    dsimp only
    rw [if_neg hne]
    generalize (r.etcd.listByNamespace ns).filter (fun s => s.id ≠ "") = active at hmem
    obtain ⟨id, hbest⟩ := Option.isSome_iff_exists.mp
      (@RendezvousHash.best_isSome X (shardKey X ns recordId) (active.map Shard.id) none
        (.inl (List.ne_nil_of_mem (List.mem_map_of_mem hmem))))
    rw [RendezvousHash.getNode, hbest]
    dsimp only
    split
    · exact ⟨_, rfl⟩
    · split
      · exact ⟨_, rfl⟩
      · cases hmem

/-- Where `writable` lets a deletion through to some shards, writes are let through to them too
exactly if the owner of each is known, and one of them has an id that a record can be placed by. -/
theorem delete_gate_strict_iff (X : Externals) (r : ShardRouter) (ns : String)
    (node : Option String) (shards : List Shard) (hw : r.writable ns node = .ok shards) :
    DeletesLikeWrites X r ns node shards ↔
      (∀ s ∈ shards, KnownOwner r s) ∧ ∃ s ∈ shards, s.id ≠ "" := by
  cases writable_eq hw
  have hgate : ∀ s ∈ r.etcd.listByNamespace ns, (r.validateOwner s = .ok () ↔ KnownOwner r s) :=
    fun s hs =>
    validateOwner_ok_iff (requireOwner_of_checkOwner (active_of_writable hw hs).2)
  constructor
  · rintro ⟨hroute, howners⟩
    refine ⟨fun s hs => (hgate s hs).mp (howners s hs), ?_⟩
    obtain ⟨s, -, hs⟩ := hroute ""
    have hselect : ∃ s, r.select X ns "" = .ok s := ⟨s, (routeWrite_ok_iff.mp hs).1⟩
    exact select_ok_iff.mp hselect
  · rintro ⟨hknown, hid⟩
    have howners : ∀ s ∈ r.etcd.listByNamespace ns, r.validateOwner s = .ok () :=
      fun s hs => (hgate s hs).mpr (hknown s hs)
    refine ⟨fun recordId => ?_, howners⟩
    obtain ⟨s, hs⟩ : ∃ s, r.select X ns recordId = .ok s := select_ok_iff.mpr hid
    have hmem := select_mem hs
    obtain ⟨hactive, howner⟩ := active_of_writable hw hmem
    exact ⟨s, hmem, routeWrite_ok_iff.mpr ⟨hs, hactive, howners s hmem, howner⟩⟩

/-- A shard of `n0`, in a cluster whose members are `nodes`. -/
private def shardOfN0 (nodes : Dict String ClusterNode) : ShardRouter where
  etcd := .init (some { (∅ : EtcdData).setShard ⟨"s", "docs", "n0", .active, 0, 10, [], 1⟩ with
    nodes := nodes })
  membership := some ⟨"c"⟩

private def oneMember : ShardRouter := shardOfN0 (Dict.set ∅ "n0" ⟨"n0", "c", .active, 1⟩)

private def removedMember : ShardRouter := shardOfN0 (Dict.set ∅ "n0" ⟨"n0", "c", .removed, 1⟩)

theorem delete_gate_strict_member :
    DeletesLikeWrites named oneMember "docs" (some "n0")
      [⟨"s", "docs", "n0", .active, 0, 10, [], 1⟩] := by
  refine (delete_gate_strict_iff named oneMember "docs" (some "n0") _ (by decide +kernel)).mpr
    ⟨?_, ?_⟩
  · intro s hs
    rw [List.mem_singleton.mp hs]
    exact .inr ⟨⟨"n0", "c", .active, 1⟩, by decide +kernel, by decide⟩
  · exact ⟨_, List.mem_singleton_self _, by decide⟩

/-- The node was removed from the cluster, and deletes on its shard still. -/
theorem delete_gate_misses_removed :
    removedMember.writable "docs" (some "n0") = .ok [⟨"s", "docs", "n0", .active, 0, 10, [], 1⟩] ∧
    removedMember.routeWrite named "docs" "a" (some "n0") = .error (.removedNode "n0") ∧
    ¬ DeletesLikeWrites named removedMember "docs" (some "n0")
      [⟨"s", "docs", "n0", .active, 0, 10, [], 1⟩] := by
  have hwrite : removedMember.routeWrite named "docs" "a" (some "n0") =
      .error (.removedNode "n0") := by decide +kernel
  refine ⟨by decide +kernel, hwrite, fun h => ?_⟩
  obtain ⟨s, -, hs⟩ := h.1 "a"
  rw [hwrite] at hs
  cases hs

end Vsector.Sharding.ShardRouter
