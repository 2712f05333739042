import Vsector.Framework.PrefixCode
import Vsector.Impl.Api.Namespaces
import Vsector.Proof.Sharding.Etcd
import Vsector.Proof.Sharding.LifecycleSteps
import Vsector.Proof.Sharding.MigrationSteps

/-!
# What materializing a namespace leaves alone

`_ensure_namespace_shards` touches no node and no migration
(`ensureNamespaceShards_frame`), and of the shards only the ones it makes
(`get_ensureNamespaceShards`). Their ids tell their namespace (`shardName_ns`).
The shards of the other namespaces stay as they are, also where those of one
are deleted.
-/

namespace Vsector.Sharding

open Framework Api

variable {lm : ShardLifecycleManager} {nodeId : String} {e : InMemoryEtcd}

theorem create_id {s shard : Shard} {e' : InMemoryEtcd} {owner : Option String}
    {replicas : Option (List String)}
    (h : lm.create e (.other s) owner replicas = (e', .ok shard)) : shard.id = s.id := by
  unfold ShardLifecycleManager.create at h
  dsimp only [ShardArg.shard] at h
  split at h
  · cases h
  · split at h
    · cases h
    · cases h
      rfl

variable (lm nodeId e) in
theorem materializeShard_frame (ns : String) (i : Nat) :
    (materializeShard lm nodeId ns e i).1.live.nodes = e.live.nodes ∧
      (materializeShard lm nodeId ns e i).1.live.migrations = e.live.migrations := by
  have hc := ShardLifecycleManager.perform_frame lm e
    (.create (.other (makeShard nodeId ns i)) (some nodeId) (some (replicaNodes nodeId)))
  unfold materializeShard
  split
  · rename_i e' exc he
    rw [ShardLifecycleManager.perform, he] at hc
    exact hc
  · rename_i e' shard he
    rw [ShardLifecycleManager.perform, he] at hc
    have ha := ShardLifecycleManager.perform_frame lm e' (.activate (.stored shard.id))
    exact ⟨ha.1.trans hc.1, ha.2.trans hc.2⟩

theorem get_materializeShard {ns : String} {i : Nat} {shardId : String}
    (h : shardName ns i ≠ shardId) :
    (materializeShard lm nodeId ns e i).1.get shardId = e.get shardId := by
  have hid : ∀ s, (ShardArg.other (makeShard nodeId ns i)).shard e = some s → s.id ≠ shardId :=
    fun s hs => by
    cases hs
    exact h
  have hc := ShardLifecycleManager.get_create lm e (some nodeId) (some (replicaNodes nodeId)) hid
  unfold materializeShard
  split
  · rename_i e' exc he
    rw [he] at hc
    exact hc
  · rename_i e' shard he
    rw [he] at hc
    refine Eq.trans ?_ hc
    show (ShardLifecycleManager.transition e' (.stored shard.id) .active).1.get shardId =
      e'.get shardId
    obtain ⟨s, hs, -, ht⟩ | ⟨-, ht⟩ :=
      ShardLifecycleManager.transition_cases e' (.stored shard.id) .active
    · have hsid : s.id = shard.id := InMemoryEtcd.shard_id hs
      rw [ht]
      refine InMemoryEtcd.get_put.trans (if_neg fun hid => h ?_)
      rw [hid]
      exact ((create_id he).symm.trans hsid.symm)
    · rw [ht]

variable (lm nodeId e) in
theorem ensureNamespaceShards_frame (ns : String) (shardCount : Nat) :
    (ensureNamespaceShards lm nodeId e ns shardCount).1.live.nodes = e.live.nodes ∧
      (ensureNamespaceShards lm nodeId e ns shardCount).1.live.migrations = e.live.migrations := by
  unfold ensureNamespaceShards
  split
  · exact ⟨rfl, rfl⟩
  · apply forEach_invariant (I := fun t : InMemoryEtcd => t.live.nodes = e.live.nodes ∧
      t.live.migrations = e.live.migrations) ⟨rfl, rfl⟩
    intro i _ t ht
    obtain ⟨hn, hm⟩ := materializeShard_frame lm nodeId t ns i
    exact ⟨hn.trans ht.1, hm.trans ht.2⟩

variable (lm nodeId) in
theorem get_ensureNamespaceShards {ns : String} {shardCount : Nat} {shardId : String}
    (hids : e.listByNamespace ns = [] → ∀ i ∈ List.range shardCount, shardName ns i ≠ shardId) :
    (ensureNamespaceShards lm nodeId e ns shardCount).1.get shardId = e.get shardId := by
  unfold ensureNamespaceShards
  split
  · rfl
  · rename_i hlist
    apply forEach_invariant (I := fun t : InMemoryEtcd => t.get shardId = e.get shardId) rfl
    intro i hi t ht
    exact (get_materializeShard (hids (not_not.mp hlist) i hi)).trans ht

/-! ## Names -/

theorem isDigit_of_mem_pad3 (i : Nat) : ∀ c ∈ (pad3 i).toList, c.isDigit = true := by
  unfold pad3
  split
  · rw [String.toList_ofList]
    exact isDigit_of_mem_fixedDigits
  · rw [show toString i = i.repr from rfl, Nat.toList_repr]
    exact fun c hc => Nat.isDigit_of_mem_toDigits (by decide) (by decide) hc

theorem toList_shardName (ns : String) (i : Nat) :
    (shardName ns i).toList = ns.toList ++ ("#shard-".toList ++ (pad3 i).toList) := by
  rw [show shardName ns i = ns ++ "#shard-" ++ pad3 i from rfl, String.toList_append,
    String.toList_append, List.append_assoc]

/-- The index is what is behind the last dash. -/
theorem shardName_ns {ns ns' : String} {i j : Nat} (h : shardName ns i = shardName ns' j) :
    ns = ns' := by
  have hlist := congrArg (fun s : String => s.toList.reverse) h
  simp only [toList_shardName, List.reverse_append, List.append_assoc] at hlist
  have hdigits : ∀ i, ∀ c ∈ (pad3 i).toList.reverse, c.isDigit = true :=
    fun i c hc => isDigit_of_mem_pad3 i c (List.mem_reverse.mp hc)
  have hdash : ∀ s : List Char, ∀ c ∈ ("#shard-".toList.reverse ++ s).head?, c.isDigit = false := by
    intro s c hc
    cases hc
    rfl
  have hrest := (takeWhile_unique (hdigits i) (hdigits j) (hdash _) (hdash _) hlist).2
  exact String.toList_inj.mp (List.reverse_injective (List.append_cancel_left hrest))

theorem pad3_value (i : Nat) : Nat.ofDigitChars 10 (pad3 i).toList 0 = i := by
  unfold pad3
  split
  · rename_i h
    rw [String.toList_ofList]
    exact ofDigitChars_fixedDigits h
  · rw [show toString i = i.repr from rfl, Nat.toList_repr]
    exact Nat.ofDigitChars_ten_toDigits

theorem shardName_inj {ns : String} {i j : Nat} : shardName ns i = shardName ns j ↔ i = j := by
  refine ⟨fun h => ?_, fun h => by rw [h]⟩
  have hlist := congrArg String.toList h
  rw [toList_shardName, toList_shardName] at hlist
  have hpad := List.append_cancel_left (List.append_cancel_left hlist)
  calc i = Nat.ofDigitChars 10 (pad3 i).toList 0 := (pad3_value i).symm
    _ = Nat.ofDigitChars 10 (pad3 j).toList 0 := by rw [hpad]
    _ = j := pad3_value j

theorem shardName_ne_empty (ns : String) (i : Nat) : shardName ns i ≠ "" := by
  intro h
  have hlength := congrArg (fun s : String => s.toList.length) h
  simp [toList_shardName] at hlength

/-! ## The other namespaces -/

section

variable {ns : String}

theorem keepsOthers_materializeShard {lm : ShardLifecycleManager} {nodeId : String}
    {e : InMemoryEtcd} {i : Nat} (h : InMemoryEtcd.Owned e ns (shardName ns i)) :
    InMemoryEtcd.KeepsOthers ns e (materializeShard lm nodeId ns e i).1 := by
  have hcreate : InMemoryEtcd.KeepsOthers ns e
      (lm.create e (.other (makeShard nodeId ns i)) (some nodeId)
        (some (replicaNodes nodeId))).1 := by
    obtain ⟨-, hc⟩ | ⟨s, hs, ⟨-, hc⟩ | ⟨-, hc⟩⟩ :=
      ShardLifecycleManager.create_cases lm e (.other (makeShard nodeId ns i)) (some nodeId)
        (some (replicaNodes nodeId))
    · rw [hc]
      exact .refl ns e
    · rw [hc]
      cases hs
      exact InMemoryEtcd.keepsOthers_put rfl h
    · rw [hc]
      exact .refl ns e
  unfold materializeShard
  split
  · rename_i e' exc he
    rw [he] at hcreate
    exact hcreate
  · rename_i e' shard he
    rw [he] at hcreate
    refine hcreate.trans ?_
    show InMemoryEtcd.KeepsOthers ns e'
      (ShardLifecycleManager.transition e' (.stored shard.id) .active).1
    obtain ⟨s, hs, -, ht⟩ | ⟨-, ht⟩ :=
      ShardLifecycleManager.transition_cases e' (.stored shard.id) .active
    · have hget : e'.get shard.id = some s := hs
      have hid : s.id = shardName ns i := (InMemoryEtcd.shard_id hget).trans (create_id he)
      have hown : InMemoryEtcd.Owned e' ns (shardName ns i) := hcreate.owned _ h
      rw [ht]
      refine InMemoryEtcd.keepsOthers_put (hown s ?_) ?_
      · rw [← hid, InMemoryEtcd.shard_id hget]
        exact hget
      · show InMemoryEtcd.Owned e' ns s.id
        rw [hid]
        exact hown
    · rw [ht]
      exact .refl ns e'

theorem keepsOthers_ensureNamespaceShards (lm : ShardLifecycleManager) (nodeId : String)
    {e : InMemoryEtcd} {shardCount : Nat}
    (h : ∀ i < shardCount, InMemoryEtcd.Owned e ns (shardName ns i)) :
    InMemoryEtcd.KeepsOthers ns e (ensureNamespaceShards lm nodeId e ns shardCount).1 := by
  unfold ensureNamespaceShards
  split
  · exact .refl ns e
  · exact forEach_invariant (I := fun t => InMemoryEtcd.KeepsOthers ns e t) (.refl ns e)
      fun i hi t ht =>
      ht.trans (keepsOthers_materializeShard (ht.owned _ (h i (List.mem_range.mp hi))))

theorem keepsOthers_deleteShards (e : InMemoryEtcd) (ns : String) :
    InMemoryEtcd.KeepsOthers ns e (deleteShards e ns) :=
  List.foldlRecOn _ _ (.refl ns e) fun _ he _ hs =>
    he.trans (InMemoryEtcd.keepsOthers_delete (he.owned _ (InMemoryEtcd.owned_of_mem hs)))

end

end Vsector.Sharding
