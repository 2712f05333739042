import Vsector.Framework.FirstMax
import Vsector.Proof.Models.SortKeys
import Vsector.Proof.Sharding.Router

/-!
# Rendezvous hashing

The loop of `get_node` finds the first node of the highest score
(`getNode_ok_iff`), whatever the hash is. So a node that was not chosen can be
removed, and one that is added is the only one that can be chosen instead;
where no two nodes have the same score their order is not seen, and
`get_nodes` begins with the node of `get_node` (`placement_stable`).
-/

namespace Vsector.Sharding.RendezvousHash

open Framework Models

variable {X : Externals} {nodes : List String} {key : String}

/-- The loop, from the first maximum of the nodes already seen. -/
theorem firstMax_best {seen : List String} {b : String} (h : FirstMax (score X key) seen b) :
    ∃ n, best X key nodes (some b) = some n ∧ FirstMax (score X key) (seen ++ nodes) n := by
  induction nodes generalizing seen b with
  | nil => exact ⟨b, rfl, by rw [List.append_nil]; exact h⟩
  | cons a nodes ih =>
    have hnext := ih (h.snoc a)
    rw [List.append_assoc] at hnext
    have hif : best X key (a :: nodes) (some b) =
        best X key nodes (some (if score X key b < score X key a then a else b)) := by
      rw [best, apply_ite some]
    rw [hif]
    exact hnext

theorem exists_getNode (h : nodes ≠ []) :
    ∃ n, getNode X nodes key = .ok n ∧ FirstMax (score X key) nodes n := by
  cases nodes with
  | nil => exact absurd rfl h
  | cons a nodes =>
    obtain ⟨n, hn, hmax⟩ := @firstMax_best X nodes key _ _ (firstMax_singleton (score X key) a)
    refine ⟨n, ?_, hmax⟩
    unfold getNode
    rw [best, hn]

theorem getNode_ok_iff {n : String} :
    getNode X nodes key = .ok n ↔ FirstMax (score X key) nodes n := by
  constructor
  · intro h
    have hne : nodes ≠ [] := by
      rintro rfl
      cases h
    obtain ⟨n', hn', hmax⟩ := @exists_getNode X nodes key hne
    rw [h] at hn'
    cases hn'
    exact hmax
  · intro h
    obtain ⟨n', hn', hmax⟩ := @exists_getNode X nodes key (List.ne_nil_of_mem h.mem)
    rw [hn', h.unique hmax]

theorem getNode_removeNode {node : String} (hne : nodes ≠ []) (h : getNode X nodes key ≠ .ok node) :
    getNode X (removeNode nodes node) key = getNode X nodes key := by
  obtain ⟨n, hn, hmax⟩ := @exists_getNode X nodes key hne
  rw [hn] at h ⊢
  exact getNode_ok_iff.mpr (hmax.erase fun he => h (by rw [he]))

theorem getNode_addNode (hne : nodes ≠ []) (node : String) :
    getNode X (addNode nodes node) key = getNode X nodes key ∨
    getNode X (addNode nodes node) key = .ok node := by
  unfold addNode
  split
  · exact .inl rfl
  · obtain ⟨n, hn, hmax⟩ := @exists_getNode X nodes key hne
    have hsnoc := getNode_ok_iff.mpr (hmax.snoc node)
    split at hsnoc
    · exact .inr hsnoc
    · exact .inl (hsnoc.trans hn.symm)

theorem getNode_perm {nodes' : List String} (hne : nodes ≠ [])
    (hnodup : (nodes.map (score X key)).Nodup) (hp : nodes.Perm nodes') :
    getNode X nodes' key = getNode X nodes key := by
  obtain ⟨n, hn, hmax⟩ := @exists_getNode X nodes key hne
  rw [hn]
  exact getNode_ok_iff.mpr (hmax.perm hnodup hp)

/-! ## The order of all nodes -/

theorem ranked_perm : (ranked X nodes key).Perm (nodes.map fun node => (score X key node, node)) :=
  List.perm_insertionSort _ _

theorem ranked_descending : (ranked X nodes key).Pairwise fun a b => b.1 ≤ a.1 := by
  have : Std.Total fun a b : Nat × String => b.1 < a.1 ∨ b.1 = a.1 ∧ b.2 ≤ a.2 := ⟨fun a b => by
    rcases lt_trichotomy a.1 b.1 with h | h | h
    · exact .inr (.inl h)
    · exact (le_total b.2 a.2).imp (fun hle => .inr ⟨h.symm, hle⟩) fun hle => .inr ⟨h, hle⟩
    · exact .inl (.inl h)⟩
  have : IsTrans (Nat × String) fun a b => b.1 < a.1 ∨ b.1 = a.1 ∧ b.2 ≤ a.2 :=
    ⟨fun a b c hab hbc => by
    rcases hab with hab | ⟨hab, hab'⟩
    · rcases hbc with hbc | ⟨hbc, -⟩
      · exact .inl (hbc.trans hab)
      · exact .inl (hbc ▸ hab)
    · rcases hbc with hbc | ⟨hbc, hbc'⟩
      · exact .inl (hab ▸ hbc)
      · exact .inr ⟨hbc.trans hab, hbc'.trans hab'⟩⟩
  refine (List.pairwise_insertionSort (fun a b : Nat × String => b.1 < a.1 ∨ b.1 = a.1 ∧ b.2 ≤ a.2)
    _).imp fun h => ?_
  exact h.elim le_of_lt fun h => le_of_eq h.1

theorem getNode_eq_head (hne : nodes ≠ []) (hnodup : (nodes.map (score X key)).Nodup) :
    ∃ n, getNode X nodes key = .ok n ∧ getNodes X nodes key 1 = [n] := by
  have hperm := @ranked_perm X nodes key
  have hdesc := @ranked_descending X nodes key
  unfold getNodes
  rcases hr : ranked X nodes key with _ | ⟨⟨s, n⟩, rest⟩
  · rw [hr] at hperm
    exact absurd (List.map_eq_nil_iff.mp hperm.symm.eq_nil) hne
  · rw [hr] at hperm hdesc
    have hmem : ∀ b, b ∈ nodes → (score X key b, b) ∈ (s, n) :: rest := fun b hb =>
      hperm.mem_iff.mpr (List.mem_map.mpr ⟨b, hb, rfl⟩)
    obtain ⟨n', hn', he⟩ := List.mem_map.mp (hperm.mem_iff.mp List.mem_cons_self)
    cases he
    refine ⟨n, getNode_ok_iff.mpr (firstMax_of_nodup hnodup hn' fun b hb => ?_), rfl⟩
    rcases List.mem_cons.mp (hmem b hb) with he | hb
    · exact le_of_eq (congrArg Prod.fst he)
    · exact (List.pairwise_cons.mp hdesc).1 _ hb

theorem getNodes_prefix (n : Nat) : getNodes X nodes key n <+: getNodes X nodes key (n + 1) := by
  unfold getNodes
  exact ((List.take_prefix_take_left (Nat.le_succ n)).map Prod.snd)

/-- Whatever the hash is: the node of a key is not changed by the removal of another, and the
addition of a node changes it to that node only. Where no two nodes have the same score, their
order does not matter, and the nodes of a key are one list, of which `get_nodes` returns the
beginning and `get_node` the first. -/
theorem placement_stable (X : Externals) (nodes : List String) (key : String) (hne : nodes ≠ []) :
    (∀ node, getNode X nodes key ≠ .ok node →
      getNode X (removeNode nodes node) key = getNode X nodes key) ∧
    (∀ node, getNode X (addNode nodes node) key = getNode X nodes key ∨
      getNode X (addNode nodes node) key = .ok node) ∧
    ((nodes.map (score X key)).Nodup →
      (∀ nodes', nodes.Perm nodes' → getNode X nodes' key = getNode X nodes key) ∧
      (∃ n, getNode X nodes key = .ok n ∧ getNodes X nodes key 1 = [n]) ∧
      ∀ n, getNodes X nodes key n <+: getNodes X nodes key (n + 1)) := by
  refine ⟨fun _ h => getNode_removeNode hne h, getNode_addNode hne, fun hnodup => ?_⟩
  exact ⟨fun _ hp => getNode_perm hne hnodup hp, getNode_eq_head hne hnodup, getNodes_prefix⟩

theorem placement_stable_three :
    getNode named ["a", "bb", "ccc"] "key" = .ok "ccc" ∧
    getNode named (removeNode ["a", "bb", "ccc"] "bb") "key" =
      getNode named ["a", "bb", "ccc"] "key" := by
  have hnode : getNode named ["a", "bb", "ccc"] "key" = .ok "ccc" := by decide +kernel
  refine ⟨hnode, (placement_stable named ["a", "bb", "ccc"] "key" (by decide)).1 "bb" ?_⟩
  rw [hnode]
  decide

end Vsector.Sharding.RendezvousHash
