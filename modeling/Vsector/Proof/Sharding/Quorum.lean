import Mathlib.Data.Finset.Card
import Mathlib.Data.List.Dedup
import Vsector.Proof.Models.Documents
import Vsector.Proof.Sharding.DeliveryHealth
import Vsector.Proof.Sharding.RejectedCalls

/-!
# Acknowledgements and readiness

A delivery succeeds by the number of replicas that acknowledged it, so by the
entries of the replica list. They name enough nodes for every fault set and
all endpoints exactly when that list, which neither `create` nor
`change_owner` checks for it, has no node twice (`success_names_nodes_iff`).

Readiness counts the replicas whose last delivery did not fail, and the next
delivery reaches those that are not faulted now. `ready_predicts_iff` is when
the one predicts the other.
-/

namespace Vsector.Sharding

open Framework Models Cluster

namespace Transport

variable {X : Externals} {σ : Type} {t : Transport} {endpoints : Endpoints σ}

@[simp] theorem attempts_map_fst (s : σ) (nodes : List String) :
    (t.attempts endpoints s nodes).map Prod.fst = nodes := by
  induction nodes generalizing s with
  | nil => rfl
  | cons node nodes ih => rw [attempts, List.map_cons, ih]

variable (t endpoints) in
/-- The replicas that acknowledge are some of those attempted. -/
theorem acknowledged_sublist (s : σ) (nodes : List String) :
    (acknowledged (t.attempts endpoints s nodes)).Sublist nodes := by
  have h := (List.filter_sublist (p := fun p => p.2.isOk) (l := t.attempts endpoints s nodes)).map
    Prod.fst
  rwa [attempts_map_fst] at h

/-- The endpoints succeed whenever their node is not faulted. -/
def SucceedsUnfaulted (t : Transport) (endpoints : Endpoints σ) : Prop :=
  ∀ s node, t.isFaulted node = false → (endpoints s node).2 = .ok ()

theorem acknowledged_of_succeeds (h : t.SucceedsUnfaulted endpoints) (s : σ) (nodes : List String) :
    acknowledged (t.attempts endpoints s nodes) = nodes.filter fun node => !t.isFaulted node := by
  induction nodes generalizing s with
  | nil => rfl
  | cons node nodes ih =>
    have ih := ih (t.deliverTo endpoints s node).1
    unfold acknowledged at ih ⊢
    rw [attempts]
    by_cases hf : t.isFaulted node = true
    · have hto : (t.deliverTo endpoints s node).2.isOk = false := by
        rw [deliverTo, if_pos hf]
        rfl
      rw [List.filter_cons_of_neg (by simp [hto]), List.filter_cons_of_neg (by simp [hf]), ih]
    · have hto : (t.deliverTo endpoints s node).2.isOk = true := by
        rw [deliverTo, if_neg hf, h s node (Bool.eq_false_iff.mpr hf)]
        rfl
      rw [List.filter_cons_of_pos (p := fun p : String × Except Exc Unit => p.2.isOk) hto,
        List.filter_cons_of_pos (by simp [hf]), List.map_cons, ih]

theorem success_iff (t : Transport) (endpoints : Endpoints σ) (s : σ) (ns : String) (shard : Shard)
    (requiredAcks : Nat) (now : ℚ) :
    (t.deliver X endpoints s ns shard requiredAcks now).result.success = true ↔
      requiredAcks ≤ 1 + (acknowledged (t.attempts endpoints s shard.replicas)).length := by
  rw [(deliver_eq (X := X) t endpoints s ns shard requiredAcks now).2.2.2, decide_eq_true_iff]

/-! ## The nodes of a success -/

/-- The nodes that have applied the operation of a delivery: the primary, and the replicas whose
endpoint returned. -/
def appliedBy (t : Transport) (endpoints : Endpoints σ) (s : σ) (shard : Shard) : Finset String :=
  insert shard.nodeId (acknowledged (t.attempts endpoints s shard.replicas)).toFinset

/-- Every delivery of the shard that succeeds was applied by the number of nodes that it
requires. -/
def NamesNodes (X : Externals) (shard : Shard) : Prop :=
  ∀ (σ : Type) (t : Transport) (endpoints : Endpoints σ) (s : σ) (ns : String)
    (requiredAcks : Nat) (now : ℚ),
    (t.deliver X endpoints s ns shard requiredAcks now).result.success = true →
      requiredAcks ≤ (t.appliedBy endpoints s shard).card

theorem nodup_of_length_le_card {l : List String} (h : l.length ≤ l.toFinset.card) : l.Nodup := by
  rw [List.card_toFinset] at h
  rw [← (List.dedup_sublist l).eq_of_length_le h]
  exact List.nodup_dedup l

theorem card_appliedBy {shard : Shard} (h : shard.nodeId ∉ shard.replicas) (s : σ) :
    (t.appliedBy endpoints s shard).card = 1 +
      (acknowledged (t.attempts endpoints s shard.replicas)).toFinset.card := by
  have hnot : shard.nodeId ∉ (acknowledged (t.attempts endpoints s shard.replicas)).toFinset :=
    fun hm =>
    h ((acknowledged_sublist _ _ s shard.replicas).subset (List.mem_toFinset.mp hm))
  rw [appliedBy, Finset.card_insert_of_notMem hnot, Nat.add_comm]

/-- With a primary that is no replica, what matters is that no replica is listed twice. -/
theorem namesNodes_iff {shard : Shard} (h : shard.nodeId ∉ shard.replicas) :
    NamesNodes X shard ↔ shard.replicas.Nodup := by
  constructor
  · intro hall
    let endpoints : Endpoints Unit := fun s _ => (s, .ok ())
    have hack : acknowledged (init.attempts endpoints () shard.replicas) = shard.replicas := by
      rw [acknowledged_of_succeeds (fun _ _ _ => rfl)]
      exact List.filter_eq_self.mpr fun _ _ => rfl
    have hcard := hall Unit init endpoints () "" (1 + shard.replicas.length) 0
      ((success_iff _ _ _ _ _ _ _).mpr (by rw [hack]))
    rw [card_appliedBy h, hack] at hcard
    exact nodup_of_length_le_card (by omega)
  · intro hnodup σ t endpoints s ns requiredAcks now hsuccess
    have hle := (success_iff t endpoints s ns shard requiredAcks now).mp hsuccess
    have hnodup' := hnodup.sublist (acknowledged_sublist t endpoints s shard.replicas)
    rw [card_appliedBy h, List.toFinset_card_of_nodup hnodup']
    exact hle

/-- `create` or `change_owner`, given these replicas or none, has accepted the shard. -/
inductive Accepted (lm : ShardLifecycleManager) (e : InMemoryEtcd) (put : Shard → Except Exc Unit)
    (shard : Shard) :
    Option (List String) → Shard → Prop where
  | create {owner : Option String} {replicas : Option (List String)} {shard' : Shard} :
    lm.createOn e put shard owner replicas = (shard', .ok ()) →
      Accepted lm e put shard replicas shard'
  | changeOwner {newOwner : String} {replicas : Option (List String)} {shard' : Shard} :
    lm.changeOwnerOn e put shard newOwner replicas = (shard', .ok ()) →
      Accepted lm e put shard replicas shard'

theorem Accepted.replicas_eq {lm : ShardLifecycleManager} {e : InMemoryEtcd}
    {put : Shard → Except Exc Unit} {shard shard' : Shard} {replicas : Option (List String)}
    (h : Accepted lm e put shard replicas shard') :
    shard'.replicas = replicas.getD shard.replicas ∧ shard'.nodeId ∉ shard'.replicas := by
  cases h with
  | @create owner _ _ h =>
    obtain ⟨haccepts, heq⟩ | ⟨-, exc, heq⟩ :=
      ShardLifecycleManager.createOn_eq lm e put shard owner replicas
    · rw [heq] at h
      cases (Prod.mk.inj h).1
      refine ⟨rfl, fun hmem => ?_⟩
      have hvalid := haccepts.1
      unfold Shard.validateOwnership at hvalid
      split at hvalid
      · cases hvalid
      · split at hvalid
        · cases hvalid
        · rename_i hnot
          exact hnot hmem
    · rw [heq] at h
      cases (Prod.mk.inj h).2
  | @changeOwner newOwner _ _ h =>
    obtain ⟨haccepts, heq⟩ | ⟨-, exc, heq⟩ :=
      ShardLifecycleManager.changeOwnerOn_eq lm e put shard newOwner replicas
    · rw [heq] at h
      rcases hput : put (ShardLifecycleManager.reassigned shard newOwner replicas) with exc | ⟨⟩
      · rw [hput] at h
        cases (Prod.mk.inj h).2
      · rw [hput] at h
        cases (Prod.mk.inj h).1
        exact ⟨rfl, haccepts.2.2.2⟩
    · rw [heq] at h
      cases (Prod.mk.inj h).2

/-- A success names enough nodes, under all faults and endpoints, if and only if the replicas that
the shard was accepted with are distinct. -/
theorem success_names_nodes_iff (X : Externals) {lm : ShardLifecycleManager} {e : InMemoryEtcd}
    {put : Shard → Except Exc Unit} {shard shard' : Shard} {replicas : Option (List String)}
    (h : Accepted lm e put shard replicas shard') :
    NamesNodes X shard' ↔ (replicas.getD shard.replicas).Nodup := by
  obtain ⟨hreplicas, hnot⟩ := h.replicas_eq
  rw [namesNodes_iff hnot, hreplicas]

private def created (replicas : List String) : Shard :=
  ⟨"s", "ns", "node-0", .creating, 0, 10, replicas, 1⟩

private theorem created_accepted {replicas : List String}
    (h : ShardLifecycleManager.createOn ⟨false⟩ (.init none) (fun _ => .ok ())
      (created []) none (some replicas) = (created replicas, .ok ())) :
    Accepted ⟨false⟩ (.init none) (fun _ => .ok ()) (created []) (some replicas)
      (created replicas) := .create h

theorem success_names_nodes_distinct : NamesNodes fieldwise (created ["node-1", "node-2"]) ↔
    ["node-1", "node-2"].Nodup :=
  success_names_nodes_iff fieldwise (created_accepted rfl)

/-- A replica that is listed twice acknowledges twice. -/
theorem success_counts_twice : ¬ ∀ X lm e put shard replicas shard',
    Accepted lm e put shard replicas shard' → NamesNodes X shard' := by
  intro h
  have haccepted : Accepted _ _ _ _ _ (created ["node-1", "node-1"]) := created_accepted rfl
  have hnodup := (namesNodes_iff haccepted.replicas_eq.2).mp (h fieldwise _ _ _ _ _ _ haccepted)
  revert hnodup
  decide

/-! ## Readiness -/

/-- Where the shard is reported ready, a delivery over endpoints that succeed whenever their node
is not faulted succeeds. -/
def ReadyPredicts (X : Externals) (t : Transport) (ns : String) (shard : Shard)
    (requiredAcks : Nat) : Prop :=
  (t.replicationHealth ns shard requiredAcks true).ready = true →
    ∀ (σ : Type) (endpoints : Endpoints σ) (s : σ) (now : ℚ), t.SucceedsUnfaulted endpoints →
      (t.deliver X endpoints s ns shard requiredAcks now).result.success = true

/-- The replicas that a delivery can reach now. -/
def unfaulted (t : Transport) (shard : Shard) : Nat :=
  shard.replicas.countP fun node => !t.isFaulted node

/-- The replicas whose last delivery, if there was one, did not fail. -/
def unfailed (l : List Attempt) (ns : String) (shard : Shard) : Nat :=
  shard.replicas.countP fun node => (outcomesOf (ns, shard.id, node) l).getLast?.getD true

theorem HealthOf.ready_iff {l : List Attempt} (h : HealthOf l t) (ns : String) (shard : Shard)
    (requiredAcks : Nat) :
    (t.replicationHealth ns shard requiredAcks true).ready = true ↔
      requiredAcks ≤ 1 + unfailed l ns shard := by
  have hcount : (shard.replicas.map (t.replicaHealth ns shard.id)).countP ReplicaHealth.healthy =
      unfailed l ns shard := by
    rw [List.countP_map]
    exact List.countP_congr fun node _ => by rw [Function.comp_apply, h.healthy]
  unfold replicationHealth
  dsimp only
  rw [hcount, Bool.true_and, decide_eq_true_iff]

theorem success_of_succeeds_iff {s : σ} (h : t.SucceedsUnfaulted endpoints) (ns : String)
    (shard : Shard) (requiredAcks : Nat) (now : ℚ) :
    (t.deliver X endpoints s ns shard requiredAcks now).result.success = true ↔
      requiredAcks ≤ 1 + t.unfaulted shard := by
  rw [success_iff, acknowledged_of_succeeds h, unfaulted, List.countP_eq_length_filter]

/-- In every reachable state, readiness predicts success if and only if enough replicas are not
faulted, or too many of them failed last. -/
theorem ready_predicts_iff (X : Externals) (s : σ) (ops : List (Op σ)) (ns : String) (shard : Shard)
    (requiredAcks : Nat) :
    let t := (ops.foldl (step X) (init, s)).1
    ReadyPredicts X t ns shard requiredAcks ↔
      requiredAcks ≤ 1 + t.unfaulted shard ∨
      1 + unfailed (history X s ops) ns shard < requiredAcks := by
  intro t
  have hready := (healthOf_history X s ops).ready_iff ns shard requiredAcks
  constructor
  · intro h
    by_cases hle : requiredAcks ≤ 1 + unfailed (history X s ops) ns shard
    · have hok : t.SucceedsUnfaulted (fun s _ => (s, .ok ()) : Endpoints Unit) := fun _ _ _ => rfl
      exact .inl ((success_of_succeeds_iff hok ns shard requiredAcks 0).mp
        (h (hready.mpr hle) Unit _ () 0 hok))
    · exact .inr (by omega)
  · rintro (hle | hlt) hr σ endpoints s now hok
    · exact (success_of_succeeds_iff hok ns shard requiredAcks now).mpr hle
    · have hle := hready.mp hr
      omega

/-- A node that is faulted before its first delivery is ready and is not reached. -/
theorem ready_fails : ¬ ∀ (X : Externals) (ops : List (Op Unit)) ns shard requiredAcks,
    ReadyPredicts X (ops.foldl (step X) (init, ())).1 ns shard requiredAcks := by
  intro h
  have hsuccess := h fieldwise [.failNode "node-1"] "ns" (created ["node-1"]) 2 rfl Unit
    (fun s _ => (s, .ok ())) () 0 fun _ _ _ => rfl
  revert hsuccess
  rw [success_iff]
  decide

end Transport

end Vsector.Sharding
