import Vsector.Framework.Run
import Vsector.Impl.Sharding.Transport

/-!
# Deliveries and health

`attempts` are the deliveries that a call attempts, each with its outcome, in
turn. A delivery records each of them (`deliver_eq`), so the health record of a
replica is a function of the attempts on it (`HealthOf`): in every reachable
state it tells how many there were, and whether the last one succeeded
(`health_is_history`).
-/

namespace Vsector.Sharding

open Framework Models

namespace Transport

variable {X : Externals} {σ : Type}

/-- The deliveries on nodes in turn, each with what was raised. -/
def attempts (t : Transport) (endpoints : Endpoints σ) :
    σ → List String → List (String × Except Exc Unit)
  | _, [] => []
  | s, node :: nodes =>
    (node, (t.deliverTo endpoints s node).2) ::
      attempts t endpoints (t.deliverTo endpoints s node).1 nodes

def acknowledged (l : List (String × Except Exc Unit)) : List String :=
  (l.filter fun p => p.2.isOk).map Prod.fst

/-- One attempt is recorded. -/
def recordAttempt (X : Externals) (now : ℚ) (ns shardId : String) (t : Transport)
    (p : String × Except Exc Unit) :
    Transport :=
  t.recordNode now ns shardId p.1 (match p.2 with
    | .ok () => none
    | .error e => some (stableError X e))

@[simp] theorem recordNode_faults (t : Transport) (now : ℚ) (ns shardId node : String)
    (error : Option String) :
    (t.recordNode now ns shardId node error).faults = t.faults := rfl

theorem attempts_congr {t t' : Transport} (h : t'.faults = t.faults) (endpoints : Endpoints σ)
    (s : σ) (nodes : List String) :
    t'.attempts endpoints s nodes = t.attempts endpoints s nodes := by
  have hto : ∀ s node, t'.deliverTo endpoints s node = t.deliverTo endpoints s node :=
    fun s node => by
    rw [deliverTo, deliverTo, isFaulted, isFaulted, h]
  induction nodes generalizing s with
  | nil => rfl
  | cons node nodes ih => rw [attempts, attempts, hto, ih]

theorem deliverNode_eq (ns shardId : String) (now : ℚ) (endpoints : Endpoints σ) (d : Delivery σ)
    (node : String) :
    let p := (node, (d.transport.deliverTo endpoints d.endpoints node).2)
    let d' := deliverNode X ns shardId now endpoints d node
    d'.transport = recordAttempt X now ns shardId d.transport p ∧
      d'.endpoints = (d.transport.deliverTo endpoints d.endpoints node).1 ∧
      d'.result.acknowledgedReplicas = d.result.acknowledgedReplicas ++ acknowledged [p] := by
  unfold deliverNode recordAttempt acknowledged
  rcases d.transport.deliverTo endpoints d.endpoints node with ⟨s, e | ⟨⟩⟩
  · exact ⟨rfl, rfl, (List.append_nil _).symm⟩
  · exact ⟨rfl, rfl, rfl⟩

/-- The loop records the attempts in turn, and collects those that succeeded. -/
theorem foldl_deliverNode (ns shardId : String) (now : ℚ) (endpoints : Endpoints σ)
    (nodes : List String) (d : Delivery σ) :
    let d' := nodes.foldl (deliverNode X ns shardId now endpoints) d
    d'.transport = (d.transport.attempts endpoints d.endpoints nodes).foldl
      (recordAttempt X now ns shardId) d.transport ∧
      d'.result.acknowledgedReplicas =
        d.result.acknowledgedReplicas ++
          acknowledged (d.transport.attempts endpoints d.endpoints nodes) := by
  induction nodes generalizing d with
  | nil => exact ⟨rfl, (List.append_nil _).symm⟩
  | cons node nodes ih =>
    obtain ⟨htransport, hendpoints, hack⟩ := deliverNode_eq (X := X) ns shardId now endpoints d node
    obtain ⟨ht, ha⟩ := ih (deliverNode X ns shardId now endpoints d node)
    have hattempts : (deliverNode X ns shardId now endpoints d node).transport.attempts endpoints
        (deliverNode X ns shardId now endpoints d node).endpoints nodes =
        d.transport.attempts endpoints
          (d.transport.deliverTo endpoints d.endpoints node).1 nodes := by
      rw [hendpoints]
      exact attempts_congr (by rw [htransport]; rfl) endpoints _ nodes
    rw [hattempts] at ht ha
    refine ⟨?_, ?_⟩
    · rw [List.foldl_cons, ht, htransport]
      rfl
    · rw [List.foldl_cons, ha, hack, List.append_assoc, attempts]
      unfold acknowledged
      rw [← List.map_append, ← List.filter_append]
      rfl

/-- What a delivery leaves and returns, by its attempts. -/
theorem deliver_eq (t : Transport) (endpoints : Endpoints σ) (s : σ) (ns : String) (shard : Shard)
    (requiredAcks : Nat) (now : ℚ) :
    let l := t.attempts endpoints s shard.replicas
    let d := t.deliver X endpoints s ns shard requiredAcks now
    d.transport.health = (l.foldl (recordAttempt X now ns shard.id) t).health ∧
      d.transport.faults = t.faults ∧
      d.result.acknowledgedReplicas = acknowledged l ∧
      d.result.success = decide (requiredAcks ≤ 1 + (acknowledged l).length) := by
  obtain ⟨ht, ha⟩ := foldl_deliverNode (X := X) ns shard.id now endpoints shard.replicas
    ⟨t, s, ⟨if shard.nodeId ≠ "" then shard.nodeId else shard.id, [], [], [], ∅,
      requiredAcks, true, false⟩⟩
  have hfaults : ∀ (l : List (String × Except Exc Unit)) (t : Transport),
      (l.foldl (recordAttempt X now ns shard.id) t).faults = t.faults := by
    intro l
    induction l with
    | nil => exact fun _ => rfl
    | cons p l ih => exact fun t => ih _
  have hhealth := congrArg Transport.health ht
  have hfault := congrArg Transport.faults ht
  refine ⟨hhealth, hfault.trans (hfaults _ t), ha, ?_⟩
  show decide (requiredAcks ≤ 1 + _) = _
  rw [ha]
  rfl

/-! ## Histories -/

/-- A delivery that was attempted: of which shard to which replica, and whether it succeeded. -/
abbrev Attempt : Type := (String × String × String) × Bool

/-- The outcomes of the attempts on one replica of a shard. -/
def outcomesOf (key : String × String × String) (l : List Attempt) : List Bool :=
  (l.filter fun a => a.1 = key).map Prod.snd

/-- The health that is reported of every replica is what the attempts on it amount to. -/
structure HealthOf (l : List Attempt) (t : Transport) : Prop where
  successes : ∀ ns shardId node, (t.replicaHealth ns shardId node).successes =
    (outcomesOf (ns, shardId, node) l).count true
  failures : ∀ ns shardId node, (t.replicaHealth ns shardId node).failures =
    (outcomesOf (ns, shardId, node) l).count false
  healthy : ∀ ns shardId node,
    (t.replicaHealth ns shardId node).healthy =
      (outcomesOf (ns, shardId, node) l).getLast?.getD true
  lastError : ∀ ns shardId node,
    (t.replicaHealth ns shardId node).lastError = none ↔
      (t.replicaHealth ns shardId node).healthy = true

theorem outcomesOf_append (key : String × String × String) (l : List Attempt) (a : Attempt) :
    outcomesOf key (l ++ [a]) = if a.1 = key then outcomesOf key l ++ [a.2]
      else outcomesOf key l := by
  unfold outcomesOf
  rw [List.filter_append, List.map_append]
  by_cases h : a.1 = key
  · simp [h]
  · simp [h]

/-- Only the records of health count. -/
theorem replicaHealth_congr {t t' : Transport} (h : t'.health = t.health)
    (ns shardId node : String) :
    t'.replicaHealth ns shardId node = { t.replicaHealth ns shardId node with
      available := !t'.isFaulted node } := by
  rw [replicaHealth, replicaHealth, h]

theorem HealthOf.congr {l : List Attempt} {t t' : Transport} (h : HealthOf l t)
    (heq : t'.health = t.health) :
    HealthOf l t' := by
  refine ⟨fun ns i n => ?_, fun ns i n => ?_, fun ns i n => ?_, fun ns i n => ?_⟩
  · rw [replicaHealth_congr heq]
    exact h.successes ns i n
  · rw [replicaHealth_congr heq]
    exact h.failures ns i n
  · rw [replicaHealth_congr heq]
    exact h.healthy ns i n
  · rw [replicaHealth_congr heq]
    exact h.lastError ns i n

/-- What is reported of a replica once an attempt is recorded, on it or on another. -/
theorem replicaHealth_recordAttempt (now : ℚ) (ns shardId : String) (t : Transport)
    (p : String × Except Exc Unit) (ns' shardId' node' : String) :
    (((ns, shardId, p.1) = (ns', shardId', node')) ∧
      let h := t.replicaHealth ns' shardId' node'
      let h' := (recordAttempt X now ns shardId t p).replicaHealth ns' shardId' node'
      h'.healthy = p.2.isOk ∧ (h'.lastError = none ↔ p.2.isOk = true) ∧
        h'.successes = h.successes + (if p.2.isOk then 1 else 0) ∧
        h'.failures = h.failures + if p.2.isOk then 0 else 1) ∨
    ((ns, shardId, p.1) ≠ (ns', shardId', node') ∧
      (recordAttempt X now ns shardId t p).replicaHealth ns' shardId' node' =
        t.replicaHealth ns' shardId' node') := by
  obtain ⟨node, r⟩ := p
  by_cases hkey : (ns, shardId, node) = (ns', shardId', node')
  · refine .inl ⟨hkey, ?_⟩
    cases hkey
    unfold recordAttempt recordNode replicaHealth
    dsimp only
    rw [Dict.get?_set_self]
    rcases t.health.get? (ns, shardId, node') with _ | rec
    · cases r <;> simp [Except.isOk, Except.toBool]
    · cases r <;> simp [Except.isOk, Except.toBool]
  · refine .inr ⟨hkey, ?_⟩
    unfold recordAttempt recordNode replicaHealth
    dsimp only
    rw [Dict.get?_set_ne _ _ (Ne.symm hkey)]
    rfl

/-- One attempt more. -/
theorem HealthOf.record {l : List Attempt} {t : Transport} (h : HealthOf l t) (now : ℚ)
    (ns shardId : String) (p : String × Except Exc Unit) :
    HealthOf (l ++ [((ns, shardId, p.1), p.2.isOk)]) (recordAttempt X now ns shardId t p) := by
  have hcases := replicaHealth_recordAttempt (X := X) now ns shardId t p
  refine ⟨fun a i n => ?_, fun a i n => ?_, fun a i n => ?_, fun a i n => ?_⟩
  all_goals obtain ⟨hkey, hhealthy, herror, hsucc, hfail⟩ | ⟨hkey, heq⟩ := hcases a i n
  · rw [outcomesOf_append, if_pos hkey, hsucc, h.successes, List.count_append]
    cases p.2.isOk <;> rfl
  · rw [outcomesOf_append, if_neg hkey, heq, h.successes]
  · rw [outcomesOf_append, if_pos hkey, hfail, h.failures, List.count_append]
    cases p.2.isOk <;> rfl
  · rw [outcomesOf_append, if_neg hkey, heq, h.failures]
  · rw [outcomesOf_append, if_pos hkey, hhealthy, List.getLast?_concat]
    rfl
  · rw [outcomesOf_append, if_neg hkey, heq, h.healthy]
  · rw [herror, hhealthy]
  · rw [heq, h.lastError]

/-- The attempts of a delivery, one after the other. -/
theorem HealthOf.records {l : List Attempt} {t : Transport} (h : HealthOf l t) (now : ℚ)
    (ns shardId : String) (ps : List (String × Except Exc Unit)) :
    HealthOf (l ++ ps.map fun p => ((ns, shardId, p.1), p.2.isOk))
      (ps.foldl (recordAttempt X now ns shardId) t) := by
  induction ps generalizing l t with
  | nil =>
    rw [List.map_nil, List.append_nil]
    exact h
  | cons p ps ih =>
    have hps := ih (h.record (X := X) now ns shardId p)
    rw [List.append_assoc] at hps
    exact hps

/-! ## Runs -/

/-- What happens to a transport. -/
inductive Op (σ : Type) where
  | failNode (node : String)
  | healNode (node : String)
  | deliver (ns : String) (shard : Shard) (requiredAcks : Nat) (now : ℚ) (endpoints : Endpoints σ)
  | replicationHealth (ns : String) (shard : Shard) (requiredAcks : Nat) (primaryAvailable : Bool)

def step (X : Externals) (s : Transport × σ) : Op σ → Transport × σ
  | .failNode node => (s.1.failNode node, s.2)
  | .healNode node => (s.1.healNode node, s.2)
  | .deliver ns shard requiredAcks now endpoints =>
    let d := s.1.deliver X endpoints s.2 ns shard requiredAcks now
    (d.transport, d.endpoints)
  | .replicationHealth _ _ _ _ => s

/-- The deliveries that an operation attempts. -/
def attempted (s : Transport × σ) : Op σ → List Attempt
  | .failNode _ | .healNode _ | .replicationHealth _ _ _ _ => []
  | .deliver ns shard _ _ endpoints =>
    (s.1.attempts endpoints s.2 shard.replicas).map fun p => ((ns, shard.id, p.1), p.2.isOk)

/-- The deliveries attempted in a run. -/
def history (X : Externals) (s : σ) (ops : List (Op σ)) : List Attempt :=
  trail (total (step X)) attempted (init, s) ops

theorem HealthOf.step {l : List Attempt} {s : Transport × σ} (h : HealthOf l s.1) (op : Op σ) :
    HealthOf (l ++ attempted s op) (step X s op).1 := by
  cases op with
  | failNode node =>
    rw [attempted, List.append_nil]
    exact h.congr rfl
  | healNode node =>
    rw [attempted, List.append_nil]
    exact h.congr rfl
  | replicationHealth ns shard requiredAcks primaryAvailable =>
    rw [attempted, List.append_nil]
    exact h
  | deliver ns shard requiredAcks now endpoints =>
    exact (h.records now ns shard.id _).congr
      (deliver_eq s.1 endpoints s.2 ns shard requiredAcks now).1

theorem HealthOf.run {l : List Attempt} {s : Transport × σ} (h : HealthOf l s.1)
    (ops : List (Op σ)) :
    HealthOf (l ++ trail (total (Transport.step X)) attempted s ops)
      (ops.foldl (Transport.step X) s).1 := by
  induction ops generalizing l s with
  | nil =>
    rw [trail, List.append_nil]
    exact h
  | cons op ops ih =>
    have hops := ih (h.step (X := X) op)
    rw [List.append_assoc] at hops
    exact hops

theorem healthOf_init : HealthOf [] init :=
  ⟨fun _ _ _ => rfl, fun _ _ _ => rfl, fun _ _ _ => rfl, fun _ _ _ => iff_of_true rfl rfl⟩

/-- The history of a run that begins with no deliveries. -/
theorem healthOf_history (X : Externals) (s : σ) (ops : List (Op σ)) :
    HealthOf (history X s ops) (ops.foldl (step X) (init, s)).1 :=
  HealthOf.run (l := []) (s := (init, s)) healthOf_init ops

/-- In every reachable state, the health that is reported of a replica is the history of the
deliveries attempted on it, and whether it is faulted now; neither healing a node nor reporting
changes what is recorded. -/
theorem health_is_history (X : Externals) (s : σ) (ops : List (Op σ)) :
    let t := (ops.foldl (step X) (init, s)).1
    (∀ ns shardId node,
      let h := t.replicaHealth ns shardId node
      let outcomes := outcomesOf (ns, shardId, node) (history X s ops)
      h.successes + h.failures = outcomes.length ∧
        (h.healthy = true ↔ ∀ last, outcomes.getLast? = some last → last = true) ∧
        (h.lastError = none ↔ h.healthy = true) ∧ h.available = !t.isFaulted node) ∧
    (∀ ns shard requiredAcks primaryAvailable,
      (t.replicationHealth ns shard requiredAcks primaryAvailable).replicas =
        shard.replicas.map (t.replicaHealth ns shard.id)) ∧
    (∀ node, (t.healNode node).health = t.health ∧
      (t.healNode node).shardLastSuccess = t.shardLastSuccess ∧
      (t.healNode node).shardLastFailure = t.shardLastFailure) ∧
    ∀ endpoints ns shard requiredAcks primaryAvailable,
      step X (t, endpoints) (.replicationHealth ns shard requiredAcks primaryAvailable : Op σ) =
        (t, endpoints) := by
  have h := healthOf_history X s ops
  refine ⟨fun ns shardId node => ⟨?_, ?_, h.lastError ns shardId node, rfl⟩, fun _ _ _ _ =>
    rfl, fun _ => ⟨rfl, rfl, rfl⟩, fun _ _ _ _ _ => rfl⟩
  · rw [h.successes, h.failures]
    exact List.count_true_add_count_false _
  · rw [h.healthy]
    rcases (outcomesOf (ns, shardId, node) (history X s ops)).getLast? with _ | last
    · exact iff_of_true rfl nofun
    · exact ⟨fun hl _ he => by cases he; exact hl, fun hl => hl last rfl⟩

end Transport

/-! ## The endpoints of the ingest service -/

namespace InProcessReplicaTransport

open Storage Ingest Index

variable {ι : Type} [BaseIndex ι] (X : Externals) (set : Settings) (t : InProcessReplicaTransport ι)
  (ns : String) (shard : Shard) (payload : Text) (upsert : Bool) (env : DeliveryEnv)

/-- What the transport keeps itself. -/
def core : Transport := ⟨t.faults, t.health, t.shardLastSuccess, t.shardLastFailure⟩

/-- An operation on the endpoints that the ingest service makes. -/
def endpointsFor (roots : Dict String Root) : Endpoints (Dict String (ReplicaEndpoint ι)) :=
  fun endpoints node =>
  let (t, r) := deliverTo X set ⟨∅, ∅, ∅, ∅, endpoints, roots⟩ ns shard payload upsert env node
  (t.endpoints, r)

/-- The endpoint of a node depends on the endpoints and the replica directories only. -/
theorem getOrCreateEndpoint_core (node : String) :
    t.getOrCreateEndpoint X set ns shard node =
      (getOrCreateEndpoint X set ⟨∅, ∅, ∅, ∅, t.endpoints, t.roots⟩ ns shard node).map
        fun p => ({ t with endpoints := p.1.endpoints }, p.2) := by
  unfold getOrCreateEndpoint
  dsimp only
  rcases t.endpoints.get? (endpointKey ns shard.id node) with _ | endpoint
  · rcases set.metadata.get? ns with _ | settings
    · rfl
    · dsimp only
      rcases ShardContext.init X _ settings set.memtableThreshold _ with e | ctx
      · rfl
      · rfl
  · rfl

/-- One operation is one on the endpoints, unless the node is faulted. -/
theorem deliverTo_core (node : String) :
    let r := t.deliverTo X set ns shard payload upsert env node
    r.1 = { t with endpoints := r.1.endpoints } ∧
      t.core.deliverTo (endpointsFor X set ns shard payload upsert env t.roots) t.endpoints node =
        (r.1.endpoints, r.2) := by
  have hnone : ¬ (⟨∅, ∅, ∅, ∅, t.endpoints, t.roots⟩ : InProcessReplicaTransport ι).isFaulted
      node = true :=
    Bool.false_ne_true
  unfold deliverTo Transport.deliverTo endpointsFor
  by_cases hf : t.isFaulted node = true
  · have hf' : t.core.isFaulted node = true := hf
    rw [if_pos hf, if_pos hf']
    exact ⟨rfl, rfl⟩
  · have hf' : ¬ t.core.isFaulted node = true := hf
    rw [if_neg hf, if_neg hf', deliverTo, if_neg hnone, getOrCreateEndpoint_core]
    rcases getOrCreateEndpoint X set ⟨∅, ∅, ∅, ∅, t.endpoints, t.roots⟩ ns shard
      node with e | ⟨u, endpoint⟩
    · exact ⟨rfl, rfl⟩
    · exact ⟨rfl, rfl⟩

/-- The loop's state, and that of the loop over the endpoints. -/
def DeliverySim (roots : Dict String Root) (s : InProcessReplicaTransport ι × ReplicationResult)
    (d : Transport.Delivery (Dict String (ReplicaEndpoint ι))) : Prop :=
  d = ⟨s.1.core, s.1.endpoints, s.2⟩ ∧ s.1.roots = roots

theorem DeliverySim.node {roots : Dict String Root}
    {s : InProcessReplicaTransport ι × ReplicationResult}
    {d : Transport.Delivery (Dict String (ReplicaEndpoint ι))} (h : DeliverySim roots s d)
    (node : String) :
    DeliverySim roots (deliverNode X set ns shard payload upsert env s node)
      (Transport.deliverNode X ns shard.id env.time
        (endpointsFor X set ns shard payload upsert env roots) d node) := by
  obtain ⟨u, result⟩ := s
  obtain ⟨rfl, rfl⟩ := h
  obtain ⟨hself, hto⟩ := deliverTo_core X set u ns shard payload upsert env node
  unfold deliverNode Transport.deliverNode
  dsimp only
  rw [hto]
  rcases hr : u.deliverTo X set ns shard payload upsert env node with ⟨u', e | ⟨⟩⟩
  · rw [hr] at hself
    dsimp only at hself ⊢
    rw [hself]
    exact ⟨rfl, rfl⟩
  · rw [hr] at hself
    dsimp only at hself ⊢
    rw [hself]
    exact ⟨rfl, rfl⟩

/-- A delivery by the transport of the ingest service is a delivery over its endpoints. -/
theorem deliver_core (requiredAcks : Nat) :
    let r := t.deliver X set ns shard payload requiredAcks upsert env
    t.core.deliver X (endpointsFor X set ns shard payload upsert env t.roots) t.endpoints ns shard
      requiredAcks env.time =
      ⟨r.1.core, r.1.endpoints, r.2⟩ := by
  have hloop : ∀ (nodes : List String) (s : InProcessReplicaTransport ι × ReplicationResult)
      (d : Transport.Delivery (Dict String (ReplicaEndpoint ι))), DeliverySim t.roots s d →
      DeliverySim t.roots (nodes.foldl (deliverNode X set ns shard payload upsert env) s)
        (nodes.foldl (Transport.deliverNode X ns shard.id env.time
          (endpointsFor X set ns shard payload upsert env t.roots)) d) := by
    intro nodes
    induction nodes with
    | nil => exact fun s d h => h
    | cons node nodes ih =>
      exact fun s d h => ih _ _ (h.node X set ns shard payload upsert env node)
  obtain ⟨hd, -⟩ := hloop shard.replicas
    (t, ⟨if shard.nodeId ≠ "" then shard.nodeId else shard.id, [], [], [], ∅, requiredAcks, true,
      false⟩) _ ⟨rfl, rfl⟩
  unfold Transport.deliver deliver
  dsimp only at hd ⊢
  rw [hd]
  rfl

end InProcessReplicaTransport

end Vsector.Sharding
