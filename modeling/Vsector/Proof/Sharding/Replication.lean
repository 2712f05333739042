import Vsector.Framework.Run
import Vsector.Impl.Sharding.Replication
import Vsector.Proof.Ingest.ShardContext
import Vsector.Proof.Models.Documents

/-!
# Replicas follow their primary

The replicas of a shard and its primary show the last operation of every id
(`Converged`, `converged_step`), so a replica that acknowledged an operation
shows what the primary shows (`replicas_converge`), unless it holds another
record of the id with the version and checksum of the one written, or a
deleted one (`UpsertApplies`): then it acknowledges what it has not applied
(`metadata_update_not_replicated`).
-/

namespace Vsector.Sharding

open Framework Models Storage Index Ingest ShardContext InProcessReplicaTransport

variable {X : Externals} {ι : Type} [BaseIndex ι]

/-! ## One replica -/

/-- What a replica shows for an id. -/
def ReplicaEndpoint.visible (X : Externals) (e : ReplicaEndpoint ι) (id : String) :
    Except Exc (Option VectorRecord) :=
  match e.contains X id with
  | .error err => .error err
  | .ok true => e.record X id
  | .ok false => .ok none

omit [BaseIndex ι] in
theorem ReplicaEndpoint.visible_eq (e : ReplicaEndpoint ι) (id : String) :
    e.visible X id = e.ctx.visible X id := by
  rw [visible, contains, record, ShardContext.visible]
  cases e.ctx.segments.get X id with
  | error err => rfl
  | ok rec => cases rec <;> cases h : e.ctx.tombstones.has id <;> rfl

/-- A record replaces what is there, or is there already: what the context has of its id with its
version and checksum is the record itself, and not deleted; a memtable flush it causes succeeds. -/
def UpsertApplies (X : Externals) (ctx : ShardContext ι) (rec : VectorRecord) (env : FlushEnv) :
    Prop :=
  (∀ c, ctx.segments.get X rec.id.text = .ok (some c) → c.checksum = rec.checksum ∧
    c.version = rec.version →
    c = rec ∧ ctx.tombstones.has rec.id.text = false) ∧
  ((ctx.segments.memtable.put rec).shouldFlush →
    CanFlush { ctx.segments with memtable := ctx.segments.memtable.put rec } env)

variable [LawfulIndex ι] {ctx : ShardContext ι} {last : String → Option Op} {ns : Namespace}

/-- A replica shows the last operations `last`. -/
structure Follows (X : Externals) (ns : Namespace) (ctx : ShardContext ι)
    (last : String → Option Op) : Prop where
  shows : Shows X ctx last
  ns_eq : ctx.ns = ns

theorem decodeUpsert_dump (hX : X.Lawful) {rec : VectorRecord} (hf : rec.Finite) :
    decodeUpsert X (some (X.modelDumpJson rec)) = .ok rec := by
  simp only [decodeUpsert, hX.dump_op, Option.any_none, Bool.false_eq_true, and_false, if_false,
    hX.validateJson_dump rec hf]

/-- Writing what is shown already. -/
theorem write_same {op : Op} (h : last op.id = some op) : write last op = last := by
  rw [write, ← h]
  exact Function.update_eq_self _ _

theorem Follows.upsert (hX : X.Lawful) (h : Follows X ns ctx last) {rec : VectorRecord}
    {env : FlushEnv} (hf : rec.Finite) (hd : rec.dimension = ns.dimension)
    (ha : last rec.id.text = some (.upsert rec) ∨ UpsertApplies X ctx rec env) :
    ∃ ctx', applyReplicatedUpsert X ctx (some (X.modelDumpJson rec)) env = (ctx', .ok ()) ∧
      Follows X ns ctx' (write last (.upsert rec)) := by
  obtain ⟨tables, hr, hs⟩ := h.shows.tables
  have hs := hs rec.id.text
  simp only [applyReplicatedUpsert, decodeUpsert_dump hX hf, hr.get_eq]
  split
  · -- It is not applied: it is what is shown already.
    rename_i hex
    obtain ⟨c, hc, he⟩ := (Option.any_eq_true ..).mp hex
    refine ⟨ctx, rfl, ?_, h.ns_eq⟩
    rw [write_same]
    · exact h.shows
    rcases ha with hl | ha
    · exact hl
    · obtain ⟨rfl, ht⟩ := ha.1 c (by rw [hr.get_eq, hc]) (of_decide_eq_true he)
      cases hl : last c.id.text with
      | none => rw [hl, hc] at hs; cases hs
      | some op =>
        rw [hl, hc, ht] at hs
        cases op with
        | upsert r => obtain ⟨hr', -⟩ := hs; cases hr'; exact hl
        | delete a => cases hs
  · rename_i hex
    rcases ha with hl | ha
    · rw [hl] at hs
      rw [hs.1] at hex
      simp at hex
    · obtain ⟨ctx', hu, hsh, -, -, hns, -⟩ := upsert_ok hX h.shows (some (X.modelDumpJson rec))
        (hd.trans (congrArg Namespace.dimension h.ns_eq.symm)) ha.2
      exact ⟨ctx'.flushWal, by rw [hu], hsh.congr rfl rfl rfl rfl, hns.trans h.ns_eq⟩

theorem Follows.delete (h : Follows X ns ctx last) (id : String) :
    ∃ ctx', applyReplicatedDelete X ctx (deletePayload id) = (ctx', .ok ()) ∧
      Follows X ns ctx' (write last (.delete id)) := by
  obtain ⟨tables, hr, hs⟩ := h.shows.tables
  refine ⟨_, rfl, ⟨(LawfulIndex.dimension_delete _ _).trans h.shows.index, tables, hr.delete id,
    fun a => ?_⟩, h.ns_eq⟩
  show Shown (served { ctx.segments with memtable := ctx.segments.memtable.delete id } tables a)
    ((ctx.tombstones.add id).has a) _
  rw [write_apply, PySet.has_add, Op.id]
  by_cases ha : a = id
  · simp [ha, Shown]
  · simpa [ha, served_delete ha] using hs a

/-! ## Delivering -/

/-- The context an operation on a node of a shard is applied to, where the process started with
empty replica directories. -/
def nodeCtx (set : Settings) (ns : Namespace) (shard : Shard) (t : InProcessReplicaTransport ι)
    (node : String) :
    ShardContext ι :=
  match t.endpoints.get? (endpointKey shard.ns shard.id node) with
  | some endpoint => endpoint.ctx
  | none =>
    .fresh ⟨s!"{shard.id}#replica-{node}", shard.ns, node, .active, 0, 50000000000, [],
      1⟩ ns set.memtableThreshold

theorem endpointKey_inj {a b c d : String} : endpointKey a b c = endpointKey a b d ↔ c = d := by
  simp [endpointKey, String.append_right_inj, ToString.toString]

/-- What an operation does on one node. -/
def applyOn (X : Externals) (payload : Text) (upsert : Bool) (env : DeliveryEnv) (node : String)
    (ctx : ShardContext ι) : ShardContext ι × Except Exc Unit :=
  if upsert then applyReplicatedUpsert X ctx payload (env.flush node)
    else applyReplicatedDelete X ctx payload

variable {t : InProcessReplicaTransport ι} {set : Settings} {shard : Shard} {payload : Text}
  {isUpsert : Bool} {env : DeliveryEnv}

omit [LawfulIndex ι] in
theorem nodeCtx_congr {t t' : InProcessReplicaTransport ι} {node : String}
    (h : t'.endpoints.get? (endpointKey shard.ns shard.id node) = t.endpoints.get?
      (endpointKey shard.ns shard.id node)) :
    nodeCtx set ns shard t' node = nodeCtx set ns shard t node := by
  simp only [nodeCtx, h]

omit [LawfulIndex ι] in
theorem deliverTo_ok (hm : set.metadata.get? shard.ns = some ns) (hr : t.roots = ∅) {node : String}
    (hf : t.isFaulted node = false) {ctx' : ShardContext ι}
    (ha : applyOn X payload isUpsert env node (nodeCtx set ns shard t node) = (ctx', .ok ())) :
    ∃ t', t.deliverTo X set shard.ns shard payload isUpsert env node = (t', .ok ()) ∧
      nodeCtx set ns shard t' node = ctx' ∧
      (t'.endpoints.get? (endpointKey shard.ns shard.id node)).isSome ∧
      t'.faults = t.faults ∧ t'.roots = ∅ ∧
      ∀ key, key ≠ endpointKey shard.ns shard.id node →
        t'.endpoints.get? key = t.endpoints.get? key := by
  rw [applyOn, nodeCtx] at ha
  rw [deliverTo, hf, getOrCreateEndpoint]
  cases he : t.endpoints.get? (endpointKey shard.ns shard.id node) with
  | some endpoint =>
    rw [he] at ha
    simp only [Bool.false_eq_true, if_false, ha]
    refine ⟨_, rfl, ?_, ?_, rfl, hr, fun key hk => ?_⟩
    · simp only [nodeCtx, Dict.get?_set_self]
    · simp only [Dict.get?_set_self, Option.isSome_some]
    · exact Dict.get?_set_ne _ _ hk
  | none =>
    rw [he] at ha
    have hroot : (t.roots.get? s!"{shard.id}#replica-{node}").getD ∅ = ∅ := by rw [hr]; rfl
    simp only [hm, Bool.false_eq_true, if_false, hroot, init_empty, ha]
    refine ⟨_, rfl, ?_, ?_, rfl, hr, fun key hk => ?_⟩
    · simp only [nodeCtx, Dict.get?_set_self]
    · simp only [Dict.get?_set_self, Option.isSome_some]
    · simp only [Dict.get?_set_ne _ _ hk]

/-- Every node acknowledges an operation that each can apply; what a node that is listed twice has
applied it can apply again. -/
theorem deliverNodes_ok {last' : String → Option Op} (hm : set.metadata.get? shard.ns = some ns)
    (hagain : ∀ node (ctx : ShardContext ι), Follows X ns ctx last' →
      ∃ ctx', applyOn X payload isUpsert env node ctx = (ctx', .ok ()) ∧ Follows X ns ctx' last')
    {nodes : List String} {t : InProcessReplicaTransport ι} (hr : t.roots = ∅)
    (hf : ∀ node, t.isFaulted node = false)
    (hnodes : ∀ node ∈ nodes, ∃ ctx', applyOn X payload isUpsert env node
      (nodeCtx set ns shard t node) = (ctx', .ok ()) ∧ Follows X ns ctx' last')
    (result : ReplicationResult) :
    ∃ t' result', nodes.foldl (deliverNode X set shard.ns shard payload isUpsert env) (t, result) =
      (t', result') ∧
      t'.roots = ∅ ∧ t'.faults = t.faults ∧
      (∀ node ∈ nodes, (t'.endpoints.get? (endpointKey shard.ns shard.id node)).isSome ∧
        Follows X ns (nodeCtx set ns shard t' node) last') ∧
      (∀ node ∉ nodes, t'.endpoints.get? (endpointKey shard.ns shard.id node) =
        t.endpoints.get? (endpointKey shard.ns shard.id node)) ∧
      result'.acknowledgedReplicas = result.acknowledgedReplicas ++ nodes := by
  induction nodes generalizing t result with
  | nil => exact ⟨t, result, rfl, hr, rfl, by simp, fun _ _ => rfl, by simp⟩
  | cons n nodes ih =>
    obtain ⟨ctx₁, ha, hfollows⟩ := hnodes n List.mem_cons_self
    obtain ⟨t₁, hd, hn, hsome, hfaults, hroots, hother⟩ := deliverTo_ok hm hr (hf n) ha
    let t₂ := t₁.recordNode env.time shard.ns shard.id n none
    have hne : ∀ node, node ≠ n → t₂.endpoints.get? (endpointKey shard.ns shard.id node) =
        t.endpoints.get? (endpointKey shard.ns shard.id node) :=
      fun node h => hother _ fun he => h (endpointKey_inj.mp he)
    have hn₂ : nodeCtx set ns shard t₂ n = ctx₁ := hn
    obtain ⟨t', result', hfold, hr', hf', hfol, hkeep, hack⟩ := ih (t := t₂) hroots
      (fun node => by rw [isFaulted, show t₂.faults = t.faults from hfaults]; exact hf node)
      (fun node hmem => by
        by_cases h : node = n
        · rw [h, hn₂]; exact hagain n ctx₁ hfollows
        · rw [nodeCtx_congr (hne node h)]; exact hnodes node (List.mem_cons_of_mem _ hmem))
      { result with
        attemptedReplicas := result.attemptedReplicas ++ [n]
        acknowledgedReplicas := result.acknowledgedReplicas ++ [n] }
    refine ⟨t', result', ?_, hr', hf'.trans hfaults, fun node hmem => ?_, fun node hmem =>
      ?_, by rw [hack]; simp⟩
    · rw [List.foldl_cons, ← hfold]
      simp only [deliverNode, hd]
      rfl
    · by_cases h : node ∈ nodes
      · exact hfol node h
      · have : node = n := (List.mem_cons.mp hmem).resolve_right h
        rw [nodeCtx_congr (hkeep node h), hkeep node h, this, hn₂]
        exact ⟨hsome, hfollows⟩
    · rw [List.mem_cons, not_or] at hmem
      rw [hkeep node hmem.2, hne node hmem.1]

/-! ## Runs -/

/-- A shard on its primary, and the transport to its replicas. -/
structure Replicated (ι : Type) where
  ctx : ShardContext ι
  transport : InProcessReplicaTransport ι

/-- What happens to a replicated shard. -/
inductive ReplicatedOp where
  | upsert (record : VectorRecord) (env : FlushEnv) (delivery : DeliveryEnv)
  | delete (id : String) (delivery : DeliveryEnv)
  /-- The log's flush at the end of a request. -/
  | flushWal
  | flush (env : FlushEnv)
  | flushReplica (node : String) (env : FlushEnv)

/-- A memtable flush on the endpoint of a node. -/
def flushEndpoint (X : Externals) (t : InProcessReplicaTransport ι) (shard : Shard) (node : String)
    (env : FlushEnv) :
    Option (InProcessReplicaTransport ι) :=
  let key := endpointKey shard.ns shard.id node
  match t.endpoints.get? key with
  | none => some t
  | some endpoint =>
    match endpoint.ctx.flushMemtable X env with
    | (ctx, .ok ()) => some { t with endpoints := t.endpoints.set key { endpoint with ctx := ctx } }
    | (_, .error _) => none

/-- What the ingest service does for one operation: on the primary, then on the replicas; `none`
where the primary raises. -/
def replicatedStep (X : Externals) (set : Settings) (s : Replicated ι) :
    ReplicatedOp → Option (Replicated ι × Option ReplicationResult)
  | .upsert record env delivery =>
    let payload := some (X.modelDumpJson record)
    match s.ctx.applyUpsert X record payload env none with
    | (ctx, .ok ()) =>
      let (t, result) := s.transport.replicateUpsert X set ctx.shard.ns ctx.shard payload
        ctx.ns.requiredAcks delivery
      some (⟨ctx, t⟩, some result)
    | (_, .error _) => none
  | .delete id delivery =>
    match s.ctx.applyDelete X id with
    | (ctx, .ok ()) =>
      let (t, result) :=
        s.transport.replicateDelete X set ctx.shard.ns ctx.shard (deletePayload id)
          ctx.ns.requiredAcks delivery
      some (⟨ctx, t⟩, some result)
    | (_, .error _) => none
  | .flushWal => some ({ s with ctx := s.ctx.flushWal }, none)
  | .flush env =>
    match s.ctx.flushMemtable X env with
    | (ctx, .ok ()) => some ({ s with ctx := ctx }, none)
    | (_, .error _) => none
  | .flushReplica node env =>
    (flushEndpoint X s.transport s.ctx.shard node env).map fun t =>
      ({ s with transport := t }, none)

/-- The condition on an operation: a record is finite, has the dimension of the namespace and
replaces what the replicas have (`UpsertApplies`), and every memtable flush succeeds
(`CanFlush`). -/
def ReplicatedOk (X : Externals) (set : Settings) (s : Replicated ι) : ReplicatedOp → Prop
  | .upsert record env delivery => record.Finite ∧ record.dimension = s.ctx.ns.dimension ∧
    ((s.ctx.segments.memtable.put record).shouldFlush →
      CanFlush { s.ctx.segments with memtable := s.ctx.segments.memtable.put record } env) ∧
    ∀ node ∈ s.ctx.shard.replicas,
      UpsertApplies X (nodeCtx set s.ctx.ns s.ctx.shard s.transport node) record
        (delivery.flush node)
  | .delete _ _ => True
  | .flushWal => True
  | .flush env => s.ctx.segments.memtable.count ≠ 0 → CanFlush s.ctx.segments env
  | .flushReplica node env =>
    let segments := (nodeCtx set s.ctx.ns s.ctx.shard s.transport node).segments
    segments.memtable.count ≠ 0 → CanFlush segments env

/-- The primary and the replicas of a shard show the last operations `last`. -/
structure Converged (X : Externals) (set : Settings) (shard : Shard) (ns : Namespace)
    (s : Replicated ι) (last : String → Option Op) : Prop where
  primary : Shows X s.ctx last
  ns_eq : s.ctx.ns = ns
  shard_eq : ∃ n, s.ctx.shard = { shard with vectorCount := n }
  roots : s.transport.roots = ∅
  faults : ∀ node, s.transport.isFaulted node = false
  replicas : ∀ node ∈ shard.replicas, Follows X ns (nodeCtx set ns shard s.transport node) last

/-- Every replica has acknowledged an operation. -/
def Acknowledged (shard : Shard) (t : InProcessReplicaTransport ι) (result : ReplicationResult) :
    Prop :=
  result.acknowledgedReplicas = shard.replicas ∧
    ∀ node ∈ shard.replicas, (t.endpoints.get? (endpointKey shard.ns shard.id node)).isSome

variable {s s' : Replicated ι} {result : Option ReplicationResult}

/-- The replicas after a delivery that each of them applies. -/
theorem Converged.deliver (hm : set.metadata.get? shard.ns = some ns) (payload : Text)
    (isUpsert : Bool) (env : DeliveryEnv) {op : Op} {ctx' : ShardContext ι} {n : Nat}
    (h : Converged X set shard ns s last) (hp : Shows X ctx' (write last op)) (hns : ctx'.ns = ns)
    (hsh : ctx'.shard = { shard with vectorCount := n })
    (hnodes : ∀ node ∈ shard.replicas, ∃ ctx₁, applyOn X payload isUpsert env node
      (nodeCtx set ns shard s.transport node) = (ctx₁, .ok ()) ∧ Follows X ns ctx₁ (write last op))
    (hagain : ∀ node (ctx : ShardContext ι), Follows X ns ctx (write last op) → ∃ ctx₁, applyOn X
      payload isUpsert env node ctx = (ctx₁, .ok ()) ∧ Follows X ns ctx₁ (write last op)) :
    ∃ t' result, s.transport.deliver X set ctx'.shard.ns ctx'.shard payload
      ctx'.ns.requiredAcks isUpsert env =
        (t', result) ∧ Converged X set shard ns ⟨ctx', t'⟩ (write last op) ∧
        Acknowledged shard t' result := by
  let result₀ : ReplicationResult :=
    ⟨if shard.nodeId ≠ "" then shard.nodeId else shard.id, [], [], [], ∅,
      ns.requiredAcks, true, false⟩
  obtain ⟨t', result, hfold, hroots, hfaults, hfol, -, hack⟩ :=
    deliverNodes_ok (X := X) hm hagain h.roots h.faults hnodes result₀
  have hfold' : shard.replicas.foldl
      (deliverNode X set shard.ns { shard with vectorCount := n } payload isUpsert env)
      (s.transport, result₀) = (t', result) := hfold
  simp only [InProcessReplicaTransport.deliver, hsh, hns]
  rw [hfold']
  refine ⟨_, _, rfl, ⟨hp, hns, ⟨n, hsh⟩, hroots, fun node => ?_, fun node hmem =>
    (hfol node hmem).2⟩, hack, fun node hmem => (hfol node hmem).1⟩
  show t'.faults.has node = false
  rw [hfaults]
  exact h.faults node

theorem write_write (last : String → Option Op) (op : Op) :
    write (write last op) op = write last op :=
  write_same (by rw [write_apply, if_pos rfl])

theorem Converged.upsert (hX : X.Lawful) (hm : set.metadata.get? shard.ns = some ns)
    (h : Converged X set shard ns s last) {rec : VectorRecord} {env : FlushEnv}
    {delivery : DeliveryEnv} (hc : ReplicatedOk X set s (.upsert rec env delivery))
    (hs : replicatedStep X set s (.upsert rec env delivery) = some (s', result)) :
    Converged X set shard ns s' (write last (.upsert rec)) ∧ ∃ r, result = some r ∧
      Acknowledged shard s'.transport r := by
  obtain ⟨n, hsh⟩ := h.shard_eq
  obtain ⟨hf, hd, hflush, happlies⟩ := hc
  rw [hsh, h.ns_eq] at happlies
  obtain ⟨ctx', hu, hp, -, -, hns, -, -, hsh'⟩ :=
    upsert_ok hX h.primary (some (X.modelDumpJson rec)) hd hflush
  rw [hsh] at hsh'
  rw [h.ns_eq] at hd hns
  obtain ⟨t', r, hdel, hcv, hack⟩ := h.deliver hm (some (X.modelDumpJson rec)) true delivery
    hp hns hsh'
    (fun node hmem => (h.replicas node hmem).upsert hX hf hd (.inr (happlies node hmem)))
    (fun node ctx hfol => by
      obtain ⟨ctx₁, ha, hfol₁⟩ :=
        hfol.upsert hX hf hd (.inl (by rw [write_apply, Op.id, if_pos rfl]))
      exact ⟨ctx₁, ha, by rwa [write_write] at hfol₁⟩)
  simp only [replicatedStep, hu, replicateUpsert, hdel] at hs
  cases hs
  exact ⟨hcv, r, rfl, hack⟩

theorem Converged.delete (hm : set.metadata.get? shard.ns = some ns)
    (h : Converged X set shard ns s last) {id : String} {delivery : DeliveryEnv}
    (hs : replicatedStep X set s (.delete id delivery) = some (s', result)) :
    Converged X set shard ns s' (write last (.delete id)) ∧ ∃ r, result = some r ∧
      Acknowledged shard s'.transport r := by
  obtain ⟨n, hsh⟩ := h.shard_eq
  obtain ⟨ctx', hu, hp, -, -, hns, hsh', -⟩ := delete_ok h.primary id
  rw [hsh] at hsh'
  rw [h.ns_eq] at hns
  obtain ⟨t', r, hdel, hcv, hack⟩ := h.deliver hm (deletePayload id) false delivery
    hp hns hsh'
    (fun node hmem => (h.replicas node hmem).delete id)
    (fun node ctx hfol => by
      obtain ⟨ctx₁, ha, hfol₁⟩ := hfol.delete id
      exact ⟨ctx₁, ha, by rwa [write_write] at hfol₁⟩)
  simp only [replicatedStep, hu, replicateDelete, hdel] at hs
  cases hs
  exact ⟨hcv, r, rfl, hack⟩

theorem Converged.flush (hX : X.Lawful) (h : Converged X set shard ns s last) {env : FlushEnv}
    (hc : ReplicatedOk X set s (.flush env))
    (hs : replicatedStep X set s (.flush env) = some (s', result)) :
    Converged X set shard ns s' last ∧ result = none := by
  obtain ⟨ctx', hf, hp, he⟩ := flushMemtable_ok hX h.primary hc
  simp only [replicatedStep, hf] at hs
  cases hs
  subst he
  exact ⟨⟨hp, h.ns_eq, h.shard_eq, h.roots, h.faults, h.replicas⟩, rfl⟩

theorem Converged.flushReplica (hX : X.Lawful) (h : Converged X set shard ns s last) {node : String}
    {env : FlushEnv} (hc : ReplicatedOk X set s (.flushReplica node env))
    (hs : replicatedStep X set s (.flushReplica node env) = some (s', result)) :
    Converged X set shard ns s' last ∧ result = none := by
  obtain ⟨n, hsh⟩ := h.shard_eq
  simp only [replicatedStep, flushEndpoint, hsh] at hs
  simp only [ReplicatedOk, nodeCtx, hsh] at hc
  cases he : s.transport.endpoints.get? (endpointKey shard.ns shard.id node) with
  | none => rw [he] at hs; cases hs; exact ⟨h, rfl⟩
  | some endpoint =>
    rw [he] at hs hc
    cases hfl : endpoint.ctx.flushMemtable X env with
    | mk ctx' r =>
      simp only [hfl] at hs
      cases r with
      | error e => cases hs
      | ok u =>
        cases hs
        refine ⟨⟨h.primary, h.ns_eq, h.shard_eq, h.roots, h.faults, fun a ha => ?_⟩, rfl⟩
        by_cases hna : a = node
        · have hfol := h.replicas a ha
          simp only [hna, nodeCtx, he] at hfol
          obtain ⟨ctx₁, hf, hflushed, heq⟩ := flushMemtable_ok hX hfol.shows hc
          rw [hf] at hfl
          cases hfl
          simp only [hna, nodeCtx, Dict.get?_set_self]
          exact ⟨hflushed, by rw [heq]; exact hfol.ns_eq⟩
        · rw [nodeCtx_congr (Dict.get?_set_ne _ _ fun hk => hna (endpointKey_inj.mp hk))]
          exact h.replicas a ha

/-- An operation under the condition; where it is one of the service's, every replica acknowledges
it. -/
theorem converged_step (hX : X.Lawful) (hm : set.metadata.get? shard.ns = some ns)
    {op : ReplicatedOp} (h : Converged X set shard ns s last) (hc : ReplicatedOk X set s op)
    (hs : replicatedStep X set s op = some (s', result)) :
    ∃ last', Converged X set shard ns s' last' ∧ ∀ r, result = some r →
      Acknowledged shard s'.transport r := by
  cases op with
  | upsert rec env delivery =>
    obtain ⟨h, r, rfl, hack⟩ := h.upsert hX hm hc hs
    exact ⟨_, h, fun r' hr' => by cases hr'; exact hack⟩
  | delete id delivery =>
    obtain ⟨h, r, rfl, hack⟩ := h.delete hm hs
    exact ⟨_, h, fun r' hr' => by cases hr'; exact hack⟩
  | flushWal =>
    cases hs
    exact ⟨last, ⟨h.primary.congr rfl rfl rfl rfl, h.ns_eq, h.shard_eq, h.roots,
      h.faults, h.replicas⟩, fun _ h => by cases h⟩
  | flush env =>
    obtain ⟨h, rfl⟩ := h.flush hX hc hs
    exact ⟨last, h, fun _ hr => by cases hr⟩
  | flushReplica node env =>
    obtain ⟨h, rfl⟩ := h.flushReplica hX hc hs
    exact ⟨last, h, fun _ hr => by cases hr⟩

theorem converged_fresh (set : Settings) (shard : Shard) (ns : Namespace) (threshold : Nat) :
    Converged X set shard ns (⟨.fresh shard ns threshold, .init ∅⟩ : Replicated ι)
      fun _ => none where
  primary := shows_fresh shard ns threshold
  ns_eq := rfl
  shard_eq := ⟨shard.vectorCount, rfl⟩
  roots := rfl
  faults _ := rfl
  replicas _ _ := ⟨shows_fresh _ ns _, rfl⟩

/-- The state after an operation. -/
def replicatedNext (X : Externals) (set : Settings) (s : Replicated ι) (op : ReplicatedOp) :
    Option (Replicated ι) :=
  (replicatedStep X set s op).map Prod.fst

/-- After any run under the condition from a new shard without replica faults, a replica that
acknowledged the last operation shows for every id what the primary shows. -/
theorem replicas_converge (hX : X.Lawful) (shard : Shard) (ns : Namespace) (set : Settings)
    (hm : set.metadata.get? shard.ns = some ns) (ops : List ReplicatedOp) (op : ReplicatedOp)
    (ctx₀ : ShardContext ι) (s s' : Replicated ι) (result : ReplicationResult)
    (h₀ : ShardContext.init X shard ns set.memtableThreshold ∅ = .ok ctx₀)
    (hr : run (replicatedNext X set) ⟨ctx₀, .init ∅⟩ ops = some s)
    (hs : replicatedStep X set s op = some (s', some result))
    (hc : Along (replicatedNext X set) (ReplicatedOk X set) ⟨ctx₀, .init ∅⟩ (ops ++ [op])) :
    ∀ node ∈ result.acknowledgedReplicas, ∃ endpoint : ReplicaEndpoint ι,
      s'.transport.endpoints.get? (endpointKey shard.ns shard.id node) = some endpoint ∧
        ∀ id, endpoint.visible X id = s'.ctx.visible X id := by
  cases h₀
  obtain ⟨hc, hlast⟩ := hc.append
  obtain ⟨last, h⟩ := invariant (I := fun s => ∃ last, Converged X set shard ns s last)
    (fun s op t ⟨last, h⟩ hc ht => by
      obtain ⟨⟨t', result⟩, hs, rfl⟩ := Option.map_eq_some_iff.mp ht
      obtain ⟨last', h', -⟩ := converged_step hX hm h hc hs
      exact ⟨last', h'⟩) ⟨_, converged_fresh set shard ns set.memtableThreshold⟩ hc hr
  obtain ⟨last', h', hack⟩ := converged_step hX hm h (hlast s hr).1 hs
  obtain ⟨hacks, hsome⟩ := hack result rfl
  intro node hmem
  rw [hacks] at hmem
  obtain ⟨endpoint, he⟩ := Option.isSome_iff_exists.mp (hsome node hmem)
  have hfol := h'.replicas node hmem
  simp only [nodeCtx, he] at hfol
  exact ⟨endpoint, he, fun id =>
    by rw [endpoint.visible_eq, hfol.shows.visible_eq, h'.primary.visible_eq]⟩

section

private def someShard : Shard := ⟨"shard-0", "docs", "node-1", .active, 0, 50000000, ["node-2"], 1⟩
private def someNamespace : Namespace := ⟨"docs", 1, .cosine, .flat, 1⟩
private def someSettings : Settings := ⟨Dict.set ∅ "docs" someNamespace, 10000⟩
private def someDelivery : DeliveryEnv := ⟨0, fun _ => ⟨1, 1, none⟩⟩

private def somePut (id : UUID) (metadata : List (String × Json)) : ReplicatedOp :=
  .upsert (unitRecord id metadata) ⟨1, 1, none⟩ someDelivery

private def start : Replicated FlatIndex := ⟨.fresh someShard someNamespace 10000, .init ∅⟩

/-- `ReplicatedOk` where no memtable is flushed and every record is of a new id. -/
private def ReplicatedOkNew (s : Replicated FlatIndex) : ReplicatedOp → Prop
  | .upsert record _ _ => record.Finite ∧ record.dimension = s.ctx.ns.dimension ∧
    ¬ (s.ctx.segments.memtable.put record).shouldFlush ∧
    ∀ node ∈ s.ctx.shard.replicas,
      let ctx := nodeCtx someSettings s.ctx.ns s.ctx.shard s.transport node
      (ctx.segments.get fieldwise record.id.text).toOption.join.isNone ∧
        ¬ (ctx.segments.memtable.put record).shouldFlush
  | .delete _ _ => True
  | .flushWal => True
  | .flush _ => False
  | .flushReplica _ _ => False

private instance (s : Replicated FlatIndex) (op : ReplicatedOp) :
    Decidable (ReplicatedOkNew s op) := by
  cases op <;> rw [ReplicatedOkNew] <;> infer_instance

private theorem replicatedOk_of_new (s : Replicated FlatIndex) (op : ReplicatedOp)
    (h : ReplicatedOkNew s op) :
    ReplicatedOk fieldwise someSettings s op := by
  cases op with
  | upsert record env delivery =>
    obtain ⟨hf, hd, hflush, hnodes⟩ := h
    refine ⟨hf, hd, fun h => absurd h hflush, fun node hmem =>
      ⟨fun c hc => ?_, fun h => absurd h (hnodes node hmem).2⟩⟩
    have := (hnodes node hmem).1
    rw [hc] at this
    cases this
  | delete id delivery => trivial
  | flushWal => trivial
  | flush env => exact absurd h id
  | flushReplica node env => exact absurd h id

/-- A record, its deletion and a record of another id. -/
theorem replicas_converge_new_ids :
    ∃ (s : Replicated FlatIndex) (s' : Replicated FlatIndex) (result : ReplicationResult),
    run (replicatedNext fieldwise someSettings) start [somePut zeroId [],
      .delete zeroId.text someDelivery, .flushWal] =
        some s ∧
      replicatedStep fieldwise someSettings s (somePut oneId []) = some (s', some result) ∧
      result.acknowledgedReplicas = ["node-2"] ∧
      ∃ endpoint, s'.transport.endpoints.get? (endpointKey "docs" "shard-0" "node-2") =
        some endpoint ∧
        ∀ id, endpoint.visible fieldwise id = s'.ctx.visible fieldwise id := by
  have h := @replicas_converge _ FlatIndex _ _ fieldwise_lawful someShard
    someNamespace someSettings rfl
    [somePut zeroId [], .delete zeroId.text someDelivery, .flushWal] (somePut oneId [])
      _ _ _ _ rfl rfl rfl
    (.mono replicatedOk_of_new (by decide +kernel)) "node-2" (by decide +kernel)
  exact ⟨_, _, _, rfl, rfl, by decide +kernel, h⟩

/-- The replica acknowledges an update of metadata, and keeps the old ones: version and checksum
are those of the record it has. -/
theorem metadata_update_not_replicated :
    ∃ (s s' : Replicated FlatIndex) (result : ReplicationResult)
      (endpoint : ReplicaEndpoint FlatIndex),
    run (replicatedNext fieldwise someSettings) start [somePut zeroId []] = some s ∧
      replicatedStep fieldwise someSettings s (somePut zeroId [("k", .null)]) =
        some (s', some result) ∧
      result.acknowledgedReplicas = ["node-2"] ∧ result.success = true ∧
      s'.transport.endpoints.get? (endpointKey "docs" "shard-0" "node-2") = some endpoint ∧
      s'.ctx.visible fieldwise zeroId.text = .ok (some (unitRecord zeroId [("k", .null)])) ∧
      endpoint.visible fieldwise zeroId.text = .ok (some (unitRecord zeroId [])) ∧
      endpoint.visible fieldwise zeroId.text ≠ s'.ctx.visible fieldwise zeroId.text := by
  have h : ∃ (s s' : Replicated FlatIndex) (result : ReplicationResult)
      (endpoint : ReplicaEndpoint FlatIndex),
      run (replicatedNext fieldwise someSettings) start [somePut zeroId []] = some s ∧
        replicatedStep fieldwise someSettings s (somePut zeroId [("k", .null)]) =
          some (s', some result) ∧
        result.acknowledgedReplicas = ["node-2"] ∧ result.success = true ∧
        s'.transport.endpoints.get? (endpointKey "docs" "shard-0" "node-2") = some endpoint ∧
        s'.ctx.visible fieldwise zeroId.text = .ok (some (unitRecord zeroId [("k", .null)])) ∧
        endpoint.visible fieldwise zeroId.text = .ok (some (unitRecord zeroId [])) :=
    ⟨_, _, _, _, rfl, rfl, by decide +kernel, by decide +kernel, rfl, rfl, rfl⟩
  obtain ⟨s, s', result, endpoint, hr, hs, hack, hsucc, he, hp, hv⟩ := h
  refine ⟨s, s', result, endpoint, hr, hs, hack, hsucc, he, hp, hv, fun h => ?_⟩
  rw [hp, hv, Except.ok.injEq, Option.some.injEq] at h
  exact absurd (congrArg (fun r => r.metadata.length) h) (by decide)

end

end Vsector.Sharding
