import Vsector.Proof.Api.Namespaces
import Vsector.Proof.Models.Documents

/-!
# The guard against stale migrations

`_assert_source_valid` compares the version of the shard with the one the
migration was created at. Every change of a shard that the store holds raises
its version (`Moved`), so a commit that passes the guard finds a record that
never changed (`commit_unchanged`), unless the shard was registered anew in
between: `create` starts again at version 1, and a namespace that is deleted
and created again has shards of the same ids at the same version
(`recreated_passes_guard`).
-/

namespace Vsector.Sharding

open Framework Models Api

/-- The store, the storage and the metadata of one process. -/
structure Control (δ : Type) where
  world : World δ
  metadata : MetadataStore

inductive ControlOp (δ : Type) where
  | migrate (step : MigrationStep) (T : Transfer δ)
  | lifecycle (op : LifecycleOp)
  | createNamespace (ns : Namespace) (shardCount : Nat)
  | deleteNamespace (name : String)

section

variable {δ : Type} (mgr : ShardMigrationManager) (lm : ShardLifecycleManager) (nodeId : String)

def Control.setStore (s : Control δ) (e : InMemoryEtcd) : Control δ :=
  { s with world := { s.world with store := e } }

/-- One operation, whether or not it raises. `uuid4` never gives an id twice. -/
def controlStep (s : Control δ) : ControlOp δ → Option (Control δ)
  | .migrate step T =>
    if ShardMigrationManager.isFresh s.world.store step then
      some { s with world := (mgr.perform T step s.world).final }
    else none
  | .lifecycle op => some (s.setStore (lm.perform s.world.store op))
  | .createNamespace ns shardCount =>
    match Api.createNamespace lm nodeId s.metadata s.world.store ns shardCount with
    | (metadata, e, _) => some { s.setStore e with metadata := metadata }
  | .deleteNamespace name =>
    match Api.deleteNamespace s.metadata s.world.store name with
    | (metadata, e, _) => some { s.setStore e with metadata := metadata }

end

/-- The operation calls `ShardLifecycleManager.create` for the shard. -/
def Registers {δ : Type} (shardId : String) (s : Control δ) : ControlOp δ → Prop
  | .lifecycle (.create arg _ _) => (arg.shard s.world.store).any (·.id = shardId)
  | .createNamespace ns shardCount =>
    s.metadata.get? ns.name = none ∧ s.world.store.listByNamespace ns.name = [] ∧
      ∃ i ∈ List.range shardCount, shardName ns.name i = shardId
  | _ => False

/-- The operation is given a `Shard` of that id that is not the store's own. -/
def Detached {δ : Type} (shardId : String) : ControlOp δ → Prop
  | .lifecycle op =>
    match op.arg with
    | .stored _ => False
    | .other shard => shard.id = shardId
  | _ => False

/-- The shard is not registered anew, and lifecycle calls for it are given the store's own
object. -/
def StaysRegistered {δ : Type} (shardId : String) (s : Control δ) (op : ControlOp δ) : Prop :=
  ¬ Registers shardId s op ∧ ¬ Detached shardId op

/-- A record after a change: the same, gone, or of a higher version. -/
def Advances (o o' : Option Shard) : Prop :=
  o' = o ∨ o' = none ∨ ∃ s s', o = some s ∧ o' = some s' ∧ s.version < s'.version

/-- A shard that was at `version` has changed since: it is gone, or its version is higher. -/
def Moved (version : Nat) (o : Option Shard) : Prop := ∀ s, o = some s → version < s.version

theorem Advances.moved {o o' : Option Shard} (h : Advances o o') {version : Nat}
    (hm : Moved version o) :
    Moved version o' := by
  intro t ht
  obtain rfl | rfl | ⟨s, s', hs, hs', hlt⟩ := h
  · exact hm t ht
  · cases ht
  · rw [hs'] at ht
    cases ht
    exact (hm s hs).trans hlt

/-- A record that advances is the same, or has moved for good. -/
theorem Advances.cases {shard : Shard} {o' : Option Shard} (h : Advances (some shard) o') :
    o' = some shard ∨ Moved shard.version o' := by
  obtain rfl | rfl | ⟨s, s', hs, rfl, hlt⟩ := h
  · exact .inl rfl
  · exact .inr fun _ h => by cases h
  · cases hs
    exact .inr fun t ht => by cases ht; exact hlt

/-! ## Lifecycle calls -/

namespace ShardLifecycleManager

variable {lm : ShardLifecycleManager} {e : InMemoryEtcd} {arg : ShardArg} {shardId : String}

/-- The arguments that are not the shard's own object have other ids. -/
def NotDetached (shardId : String) (arg : ShardArg) : Prop :=
  ∀ shard, arg = .other shard → shard.id ≠ shardId

theorem advances_put {s s' : Shard} (ha : NotDetached shardId arg) (h : arg.shard e = some s)
    (hid : s'.id = s.id) (hv : s.version < s'.version) :
    Advances (e.get shardId) ((e.put s').get shardId) := by
  rw [InMemoryEtcd.get_put]
  split
  · rename_i hs
    cases arg with
    | stored id =>
      have hget : e.get id = some s := h
      have hsid : s.id = id := InMemoryEtcd.shard_id hget
      refine .inr (.inr ⟨s, s', ?_, rfl, hv⟩)
      rw [hs, hid, hsid]
      exact hget
    | other shard =>
      cases h
      exact absurd (hs.trans hid).symm (ha s rfl)
  · exact .inl rfl

theorem advances_transition (ha : NotDetached shardId arg) (dest : ShardState) :
    Advances (e.get shardId) ((transition e arg dest).1.get shardId) := by
  obtain ⟨s, hs, -, h⟩ | ⟨-, h⟩ := transition_cases e arg dest
  · rw [h]
    exact advances_put ha hs rfl (Nat.lt_succ_self _)
  · rw [h]
    exact .inl rfl

theorem advances_changeOwner (ha : NotDetached shardId arg) (newOwner : String)
    (replicas : Option (List String)) :
    Advances (e.get shardId) ((lm.changeOwner e arg newOwner replicas).1.get shardId) := by
  obtain ⟨s, hs, -, h⟩ | ⟨-, h⟩ := changeOwner_cases lm e arg newOwner replicas
  · rw [h]
    exact advances_put ha hs rfl (Nat.lt_succ_self _)
  · rw [h]
    exact .inl rfl

theorem advances_perform (op : LifecycleOp) (hd : NotDetached shardId op.arg)
    (hr : ∀ arg owner replicas, op = .create arg owner replicas → ∀ s, arg.shard e = some s →
      s.id ≠ shardId) :
    Advances (e.get shardId) ((lm.perform e op).get shardId) := by
  cases op with
  | create arg owner replicas =>
    exact .inl (get_create lm e owner replicas (hr arg owner replicas rfl))
  | transition arg dest => exact advances_transition hd dest
  | activate arg => exact advances_transition hd .active
  | beginDrain arg => exact advances_transition hd .draining
  | retire arg => exact advances_transition hd .offline
  | changeOwner arg newOwner replicas => exact advances_changeOwner hd newOwner replicas

variable (lm e) in
theorem getMigration_perform (op : LifecycleOp) (id : String) :
    (lm.perform e op).getMigration id = e.getMigration id :=
  congrArg (Dict.get? · id) (perform_frame lm e op).2

end ShardLifecycleManager

/-! ## Namespaces -/

section

variable {lm : ShardLifecycleManager} {nodeId : String} {e : InMemoryEtcd}

theorem get_deleteShards (ns shardId : String) :
    (deleteShards e ns).get shardId = e.get shardId ∨ (deleteShards e ns).get shardId = none := by
  unfold deleteShards
  generalize e.listByNamespace ns = l
  induction l generalizing e with
  | nil => exact .inl rfl
  | cons s l ih =>
    have hd : (e.delete s.id).get shardId = if shardId = s.id then none else e.get shardId :=
      Dict.get?_pop _ _ _
    obtain h | h := ih (e := e.delete s.id)
    · rw [List.foldl_cons, h, hd]
      split
      · exact .inr rfl
      · exact .inl rfl
    · exact .inr h

theorem getMigration_deleteShards (ns id : String) :
    (deleteShards e ns).getMigration id = e.getMigration id := by
  unfold deleteShards
  generalize e.listByNamespace ns = l
  induction l generalizing e with
  | nil => rfl
  | cons s l ih => exact ih

theorem get_createNamespace {metadata metadata' : MetadataStore} {e' : InMemoryEtcd}
    {ns : Namespace} {shardCount : Nat} {r : Except Exc Unit} {shardId : String}
    (h : Api.createNamespace lm nodeId metadata e ns shardCount = (metadata', e', r))
    (hids : metadata.get? ns.name = none → e.listByNamespace ns.name = [] →
      ∀ i ∈ List.range shardCount, shardName ns.name i ≠ shardId) :
    e'.get shardId = e.get shardId := by
  unfold Api.createNamespace at h
  split at h
  · cases h
    rfl
  · rename_i hnone
    have hget := get_ensureNamespaceShards lm nodeId (hids hnone)
    rwa [(Prod.mk.inj h).2] at hget

theorem getMigration_createNamespace {metadata metadata' : MetadataStore} {e' : InMemoryEtcd}
    {ns : Namespace} {shardCount : Nat} {r : Except Exc Unit}
    (h : Api.createNamespace lm nodeId metadata e ns shardCount = (metadata', e', r))
    (id : String) :
    e'.getMigration id = e.getMigration id := by
  unfold Api.createNamespace at h
  split at h
  · cases h
    rfl
  · have hframe := (ensureNamespaceShards_frame lm nodeId e ns.name shardCount).2
    rw [(Prod.mk.inj h).2] at hframe
    exact congrArg (Dict.get? · id) hframe

theorem deleteNamespace_store {metadata metadata' : MetadataStore} {e' : InMemoryEtcd}
    {name : String} {r : Except Exc Unit}
    (h : Api.deleteNamespace metadata e name = (metadata', e', r)) :
    e' = e ∨ e' = deleteShards e name := by
  unfold Api.deleteNamespace at h
  split at h
  · cases h
    exact .inl rfl
  · cases h
    exact .inr rfl

end

/-! ## The guard -/

section

open ShardMigrationManager

variable {δ : Type} {mgr : ShardMigrationManager} {lm : ShardLifecycleManager} {nodeId : String}

/-- The migration is there, and the shard's record has advanced. -/
structure Later (id shardId : String) (m : ShardMigration) (s t : Control δ) : Prop where
  migration : ∃ m', t.world.store.getMigration id = some m' ∧ SameMigration m m'
  shard : Advances (s.world.store.get shardId) (t.world.store.get shardId)

/-- One step of the process, for a migration that is there and a shard that is not registered
anew. -/
theorem later_step {s t : Control δ} {op : ControlOp δ} {id shardId : String} {m : ShardMigration}
    (hm : s.world.store.getMigration id = some m) (hc : StaysRegistered shardId s op)
    (h : controlStep mgr lm nodeId s op = some t) : Later id shardId m s t := by
  obtain ⟨hreg, hdet⟩ := hc
  cases op with
  | migrate step T =>
    obtain ⟨hf, rfl⟩ : ShardMigrationManager.isFresh s.world.store step ∧
        { s with world := (mgr.perform T step s.world).final } = t := by simpa [controlStep] using h
    have hk := (sat_perform_keeps mgr T step hf).2
    refine ⟨hk.migrations id m hm, ?_⟩
    obtain hsame | hlt := hk.shards shardId
    · exact .inl hsame
    · exact .inr (.inr hlt)
  | lifecycle op =>
    cases h
    refine ⟨⟨m, (ShardLifecycleManager.getMigration_perform lm _ op id).trans hm, .refl m⟩, ?_⟩
    refine ShardLifecycleManager.advances_perform op (fun shard ha => ?_)
      fun arg owner replicas ho a ha => ?_
    · intro hid
      refine hdet ?_
      rw [Detached, ha]
      exact hid
    · intro hid
      subst ho
      refine hreg ?_
      rw [Registers, ha]
      simpa using hid
  | createNamespace ns shardCount =>
    rcases hcreate : Api.createNamespace lm nodeId s.metadata s.world.store ns
      shardCount with ⟨metadata, e, r⟩
    have hget := get_createNamespace hcreate fun hn hl i hi hid => hreg ⟨hn, hl, i, hi, hid⟩
    have hmig := getMigration_createNamespace hcreate id
    simp only [controlStep, hcreate, Option.some.injEq] at h
    subst h
    exact ⟨⟨m, hmig.trans hm, .refl m⟩, .inl hget⟩
  | deleteNamespace name =>
    rcases hdelete : Api.deleteNamespace s.metadata s.world.store name with ⟨metadata, e, r⟩
    have hspec := deleteNamespace_store hdelete
    simp only [controlStep, hdelete, Option.some.injEq] at h
    subst h
    obtain rfl | rfl := hspec
    · exact ⟨⟨m, hm, .refl m⟩, .inl rfl⟩
    · refine ⟨⟨m, (getMigration_deleteShards name id).trans hm, .refl m⟩, ?_⟩
      obtain hsame | hnone := get_deleteShards (e := s.world.store) name shardId
      · exact .inl hsame
      · exact .inr (.inl hnone)

/-- A run of steps, for a migration that is there and a shard that is not registered anew. -/
theorem later_run {s t : Control δ} {ops : List (ControlOp δ)} {id shardId : String}
    {m : ShardMigration} (hm : s.world.store.getMigration id = some m)
    (hc : Along (controlStep mgr lm nodeId) (StaysRegistered shardId) s ops)
    (hr : run (controlStep mgr lm nodeId) s ops = some t) {version : Nat}
    (hv : Moved version (s.world.store.get shardId)) :
    (∃ m', t.world.store.getMigration id = some m' ∧ SameMigration m m') ∧
    Moved version (t.world.store.get shardId) := by
  refine invariant (I := fun u : Control δ =>
    (∃ m', u.world.store.getMigration id = some m' ∧ SameMigration m m') ∧
    Moved version (u.world.store.get shardId)) (fun u op u' hu hop hstep => ?_)
      ⟨⟨m, hm, .refl m⟩, hv⟩ hc hr
  obtain ⟨⟨m', hm', hs⟩, hv⟩ := hu
  have hl := later_step hm' hop hstep
  obtain ⟨m'', hm'', hs'⟩ := hl.migration
  exact ⟨⟨m'', hm'', hs.trans hs'⟩, hl.shard.moved hv⟩

/-- A commit that succeeds has passed the guard. -/
theorem begun_of_commit {T : Transfer δ} {w : World δ} {id : String} {r : ShardMigration}
    (h : (mgr.commit T id w).result = .ok r) : ∃ m shard, Begun w id .verifying m shard := by
  have hsat : Proc.Sat (mgr.commit T id) w (fun _ => True)
      fun _ r => ∀ a, r = .ok a → ∃ m shard, Begun w id .verifying m shard := by
    refine sat_bind_begin (fun e a ha => by cases ha)
      (fun m error e _ _ => ⟨trivial, fun a ha => by cases ha⟩) ?_
    exact fun m shard hb => (sat_any fun _ => trivial).mono (fun _ _ => trivial) fun t r _ a _ =>
      ⟨m, shard, hb⟩
  exact hsat.2 r h

theorem created_of_ok {T : Transfer δ} {w : World δ} {uuid4 ns shardId target : String}
    {m : ShardMigration}
    (h : (mgr.perform T (.createMigration uuid4 ns shardId target) w).result = .ok m) :
    (mgr.perform T (.createMigration uuid4 ns shardId target) w).final = putMigration w m ∧
    m.migrationId = uuid4 ∧
      m.shardId = shardId ∧ ∃ shard, w.store.get shardId = some shard ∧
        m.sourceVersion = shard.version := by
  have hsat : Proc.Sat (mgr.createMigration uuid4 ns shardId target) w (fun _ => True)
      fun t r => ∀ m, r = .ok m → t = putMigration w m ∧ m.migrationId = uuid4 ∧
        m.shardId = shardId ∧
        ∃ shard, w.store.get shardId = some shard ∧ m.sourceVersion = shard.version := by
    refine Proc.sat_bind_get (Proc.sat_bind_ofExcept (fun m hm => ?_) fun e _ a ha => by cases ha)
    obtain ⟨shard, hshard, -, -, -, -, rfl⟩ := newMigration_eq_ok hm
    refine sat_bind_inStore trivial (Proc.sat_pure.mpr fun a ha => ?_)
    cases ha
    exact ⟨rfl, rfl, rfl, shard, hshard, rfl⟩
  exact hsat.2 m h

/-- Where the shard stays registered from the creation of a migration to its commit, a commit that
succeeds finds the record of the shard as it was at the creation, and it was never another in
between. -/
theorem commit_unchanged (s s₁ s₂ : Control δ) (T T' : Transfer δ)
    (uuid4 ns shardId target : String) (m r : ShardMigration) (ops : List (ControlOp δ))
    (hcreate : controlStep mgr lm nodeId s
      (.migrate (.createMigration uuid4 ns shardId target) T) = some s₁)
    (hcreated : (mgr.perform T (.createMigration uuid4 ns shardId target) s.world).result = .ok m)
    (hrun : run (controlStep mgr lm nodeId) s₁ ops = some s₂)
    (hc : Along (controlStep mgr lm nodeId) (StaysRegistered shardId) s₁ ops)
    (hcommit : (mgr.commit T' uuid4 s₂.world).result = .ok r) :
    ∃ shard, s.world.store.get shardId = some shard ∧
      ∀ before after t, ops = before ++ after → run (controlStep mgr lm nodeId) s₁ before = some t →
        t.world.store.get shardId = some shard := by
  obtain ⟨hfinal, hid, hshardId, shard, hshard, hversion⟩ := created_of_ok hcreated
  obtain ⟨-, rfl⟩ : isFresh s.world.store (.createMigration uuid4 ns shardId target) ∧
      { s with world := (mgr.perform T (.createMigration uuid4 ns shardId target) s.world).final } =
        s₁ := by
    simpa [controlStep] using hcreate
  have hm : (mgr.perform T (.createMigration uuid4 ns shardId target)
      s.world).final.store.getMigration uuid4 = some m := by
    rw [hfinal, ← hid]
    exact getMigration_self
  have hget : (mgr.perform T (.createMigration uuid4 ns shardId target) s.world).final.store.get
      shardId = some shard := by
    rw [hfinal]
    exact hshard
  refine ⟨shard, hshard, fun before after t hops hbefore => ?_⟩
  rw [hops] at hrun hc
  obtain ⟨hcbefore, hcafter⟩ := hc.append
  have hinv : (∃ m', t.world.store.getMigration uuid4 = some m' ∧ SameMigration m m') ∧
      (t.world.store.get shardId = some shard ∨
        Moved shard.version (t.world.store.get shardId)) := by
    refine invariant (I := fun u : Control δ =>
      (∃ m', u.world.store.getMigration uuid4 = some m' ∧ SameMigration m m') ∧
      (u.world.store.get shardId = some shard ∨ Moved shard.version (u.world.store.get shardId)))
      (fun u op u' hu hop hstep => ?_) ⟨⟨m, hm, .refl m⟩, .inl hget⟩ hcbefore hbefore
    obtain ⟨⟨m', hm', hs⟩, hv⟩ := hu
    have hl := later_step hm' hop hstep
    obtain ⟨m'', hm'', hs'⟩ := hl.migration
    refine ⟨⟨m'', hm'', hs.trans hs'⟩, ?_⟩
    obtain hv | hv := hv
    · exact Advances.cases (hv ▸ hl.shard)
    · exact .inr (hl.shard.moved hv)
  obtain ⟨⟨m', hm', hs⟩, hsame | hmoved⟩ := hinv
  · exact hsame
  · -- A record that has moved does not pass the guard any more.
    exfalso
    rw [run_append, hbefore, Option.bind_some] at hrun
    obtain ⟨⟨m'', hm'', hs'⟩, hmoved⟩ := later_run hm' (hcafter t hbefore) hrun hmoved
    obtain ⟨m₂, shard₂, hb⟩ := begun_of_commit hcommit
    have hm₂ : m'' = m₂ := Option.some.inj (hm''.symm.trans hb.migration)
    subst hm₂
    have hsid : m''.shardId = shardId := (hs'.shard.trans hs.shard).trans hshardId
    have hlt := hmoved shard₂ (hsid ▸ hb.get)
    have hver : shard₂.version = shard.version := by
      rw [hb.version, hs'.version, hs.version, hversion]
    omega

end

section

private def threeNodes : InMemoryEtcd :=
  let node (id : String) : Cluster.ClusterNode := ⟨id, "vsector", .active, 1⟩
  let nodes := ((Dict.set ∅ "node-0" (node "node-0")).set "node-1" (node "node-1")).set
    "node-2" (node "node-2")
  ⟨{ (∅ : EtcdData) with nodes := nodes }, none⟩

private def manager : ShardMigrationManager := ⟨⟨"vsector"⟩, "vsector"⟩

private def docs : Namespace := ⟨"docs", 1, .cosine, .flat, 1⟩

private def provider : Transfer Disks := shardTransferProvider fieldwise fun n => ⟨n, 1, none⟩

private abbrev step : Control Disks → ControlOp Disks → Option (Control Disks) :=
  controlStep manager ⟨true⟩ "node-0"

/-- A process with the namespace `docs` of one shard, owned by `node-0`. -/
private def started : Option (Control Disks) :=
  step ⟨⟨threeNodes, fun _ _ => ∅⟩, ∅⟩ (.createNamespace docs 1)

private def toNode1 : ControlOp Disks :=
  .migrate (.createMigration "m" "docs" "docs#shard-000" "node-1") provider

private def copied : List (ControlOp Disks) :=
  [.migrate (.prepare "m") provider, .migrate (.startCopy "m") provider,
    .migrate (.verify "m") provider]

private theorem ok_of_isOk {α : Type} {r : Except Exc α} (h : (match r with
    | .ok _ => true
    | .error _ => false) = true) : ∃ a, r = .ok a := by
  cases r with
  | ok a => exact ⟨a, rfl⟩
  | error e => cases h

private instance (shardId : String) (s : Control Disks) (op : ControlOp Disks) :
    Decidable (Registers shardId s op) := by
  unfold Registers
  split <;> infer_instance

private instance (shardId : String) (op : ControlOp Disks) : Decidable (Detached shardId op) := by
  unfold Detached
  split
  · split <;> infer_instance
  · infer_instance

private instance (shardId : String) (s : Control Disks) (op : ControlOp Disks) :
    Decidable (StaysRegistered shardId s op) := inferInstanceAs (Decidable (_ ∧ _))

private def atStart : Control Disks := started.get (by decide +kernel)

private def created : Control Disks := (step atStart toNode1).get (by decide +kernel)

/-- Another namespace is created before the copy. -/
private def besides : List (ControlOp Disks) :=
  .createNamespace ⟨"logs", 1, .cosine, .flat, 1⟩ 1 :: copied

private def verified : Control Disks := (run step created besides).get (by decide +kernel)

theorem commit_unchanged_besides : ∃ shard, atStart.world.store.get "docs#shard-000" = some shard ∧
    ∀ before after t, besides = before ++ after → run step created before = some t →
      t.world.store.get "docs#shard-000" = some shard := by
  obtain ⟨m, hm⟩ :
      ∃ m, (manager.perform provider (.createMigration "m" "docs" "docs#shard-000" "node-1")
    atStart.world).result = .ok m := ok_of_isOk (by decide +kernel)
  obtain ⟨r, hr⟩ : ∃ r, (manager.commit provider "m" verified.world).result = .ok r :=
    ok_of_isOk (by decide +kernel)
  exact commit_unchanged atStart created verified provider provider "m" "docs" "docs#shard-000"
    "node-1" m r besides
    (Option.some_get _).symm hm (Option.some_get _).symm (by decide +kernel) hr

/-- The namespace is deleted and created again. -/
private def recreated : List (ControlOp Disks) := [.deleteNamespace "docs", .createNamespace docs 1]

private def afterwards : Control Disks :=
  (run step created (recreated ++ copied)).get (by decide +kernel)

private def deleted : Control Disks :=
  (run step created [.deleteNamespace "docs"]).get (by decide +kernel)

/-- A shard that was deleted and registered again passes the guard. -/
theorem recreated_passes_guard : step atStart toNode1 = some created ∧
    run step created (recreated ++ copied) = some afterwards ∧
    (∃ r, (manager.commit provider "m" afterwards.world).result = .ok r) ∧
    run step created [.deleteNamespace "docs"] = some deleted ∧
    (atStart.world.store.get "docs#shard-000").isSome ∧
    deleted.world.store.get "docs#shard-000" = none :=
  ⟨(Option.some_get _).symm, (Option.some_get _).symm, ok_of_isOk (by decide +kernel),
    (Option.some_get _).symm, by decide +kernel, by decide +kernel⟩

end

end Vsector.Sharding
