import Vsector.Impl.Cluster.Membership
import Vsector.Impl.Sharding.Transfer

/-!
# Shard migration

`ShardMigrationManager` of `sharding/migration.py`, over an `InMemoryEtcd`
and whatever moves the data. The records of the store are live objects: a
change that is not yet persisted is a change of the store's live data.
The log texts are left out.
-/

namespace Vsector.Sharding

open Framework Cluster

/-- The store, and the state of the storage that data is moved between. -/
structure World (δ : Type) where
  store : InMemoryEtcd
  disks : δ

/-- `MIGRATABLE_STATES`. -/
def ShardState.isMigratable : ShardState → Bool
  | active | draining => true
  | _ => false

/-- `isinstance(e, MigrationError)`. -/
def isMigrationError : Exc → Bool
  | .migrationNotFound _ | .invalidMigration _ | .migrationConflict .. | .migrationState
      .. | .migrationSource ..
  | .migrationTarget .. | .migrationVerification .. | .migrationCommit .. => true
  | _ => false

structure ShardMigrationManager where
  membership : ClusterMembershipManager
  clusterId : String

/-- A call of the manager. The id of a new migration is the one `uuid4` gives. -/
inductive MigrationStep where
  | createMigration (uuid4 ns shardId targetNodeId : String)
  | prepare (id : String)
  | startCopy (id : String)
  | verify (id : String)
  | commit (id : String)
  | cancel (id : String)
  | fail (id error : String)

namespace ShardMigrationManager

variable {δ : Type} (mgr : ShardMigrationManager) (T : Transfer δ)

/-! ## Helpers -/

def inStore (f : InMemoryEtcd → InMemoryEtcd) : Proc (World δ) Exc Unit :=
  Proc.change fun w => { w with store := f w.store }

def inDisks {α : Type} (p : Proc δ Exc α) : Proc (World δ) Exc α :=
  Proc.within World.disks (fun w d => { w with disks := d }) p

/-- `_require`. -/
def require (id : String) : Proc (World δ) Exc ShardMigration := fun w =>
  match w.store.getMigration id with
  | none => ⟨[], w, .error (.migrationNotFound id)⟩
  | some m => ⟨[], w, .ok m⟩

inductive Kind where
  | source
  | target

/-- `_kind_error`. -/
def kindError (kind : Kind) (node reason : String) : Exc :=
  match kind with
  | .source => .migrationSource node reason
  | .target => .migrationTarget node reason

/-- `_validate_member`. -/
def validateMember (store : InMemoryEtcd) (node : String) (kind : Kind) : Except Exc Unit :=
  match ClusterMembershipManager.validateNode store node with
  | .error (.unknownNode _) => .error (kindError kind node "is not a known cluster member")
  | .error (.removedNode _) => .error (kindError kind node "has been REMOVED from the cluster")
  | .error e => .error e
  | .ok () =>
    match mgr.membership.validateClusterId store node with
    | .error (.clusterIdMismatch ..) =>
      .error (kindError kind node "belongs to a different cluster")
    | r => r

/-- `_require_state`. -/
def requireState (m : ShardMigration) (expected : MigrationState) : Except Exc Unit :=
  if m.state = expected then .ok ()
  else .error (.migrationState m.migrationId
    s!"expected state={expected.value}, actual={m.state.value}")

/-- `_fail`. -/
def failMigration (m : ShardMigration) (error : String) : Proc (World δ) Exc ShardMigration := do
  let m := match m.transition .failed with
    | .ok m => m
    | .error _ => m
  let m := { m with error := some error }
  inStore (·.putMigration m)
  pure m

/-- What `_assert_source_valid` finds: the shard, or the error of the migration and the reason
given. -/
def checkSource (m : ShardMigration) (shard : Option Shard) : Except (String × String) Shard :=
  match shard with
  | none =>
    .error (s!"source validation failed: shard {m.shardId} no longer exists",
      s!"shard {m.shardId} no longer exists")
  | some shard =>
    if ¬ shard.state.isMigratable then
      .error
        (s!"source validation failed: shard {m.shardId} is not migratable (state={shard.state.value})",
        s!"shard {m.shardId} is not migratable (state={shard.state.value})")
    else if shard.nodeId ≠ m.sourceNodeId then
      .error (s!"stale migration: shard {m.shardId} is now owned by {pyRepr shard.nodeId}",
        s!"shard {m.shardId} is now owned by {pyRepr shard.nodeId}; migration is stale and will not overwrite it")
    else if shard.version ≠ m.sourceVersion then
      .error
        (s!"stale migration: shard {m.shardId} version changed ({m.sourceVersion} -> {shard.version})",
        s!"shard {m.shardId} version changed ({m.sourceVersion} -> {shard.version}); migration is stale")
    else .ok shard

/-- `_assert_source_valid`. -/
def assertSourceValid (m : ShardMigration) : Proc (World δ) Exc Shard := do
  let w ← Proc.get
  match checkSource m (w.store.get m.shardId) with
  | .ok shard => pure shard
  | .error (error, reason) => do
    let _ ← failMigration m error
    Proc.throw (.migrationSource m.sourceNodeId reason)

/-- A transition, persisted. -/
def advance (m : ShardMigration) (dest : MigrationState) : Proc (World δ) Exc ShardMigration := do
  let m ← Proc.ofExcept (m.transition dest)
  inStore (·.putMigration m)
  pure m

/-! ## Creation -/

/-- The checks of `create_migration`, and the migration it makes. -/
def newMigration (store : InMemoryEtcd) (uuid4 ns shardId targetNodeId : String) :
    Except Exc ShardMigration := do
  match store.get shardId with
  | none => throw (.invalidMigration s!"unknown shard: {pyRepr shardId}")
  | some shard =>
    if shard.ns ≠ ns then
      throw (.invalidMigration
        s!"shard {pyRepr shardId} belongs to namespace {pyRepr shard.ns}, not {pyRepr ns}")
    else if ¬ shard.state.isMigratable then
      throw (.migrationSource (if shard.nodeId = "" then "?" else shard.nodeId)
        (s!"shard {pyRepr shardId} is not migratable (state={shard.state.value}; " ++
          "only ACTIVE/DRAINING shards may migrate)"))
    else
      let source ← shard.requireOwner
      mgr.validateMember store source .source
      mgr.validateMember store targetNodeId .target
      if targetNodeId = source then
        throw (.migrationTarget targetNodeId "target must differ from the source node")
      else
        match store.listMigrations.find? fun m => m.shardId = shardId ∧ ¬ m.state.isTerminal with
        | some m =>
          throw (.migrationConflict ns shardId
            s!"an in-progress migration ({pyRepr m.migrationId}) already exists (state={m.state.value})")
        | none =>
          pure
            { migrationId := uuid4, ns := ns, shardId := shardId, sourceNodeId := source,
              targetNodeId := targetNodeId, state := .pending, sourceVersion := shard.version,
              clusterId := mgr.clusterId, error := none, version := 1, sourceDigest := none,
              targetDigest := none, finalized := false }

def createMigration (uuid4 ns shardId targetNodeId : String) :
    Proc (World δ) Exc ShardMigration := do
  let w ← Proc.get
  let m ← Proc.ofExcept (mgr.newMigration w.store uuid4 ns shardId targetNodeId)
  inStore (·.putMigration m)
  pure m

/-! ## Steps -/

/-- The start of a step on a migration in the state `expected`: the migration and its shard. -/
def begin (id : String) (expected : MigrationState) :
    Proc (World δ) Exc (ShardMigration × Shard) := do
  let m ← require id
  Proc.ofExcept (requireState m expected)
  let shard ← assertSourceValid m
  pure (m, shard)

def prepare (id : String) : Proc (World δ) Exc ShardMigration := do
  let (m, _) ← begin id .pending
  advance m .preparing

/-- `start_copy`'s block that moves the data. -/
def copyData (m : ShardMigration) (shard : Shard) : Proc (World δ) Exc ShardMigration := do
  let data ← inDisks (T.exportShard m.sourceNodeId shard)
  inDisks (T.importShard m.targetNodeId shard data)
  let m := { m with sourceDigest := some data.digest }
  inStore (·.setMigration m)
  let targetDigest ← inDisks (T.verifyShard m.targetNodeId shard (some data.digest))
  let m := { m with targetDigest := some targetDigest }
  inStore (·.putMigration m)
  pure m

/-- `start_copy`'s exception handlers. -/
def copyFailed (id : String) (m : ShardMigration) (e : Exc) :
    Proc (World δ) Exc ShardMigration := do
  let w ← Proc.get
  let m := (w.store.getMigration id).getD m
  match e with
  | .migrationState _ _ => do
    let _ ← failMigration m "copy failed: migration lifecycle failure"
    Proc.throw e
  | .migrationVerification _ _ _ _ => do
    let _ ← failMigration m s!"verify failed: {e.message}"
    Proc.throw e
  | e => do
    let _ ← failMigration m s!"copy failed: {e.message}"
    Proc.throw (.migrationState m.migrationId s!"copy failed: {e.message}")

def startCopy (id : String) : Proc (World δ) Exc ShardMigration := do
  let (m, shard) ← begin id .preparing
  let m ← advance m .copying
  let r ← Proc.attempt (copyData T m shard)
  match r with
  | .ok m => pure m
  | .error e => copyFailed id m e

def verify (id : String) : Proc (World δ) Exc ShardMigration := do
  let (m, shard) ← begin id .copying
  let m ← advance m .verifying
  let r ← Proc.attempt (inDisks (T.verifyShard m.targetNodeId shard m.sourceDigest))
  match r with
  | .ok actual => do
    let m := { m with targetDigest := some actual }
    inStore (·.putMigration m)
    pure m
  | .error e =>
    match e with
    | .migrationVerification _ _ _ _ => do
      let _ ← failMigration m s!"verification failed: {e.message}"
      Proc.throw e
    | e => Proc.throw e

/-- The shard as `commit` hands it to the target. -/
def moveShard (shard : Shard) (target : String) : Shard :=
  { shard with
    nodeId := target, replicas := shard.replicas.filter (· ≠ target), version := shard.version + 1 }

/-- The checks of the ownership commit. -/
def checkMoved (store : InMemoryEtcd) (shard : Shard) : Except Exc Unit := do
  shard.validateOwnership
  ClusterMembershipManager.validateReplicas store shard.replicas

/-- `commit` once ownership has moved. -/
def finishCommit (m : ShardMigration) (shard : Shard) : Proc (World δ) Exc ShardMigration := do
  let r ← Proc.attempt (inDisks (T.finalizeSource m.sourceNodeId shard))
  let m := match r with
    | .ok () => { m with finalized := true }
    | .error e =>
      { m with
        error := some s!"source finalization failed after ownership commit: {Exc.message e}",
        finalized := false }
  advance m .completed

def commit (id : String) : Proc (World δ) Exc ShardMigration := do
  let (m, shard) ← begin id .verifying
  let w ← Proc.get
  Proc.ofExcept (mgr.validateMember w.store m.targetNodeId .target)
  let m ← advance m .committing
  let moved := moveShard shard m.targetNodeId
  inStore (·.setShard moved)
  let w ← Proc.get
  match checkMoved w.store moved with
  | .ok () => do
    inStore (·.put moved)
    finishCommit T m moved
  | .error e =>
    if isMigrationError e then Proc.throw e
    else do
      inStore (·.setShard shard)
      let _ ← failMigration m s!"ownership commit failed: {e.message}"
      Proc.throw (.migrationCommit m.ns m.shardId m.targetNodeId e.message)

/-- `cancel`'s cleanup of the target; what it raises is logged. -/
def discardCopy (m : ShardMigration) : Proc (World δ) Exc Unit := do
  let w ← Proc.get
  match w.store.get m.shardId with
  | none => pure ()
  | some shard =>
    if m.state = .copying ∨ m.state = .verifying then do
      let _ ← Proc.attempt (inDisks (T.discardTarget m.targetNodeId shard))
    else pure ()

def cancel (id : String) : Proc (World δ) Exc ShardMigration := do
  let m ← require id
  if ¬ m.state.isCancelable then
    Proc.throw (.migrationState m.migrationId
      s!"cannot cancel a migration in state={m.state.value}")
  else do
    discardCopy T m
    advance m .cancelled

def fail (id error : String) : Proc (World δ) Exc ShardMigration := do
  let m ← require id
  if m.state.isTerminal then
    Proc.throw (.migrationState m.migrationId
      s!"cannot fail a terminal migration (state={m.state.value})")
  else failMigration m error

/-- A call. -/
def perform : MigrationStep → Proc (World δ) Exc ShardMigration
  | .createMigration uuid4 ns shardId targetNodeId =>
    mgr.createMigration uuid4 ns shardId targetNodeId
  | .prepare id => prepare id
  | .startCopy id => startCopy T id
  | .verify id => verify T id
  | .commit id => mgr.commit T id
  | .cancel id => cancel T id
  | .fail id error => fail id error

end ShardMigrationManager

end Vsector.Sharding
