import Vsector.Impl.Errors

/-!
# Migration records

`MigrationState` and `ShardMigration` of `sharding/migration.py`, without the
times of their creation and last update.
-/

namespace Vsector.Sharding

inductive MigrationState where
  | pending
  | preparing
  | copying
  | verifying
  | committing
  | completed
  | failed
  | cancelled
deriving DecidableEq

namespace MigrationState

/-- `state.value`. -/
def value : MigrationState → String
  | pending => "PENDING"
  | preparing => "PREPARING"
  | copying => "COPYING"
  | verifying => "VERIFYING"
  | committing => "COMMITTING"
  | completed => "COMPLETED"
  | failed => "FAILED"
  | cancelled => "CANCELLED"

/-- `TRANSITIONS`. -/
def next : MigrationState → List MigrationState
  | pending => [preparing, cancelled, failed]
  | preparing => [copying, cancelled, failed]
  | copying => [verifying, cancelled, failed]
  | verifying => [committing, cancelled, failed]
  | committing => [completed, failed]
  | completed => []
  | failed => []
  | cancelled => []

/-- Whether a state is one of `_TERMINAL`. -/
def isTerminal : MigrationState → Bool
  | completed | failed | cancelled => true
  | _ => false

/-- Whether a state is one of `_CANCELABLE`. -/
def isCancelable : MigrationState → Bool
  | pending | preparing | copying | verifying => true
  | _ => false

end MigrationState

structure ShardMigration where
  migrationId : String
  ns : String
  shardId : String
  sourceNodeId : String
  targetNodeId : String
  state : MigrationState
  sourceVersion : Nat
  clusterId : String
  error : Option String
  version : Nat
  sourceDigest : Option String
  targetDigest : Option String
  finalized : Bool
deriving DecidableEq

/-- `transition`. -/
def ShardMigration.transition (m : ShardMigration) (dest : MigrationState) :
    Except Exc ShardMigration :=
  if dest ∈ m.state.next then .ok { m with state := dest, version := m.version + 1 }
  else .error (.migrationState m.migrationId s!"cannot move from {m.state.value} to {dest.value}")

end Vsector.Sharding
