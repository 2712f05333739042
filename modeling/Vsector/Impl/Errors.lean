import Mathlib

/-!
# Exceptions

The exception classes the modelled code raises and tells apart, each with the
arguments of its constructor, and their texts (`Exc.message`). The text of
pydantic's `ValidationError` is left out.
-/

namespace Vsector

inductive Exc where
  -- Python's and pydantic's.
  | valueError (msg : String)
  | keyError (msg : String)
  | typeError (msg : String)
  | assertionError
  | osError (msg : String)
  | validationError
  /-- Any other subclass of `Exception`. -/
  | other (cls msg : String)
  -- `sharding/exceptions.py`.
  | shardCreating (ns shard : String)
  | shardDraining (ns shard : String)
  | shardOffline (ns shard state : String)
  | noPrimaryOwner (ns shard : String)
  | ownershipMismatch (ns shard owner localNode : String)
  | ownershipConflict (ns shard reason : String)
  -- `cluster/exceptions.py`.
  | unknownNode (node : String)
  | removedNode (node : String)
  | clusterIdMismatch (node expected actual : String)
  -- `sharding/replication.py`.
  | replicaUnavailable (node : String)
  -- `sharding/migration.py`.
  | migrationNotFound (migration : String)
  | invalidMigration (reason : String)
  | migrationConflict (ns shard reason : String)
  | migrationState (migration reason : String)
  | migrationSource (node reason : String)
  | migrationTarget (node reason : String)
  | migrationVerification (ns shard expected actual : String)
  | migrationCommit (ns shard target reason : String)
deriving DecidableEq

/-- `repr` of a text without quotes and control characters. -/
def pyRepr (s : String) : String := s!"'{s}'"

/-- `str(e)`. -/
def Exc.message : Exc → String
  | valueError msg | typeError msg | osError msg | other _ msg => msg
  | keyError msg => pyRepr msg
  | assertionError | validationError => ""
  | shardCreating ns shard =>
    s!"shard creating: {ns}:{shard} is not ready for writes yet (state=CREATING)"
  | shardDraining ns shard =>
    s!"shard draining: {ns}:{shard} does not accept new writes (state=DRAINING)"
  | shardOffline ns shard state => s!"shard offline: {ns}:{shard} is unavailable (state={state})"
  | noPrimaryOwner ns shard => s!"no primary owner: {ns}:{shard} has no primary owner assigned"
  | ownershipMismatch ns shard owner localNode =>
    s!"ownership mismatch: {ns}:{shard} primary owner {pyRepr owner} != local node {pyRepr localNode}; " ++
      "writes are refused rather than routed to a non-primary node"
  | ownershipConflict ns shard reason => s!"ownership conflict: {ns}:{shard}: {reason}"
  | unknownNode node => s!"unknown node: {pyRepr node} is not a known cluster member"
  | removedNode node => s!"removed node: {pyRepr node} has been removed from the cluster"
  | clusterIdMismatch node expected actual =>
    s!"cluster id mismatch: node {pyRepr node} belongs to cluster {pyRepr actual}, expected {pyRepr expected}"
  | replicaUnavailable node => s!"replica unavailable: {node}"
  | migrationNotFound migration => s!"migration not found: {pyRepr migration}"
  | invalidMigration reason => s!"invalid migration: {reason}"
  | migrationConflict ns shard reason => s!"migration conflict: {ns}:{shard}: {reason}"
  | migrationState migration reason => s!"migration state error: {pyRepr migration}: {reason}"
  | migrationSource node reason => s!"migration source error: source node {pyRepr node} {reason}"
  | migrationTarget node reason => s!"migration target error: target node {pyRepr node} {reason}"
  | migrationVerification ns shard expected actual =>
    s!"migration verification failed: {ns}:{shard}: target digest {actual.take 12} " ++
      s!"!= source digest {expected.take 12}"
  | migrationCommit ns shard target reason =>
    s!"migration commit failed: {ns}:{shard} -> {pyRepr target}: {reason}"

/-- `type(e).__name__`. -/
def Exc.name : Exc → String
  | valueError _ => "ValueError"
  | keyError _ => "KeyError"
  | typeError _ => "TypeError"
  | assertionError => "AssertionError"
  | osError _ => "OSError"
  | validationError => "ValidationError"
  | other cls _ => cls
  | shardCreating .. => "ShardCreatingError"
  | shardDraining .. => "ShardDrainingError"
  | shardOffline .. => "ShardOfflineError"
  | noPrimaryOwner .. => "NoPrimaryOwnerError"
  | ownershipMismatch .. => "OwnershipMismatchError"
  | ownershipConflict .. => "OwnershipConflictError"
  | unknownNode _ => "UnknownNodeError"
  | removedNode _ => "RemovedNodeError"
  | clusterIdMismatch .. => "ClusterIdMismatchError"
  | replicaUnavailable _ => "ReplicaUnavailableError"
  | migrationNotFound _ => "MigrationNotFoundError"
  | invalidMigration _ => "InvalidMigrationError"
  | migrationConflict .. => "MigrationConflictError"
  | migrationState .. => "MigrationStateError"
  | migrationSource .. => "MigrationSourceError"
  | migrationTarget .. => "MigrationTargetError"
  | migrationVerification .. => "MigrationVerificationError"
  | migrationCommit .. => "MigrationCommitError"

end Vsector
