import Vsector.Framework.Bisect
import Vsector.Framework.Dict
import Vsector.Impl.Errors

/-!
# The consistent-hash ring

`ConsistentHashRing` of `sharding/hash_ring.py`. `hash` is `_hash`, the SHA-256
digest of a text read as a number.
-/

namespace Vsector.Sharding

open Framework

structure ConsistentHashRing where
  replicas : Nat
  ring : Dict Nat String
  sortedKeys : List Nat

namespace ConsistentHashRing

variable (hash : String → Nat)

/-- `ConsistentHashRing(replicas)`. -/
def new (replicas : Nat) : ConsistentHashRing := ⟨replicas, ∅, []⟩

/-- The label of a virtual node. -/
def vnode (node : String) (i : Nat) : String := s!"{node}#{i}"

/-- `sorted(self.ring.keys())`. -/
def sorted (ring : Dict Nat String) : List Nat := ring.keys.insertionSort (· ≤ ·)

def addNode (r : ConsistentHashRing) (node : String) : ConsistentHashRing :=
  let ring := (List.range r.replicas).foldl
    (fun ring i => ring.set (hash (vnode node i)) node) r.ring
  { r with ring := ring, sortedKeys := sorted ring }

def removeNode (r : ConsistentHashRing) (node : String) : ConsistentHashRing :=
  let ring := (List.range r.replicas).foldl (fun ring i => ring.pop (hash (vnode node i))) r.ring
  { r with ring := ring, sortedKeys := sorted ring }

/-- `get_node`; where there are points the list of them is not empty and each has an owner, so the
last three errors are not met. -/
def getNode (r : ConsistentHashRing) (key : String) : Except Exc String :=
  if r.ring.entries = [] then .error (.other "RuntimeError" "ring empty")
  else if r.sortedKeys.length = 0 then .error (.other "ZeroDivisionError" "integer modulo by zero")
  else
    let idx := bisectRight r.sortedKeys (hash key) % r.sortedKeys.length
    match r.sortedKeys[idx]? with
    | none => .error (.other "IndexError" "list index out of range")
    | some point =>
      match r.ring.get? point with
      | none => .error (.other "KeyError" (toString point))
      | some node => .ok node

end ConsistentHashRing

/-- A change of the membership. -/
inductive RingOp where
  | add (node : String)
  | remove (node : String)

/-- The members after one change. -/
def RingOp.members (members : List String) : RingOp → List String
  | add node => if node ∈ members then members else members ++ [node]
  | remove node => members.filter (· ≠ node)

/-- The ring after one change. -/
def RingOp.apply (hash : String → Nat) (r : ConsistentHashRing) : RingOp → ConsistentHashRing
  | add node => r.addNode hash node
  | remove node => r.removeNode hash node

/-- The members after a run of changes. -/
def membersAfter (ops : List RingOp) : List String := ops.foldl RingOp.members []

/-- The ring after a run of changes. -/
def ringAfter (hash : String → Nat) (replicas : Nat) (ops : List RingOp) : ConsistentHashRing :=
  ops.foldl (RingOp.apply hash) (.new replicas)

end Vsector.Sharding
