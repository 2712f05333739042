import Vsector.Impl.Infra.Cache

/-!
# Caches over one Redis

The processes of a deployment have a `TieredCache` (`infra/cache.py`) each,
with a memory of its own, and share the Redis that `VSECTOR_REDIS_URL` names.
What Redis raises is only logged by the code: the call goes on without it.
The processes and Redis read one clock.
-/

namespace Vsector.Infra

open Framework Models

/-- `ttl` and `namespace` are those of every process. -/
structure CacheFleet (P α : Type) where
  ttl : ℚ
  l1 : P → Dict String (Stamped α)
  redis : Option (Dict String (Stamped α))

/-- `deleted` are the keys that are gone when `invalidate_namespace` is stopped by an exception. -/
inductive CacheOp (α : Type) where
  | get (q : CacheQuery)
  | set (q : CacheQuery) (value : α)
  | invalidate (ns : String) (deleted : List String)

structure CacheCall (P α : Type) where
  process : P
  now : ℚ
  /-- Whether Redis carries out what it is asked; a `get` whose answer is lost counts as not
  carried out. -/
  reached : Bool
  op : CacheOp α

namespace CacheFleet

variable {P α : Type} [DecidableEq P] (X : Externals)

/-- As the processes start. -/
def start (ttl : ℚ) (hasRedis : Bool) : CacheFleet P α :=
  ⟨ttl, fun _ => ∅, if hasRedis then some ∅ else none⟩

/-- The cache as the calling process sees it. -/
def view (f : CacheFleet P α) (c : CacheCall P α) : TieredCache α :=
  ⟨f.ttl, f.l1 c.process, if c.reached then f.redis else none⟩

/-- The caches once the calling process's is `t`. -/
def leave (f : CacheFleet P α) (c : CacheCall P α) (t : TieredCache α) : CacheFleet P α :=
  { f with
    l1 := Function.update f.l1 c.process t.l1
    redis := if c.reached then t.redis else f.redis }

/-- A call, and what it answers. -/
def call (f : CacheFleet P α) (c : CacheCall P α) : CacheFleet P α × Option α :=
  match c.op with
  | .get q =>
    let (t, answer) := (f.view c).getQuery X c.now q
    (f.leave c t, answer)
  | .set q value => (f.leave c ((f.view c).setQuery X c.now q value), none)
  | .invalidate ns deleted =>
    let g := f.leave c ((f.view c).invalidateNamespace ns)
    (if c.reached then g else { g with redis := g.redis.map fun d => deleted.foldl Dict.pop d },
      none)

/-- The caches after a history of calls. -/
def after (f : CacheFleet P α) (calls : List (CacheCall P α)) : CacheFleet P α :=
  calls.foldl (fun f c => (f.call X c).1) f

end CacheFleet

end Vsector.Infra
