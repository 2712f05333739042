import Vsector.Framework.Dict
import Vsector.Impl.Models.JsonText

/-!
# The query cache

`TieredCache` of `infra/cache.py`: a dictionary in memory, and perhaps a
Redis behind it that answers and keeps what it is given until it expires.
Values are kept as their JSON texts by the code; reading one back gives the
value.
-/

namespace Vsector.Infra

open Framework Models

variable (X : Externals)

/-- What a cached query is looked up by. -/
structure CacheQuery where
  ns : String
  vector : List PyFloat
  topK : Int
  filters : List (String × Json)

/-- The bytes `_hash_query` feeds to the digest. -/
def hashedText (q : CacheQuery) : String :=
  q.ns ++ toString q.topK ++ Json.dumps X .default (.arr ((q.vector.take 8).map .float)) ++
    Json.dumps X .default (.obj q.filters)

/-- `_hash_query`. -/
def hashQuery (q : CacheQuery) : String :=
  String.ofList ((X.sha256 (hashedText X q)).toList.take 16)

/-- A value and the time it was set at. -/
structure Stamped (α : Type) where
  time : ℚ
  value : α

/-- `redis` is `none` where no Redis is connected; its values expire by themselves. -/
structure TieredCache (α : Type) where
  ttl : ℚ
  l1 : Dict String (Stamped α)
  redis : Option (Dict String (Stamped α))

namespace TieredCache

variable {α : Type}

/-- `_redis.get(key)`. -/
def redisGet (c : TieredCache α) (now : ℚ) (key : String) : Option α :=
  match c.redis.bind (·.get? key) with
  | some entry => if now - entry.time < c.ttl then some entry.value else none
  | none => none

/-- `get_query`. -/
def getQuery (c : TieredCache α) (now : ℚ) (q : CacheQuery) : TieredCache α × Option α :=
  let key := hashQuery X q
  let second (c : TieredCache α) :=
    match c.redisGet now key with
    | some v => ({ c with l1 := c.l1.set key ⟨now, v⟩ }, some v)
    | none => (c, none)
  match c.l1.get? key with
  | some entry =>
    if now - entry.time < c.ttl then (c, some entry.value) else second { c with l1 := c.l1.pop key }
  | none => second c

/-- `set_query`. -/
def setQuery (c : TieredCache α) (now : ℚ) (q : CacheQuery) (value : α) : TieredCache α :=
  let key := hashQuery X q
  { c with l1 := c.l1.set key ⟨now, value⟩, redis := c.redis.map fun d => d.set key ⟨now, value⟩ }

/-- `invalidate_namespace`: all of the cache, whatever the namespace. -/
def invalidateNamespace (c : TieredCache α) (_ : String) : TieredCache α :=
  { c with l1 := ∅, redis := c.redis.map fun _ => ∅ }

end TieredCache

end Vsector.Infra
