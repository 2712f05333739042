import Vsector.Framework.Since
import Vsector.Impl.Infra.CacheFleet
import Vsector.Proof.Models.JsonText

/-!
# How old an answer of the cache may be

An answer is a value that some process set (`answer_recent`), less than twice
the time to live ago: a memory may be filled from Redis just before the value
expires there, and keeps it as long again. A later call that reached Redis and
set or invalidated the key shows at once in the process that made it, and in
the others as soon as what they have in memory expires.

`call_l1` and `call_redis` say what one call does to the two levels; the
invariant (`Traced`) follows from these alone.
-/

namespace Vsector.Infra

open Framework Models

variable {P α : Type} [DecidableEq P] {X : Externals}

namespace CacheCall

/-- The call sets the key to the value. -/
def Sets (X : Externals) (key : String) (v : α) (c : CacheCall P α) : Prop :=
  ∃ q, c.op = .set q v ∧ hashQuery X q = key

/-- The call replaces or removes what is cached under the key, in Redis as well. -/
def Supersedes (X : Externals) (key : String) (c : CacheCall P α) : Prop :=
  c.reached = true ∧ ((∃ v, c.Sets X key v) ∨ ∃ ns deleted, c.op = .invalidate ns deleted)

end CacheCall

namespace CacheFleet

variable {f : CacheFleet P α} {c : CacheCall P α} {p : P} {key : String} {v : α} {ts t : ℚ}

/-- Redis answers with the value, which was set at `t`. -/
def RedisHas (f : CacheFleet P α) (key : String) (t : ℚ) (v : α) : Prop :=
  ∃ d, f.redis = some d ∧ d.get? key = some ⟨t, v⟩

/-! ## One call -/

/-- What a look-up leaves in memory, and what it answers, is from memory or from Redis. -/
theorem getQuery_cases (cache : TieredCache α) (now : ℚ) (q : CacheQuery) :
    (cache.getQuery X now q).1.redis = cache.redis ∧
      (∀ key ts v, (cache.getQuery X now q).1.l1.get? key = some ⟨ts, v⟩ →
        cache.l1.get? key = some ⟨ts, v⟩ ∨
          ts = now ∧ ∃ d t, cache.redis = some d ∧ d.get? key = some ⟨t, v⟩ ∧ now - t < cache.ttl) ∧
      ∀ v, (cache.getQuery X now q).2 = some v →
        ∃ ts, now - ts < cache.ttl ∧
          (cache.l1.get? (hashQuery X q) = some ⟨ts, v⟩ ∨
            ∃ d, cache.redis = some d ∧ d.get? (hashQuery X q) = some ⟨ts, v⟩) := by
  have hredis : ∀ v, cache.redisGet now (hashQuery X q) = some v →
      ∃ d t, cache.redis = some d ∧ d.get? (hashQuery X q) = some ⟨t, v⟩ ∧ now - t < cache.ttl := by
    intro v hv
    unfold TieredCache.redisGet at hv
    split at hv
    · rename_i entry he
      obtain ⟨d, hd, hk⟩ := Option.bind_eq_some_iff.mp he
      split at hv
      · rename_i hlt
        cases hv
        exact ⟨d, entry.time, hd, hk, hlt⟩
      · cases hv
    · cases hv
  have hpop : ∀ key ts v, (cache.l1.pop (hashQuery X q)).get? key = some ⟨ts, v⟩ →
      cache.l1.get? key = some ⟨ts, v⟩ := by
    intro key ts v h
    rw [Dict.get?_pop] at h
    split at h
    · cases h
    · exact h
  -- what is left of the memory when Redis is asked
  have hsecond : ∀ l1 : Dict String (Stamped α),
      (∀ key ts v, l1.get? key = some ⟨ts, v⟩ → cache.l1.get? key = some ⟨ts, v⟩) →
      ∀ u, cache.redisGet now (hashQuery X q) = some u → ∀ key ts v,
        (l1.set (hashQuery X q) ⟨now, u⟩).get? key = some ⟨ts, v⟩ →
          cache.l1.get? key = some ⟨ts, v⟩ ∨
            ts = now ∧ ∃ d t, cache.redis = some d ∧ d.get? key = some ⟨t, v⟩ ∧
              now - t < cache.ttl := by
    intro l1 hl1 u hu key ts v h
    rw [Dict.get?_set] at h
    split at h
    · rename_i hkey
      cases h
      rw [hkey]
      exact .inr ⟨rfl, hredis _ hu⟩
    · exact .inl (hl1 key ts v h)
  have hanswer : ∀ v, cache.redisGet now (hashQuery X q) = some v → ∃ ts, now - ts < cache.ttl ∧
      (cache.l1.get? (hashQuery X q) = some ⟨ts, v⟩ ∨
        ∃ d, cache.redis = some d ∧ d.get? (hashQuery X q) = some ⟨ts, v⟩) := by
    intro v hv
    obtain ⟨d, t, hd, hk, hlt⟩ := hredis v hv
    exact ⟨t, hlt, .inr ⟨d, hd, hk⟩⟩
  have hsame : ∀ l1 : Dict String (Stamped α),
      ({ cache with l1 := l1 } : TieredCache α).redisGet now (hashQuery X q) =
        cache.redisGet now (hashQuery X q) := fun _ => rfl
  unfold TieredCache.getQuery
  dsimp only
  cases hk : cache.l1.get? (hashQuery X q) with
  | none =>
    cases hg : cache.redisGet now (hashQuery X q) with
    | none => exact ⟨rfl, fun _ _ _ h => .inl h, fun v hv => by cases hv⟩
    | some u =>
      refine ⟨rfl, hsecond cache.l1 (fun _ _ _ h => h) u hg, fun v hv => ?_⟩
      cases hv
      simpa only [hk] using hanswer u hg
  | some entry =>
    dsimp only
    split
    · rename_i hlt
      exact ⟨rfl, fun _ _ _ h => .inl h, fun v hv => by cases hv; exact ⟨entry.time, hlt, .inl rfl⟩⟩
    · rw [hsame]
      cases hg : cache.redisGet now (hashQuery X q) with
      | none => exact ⟨rfl, fun key ts v h => .inl (hpop key ts v h), fun v hv => by cases hv⟩
      | some u =>
        refine ⟨rfl, hsecond _ hpop u hg, fun v hv => ?_⟩
        cases hv
        simpa only [hk] using hanswer u hg

omit [DecidableEq P] in
theorem view_redis {d : Dict String (Stamped α)} (h : (f.view c).redis = some d) :
    c.reached = true ∧ f.redis = some d := by
  simp only [view] at h
  split at h
  · rename_i hr
    exact ⟨hr, h⟩
  · cases h

omit [DecidableEq P] in
theorem not_supersedes_get {q : CacheQuery} (hop : c.op = .get q) : ¬ c.Supersedes X key := by
  rintro ⟨-, ⟨w, q', hq', -⟩ | ⟨ns, deleted, hi⟩⟩
  · rw [hop] at hq'
    cases hq'
  · rw [hop] at hi
    cases hi

omit [DecidableEq P] in
theorem not_supersedes_set {q : CacheQuery} {w : α} (hop : c.op = .set q w)
    (hkey : hashQuery X q ≠ key) :
    ¬ c.Supersedes X key := by
  rintro ⟨-, ⟨u, q', hq', he⟩ | ⟨ns, deleted, hi⟩⟩
  · rw [hop] at hq'
    cases hq'
    exact hkey he
  · rw [hop] at hi
    cases hi

theorem call_redis (h : (f.call X c).1.RedisHas key t v) :
    (c.reached = true ∧ t = c.now ∧ c.Sets X key v) ∨
    (¬ c.Supersedes X key ∧ f.RedisHas key t v) := by
  obtain ⟨d, hd, hk⟩ := h
  cases hop : c.op with
  | get q =>
    refine .inr ⟨not_supersedes_get hop, d, ?_, hk⟩
    simp only [call, hop, leave] at hd
    split at hd
    · rw [(getQuery_cases (X := X) (f.view c) c.now q).1] at hd
      exact (view_redis hd).2
    · exact hd
  | set q w =>
    simp only [call, hop, leave] at hd
    split at hd
    · rename_i hr
      obtain ⟨d₀, hd₀, rfl⟩ := Option.map_eq_some_iff.mp hd
      rw [Dict.get?_set] at hk
      split at hk
      · rename_i hkey
        cases hk
        exact .inl ⟨hr, rfl, q, hop, hkey.symm⟩
      · rename_i hkey
        exact .inr ⟨not_supersedes_set hop (Ne.symm hkey), d₀, (view_redis hd₀).2, hk⟩
    · rename_i hr
      exact .inr ⟨fun hs => hr hs.1, d, hd, hk⟩
  | invalidate ns deleted =>
    simp only [call, hop, leave, TieredCache.invalidateNamespace] at hd
    split at hd
    · rename_i hr
      obtain ⟨d₀, -, rfl⟩ := Option.map_eq_some_iff.mp hd
      cases hk
    · rename_i hr
      obtain ⟨d₀, hd₀, rfl⟩ := Option.map_eq_some_iff.mp hd
      have hpop := Dict.get?_foldl_pop (fun k : String => k) deleted d₀ key
      rw [hk] at hpop
      split at hpop
      · cases hpop
      · exact .inr ⟨fun hs => hr hs.1, d₀, hd₀, hpop.symm⟩

theorem call_l1 (h : ((f.call X c).1.l1 p).get? key = some ⟨ts, v⟩) :
    ((f.l1 p).get? key = some ⟨ts, v⟩ ∧ (c.Supersedes X key → c.process ≠ p)) ∨
      (c.process = p ∧ ts = c.now ∧
        (c.Sets X key v ∨ ¬ c.Supersedes X key ∧ ∃ t, c.now - t < f.ttl ∧ f.RedisHas key t v)) := by
  by_cases hp : c.process = p
  swap
  · refine .inl ⟨?_, fun _ => hp⟩
    have hother : ∀ t : TieredCache α, (f.leave c t).l1 p = f.l1 p :=
      fun t => Function.update_of_ne (Ne.symm hp) _ _
    cases hop : c.op with
    | get q => simpa only [call, hop, hother] using h
    | set q w => simpa only [call, hop, hother] using h
    | invalidate ns deleted =>
      simp only [call, hop] at h
      split at h <;> rwa [hother] at h
  · subst hp
    have hown : ∀ t : TieredCache α, (f.leave c t).l1 c.process = t.l1 :=
      fun t => Function.update_self _ _ _
    cases hop : c.op with
    | get q =>
      simp only [call, hop, hown] at h
      rcases (getQuery_cases (f.view c) c.now q).2.1 key ts v h with hk | ⟨hts, d, t, hd, hk, hlt⟩
      · exact .inl ⟨hk, fun hs => absurd hs (not_supersedes_get hop)⟩
      · exact .inr ⟨rfl, hts, .inr ⟨not_supersedes_get hop, t, hlt, d, (view_redis hd).2, hk⟩⟩
    | set q w =>
      simp only [call, hop, hown, TieredCache.setQuery, view] at h
      rw [Dict.get?_set] at h
      split at h
      · rename_i hkey
        cases h
        exact .inr ⟨rfl, rfl, .inl ⟨q, hop, hkey.symm⟩⟩
      · rename_i hkey
        exact .inl ⟨h, fun hs => absurd hs (not_supersedes_set hop (Ne.symm hkey))⟩
    | invalidate ns deleted =>
      simp only [call, hop] at h
      split at h
      · rw [hown] at h
        cases h
      · rw [hown] at h
        cases h

theorem call_answer {q : CacheQuery} (hop : c.op = .get q) (h : (f.call X c).2 = some v) :
    ∃ ts, c.now - ts < f.ttl ∧
      ((f.l1 c.process).get? (hashQuery X q) = some ⟨ts, v⟩ ∨ f.RedisHas (hashQuery X q) ts v) := by
  simp only [call, hop] at h
  obtain ⟨ts, hlt, hk | ⟨d, hd, hk⟩⟩ := (getQuery_cases (f.view c) c.now q).2.2 v h
  · exact ⟨ts, hlt, .inl hk⟩
  · exact ⟨ts, hlt, .inr ⟨d, (view_redis hd).2, hk⟩⟩

/-! ## Histories -/

/-- The call sets the key to the value at `t`. -/
def SetAt (X : Externals) (key : String) (v : α) (t : ℚ) (c : CacheCall P α) : Prop :=
  c.now = t ∧ c.Sets X key v

/-- Where what the two levels keep comes from: what is in a memory since `ts` was set then, or
while Redis still had it. -/
structure Traced (X : Externals) (calls : List (CacheCall P α)) (f : CacheFleet P α) : Prop where
  redis : ∀ key t v, f.RedisHas key t v →
    Since (SetAt X key v t) (fun c => ¬ c.Supersedes X key) calls
  l1 : ∀ p key ts v, (f.l1 p).get? key = some ⟨ts, v⟩ → (∃ c ∈ calls, c.now = ts) ∧
    Since (fun c => ∃ t, SetAt X key v t c ∧ (ts = t ∨ f.redis.isSome = true ∧ ts - t < f.ttl))
      (fun c => c.Supersedes X key → c.process ≠ p ∧ ts ≤ c.now) calls

theorem ttl_call : (f.call X c).1.ttl = f.ttl := by
  unfold call
  cases c.op with
  | invalidate ns deleted => dsimp only; split <;> rfl
  | _ => rfl

theorem redis_isSome_call : (f.call X c).1.redis.isSome = f.redis.isSome := by
  unfold call leave
  cases c.op with
  | get q =>
    have hget := (getQuery_cases (X := X) (f.view c) c.now q).1
    dsimp only
    split
    · rename_i hr
      rw [hget, view, if_pos hr]
    · rfl
  | set q v =>
    simp only [TieredCache.setQuery, view]
    split <;> simp
  | invalidate ns deleted =>
    simp only [TieredCache.invalidateNamespace, view]
    split <;> simp

/-- A call keeps the traces, where no earlier one was made later. -/
theorem Traced.call {calls : List (CacheCall P α)} (h : Traced X calls f)
    (hclock : ∀ c' ∈ calls, c'.now ≤ c.now) :
    Traced X (calls ++ [c]) (f.call X c).1 := by
  constructor
  · intro key t v hr
    rcases call_redis hr with ⟨-, ht, hset⟩ | ⟨hnot, hr⟩
    · exact .now ⟨ht.symm, hset⟩
    · exact (h.redis key t v hr).snoc hnot
  · intro p key ts v hl
    rw [redis_isSome_call, ttl_call]
    rcases call_l1 hl with ⟨hl, hother⟩ | ⟨-, hts, hset | ⟨hnot, t, hlt, hr⟩⟩
    · obtain ⟨⟨c', hc', hnow⟩, hsince⟩ := h.l1 p key ts v hl
      refine ⟨⟨c', List.mem_append_left _ hc', hnow⟩, hsince.snoc fun hs => ⟨hother hs, ?_⟩⟩
      rw [← hnow]
      exact hclock c' hc'
    · exact ⟨⟨c, by simp, hts.symm⟩, .now ⟨c.now, ⟨rfl, hset⟩, .inl hts⟩⟩
    · have hsome : f.redis.isSome = true := by
        obtain ⟨d, hd, -⟩ := hr
        rw [hd]
        rfl
      refine ⟨⟨c, by simp, hts.symm⟩, Since.snoc ?_ fun hs => absurd hs hnot⟩
      rw [hts]
      exact (h.redis key t v hr).mono (fun _ _ hx => ⟨t, hx, .inr ⟨hsome, hlt⟩⟩) fun _ _ hx hs =>
        absurd hs hx

/-- What the caches keep after a history of calls whose clock does not go back. -/
theorem traced_after (ttl : ℚ) (hasRedis : Bool) {calls : List (CacheCall P α)}
    (hclock : calls.Pairwise fun c c' => c.now ≤ c'.now) :
    Traced X calls (after X (start ttl hasRedis) calls) ∧
    (after X (start ttl hasRedis) calls).ttl = ttl ∧
      (after X (start ttl hasRedis) calls).redis.isSome = hasRedis := by
  induction calls using List.reverseRecOn with
  | nil =>
    refine ⟨⟨?_, fun _ _ _ _ hl => by cases hl⟩, rfl, by cases hasRedis <;> rfl⟩
    rintro key t v ⟨d, hd, hk⟩
    cases hasRedis with
    | false => cases hd
    | true =>
      cases hd
      cases hk
  | append_singleton calls c ih =>
    obtain ⟨hcalls, -, hlast⟩ := List.pairwise_append.mp hclock
    obtain ⟨hi, httl, hredis⟩ := ih hcalls
    rw [after, List.foldl_append, List.foldl_cons, List.foldl_nil]
    exact ⟨hi.call fun c' hc' => hlast c' hc' c List.mem_cons_self, ttl_call.trans httl,
      redis_isSome_call.trans hredis⟩

/-- Whatever the processes do, and whichever calls Redis fails: what a look-up answers was set less
than twice the time to live ago, or once where there is no Redis, and nothing that reached Redis
since then replaced or removed it, but calls of other processes that are no older than the time to
live. -/
theorem answer_recent (ttl : ℚ) (hasRedis : Bool) (calls : List (CacheCall P α)) (c : CacheCall P α)
    (q : CacheQuery) (v : α) (hclock : (calls ++ [c]).Pairwise fun c c' => c.now ≤ c'.now)
    (hop : c.op = .get q) (h : ((after X (start ttl hasRedis) calls).call X c).2 = some v) :
    Since (fun s => s.Sets X (hashQuery X q) v ∧ c.now - s.now < if hasRedis then 2 * ttl else ttl)
      (fun s => s.Supersedes X (hashQuery X q) → s.process ≠ c.process ∧
        c.now - s.now < ttl) calls := by
  obtain ⟨hcalls, -, hlast⟩ := List.pairwise_append.mp hclock
  obtain ⟨hi, httl, hredis⟩ := traced_after (X := X) ttl hasRedis hcalls
  obtain ⟨ts, hlt, hl | hr⟩ := call_answer hop h
  · obtain ⟨⟨c', hc', hnow⟩, hsince⟩ := hi.l1 c.process _ ts v hl
    rw [httl] at hlt
    have hts : ts ≤ c.now := hnow ▸ hlast c' hc' c List.mem_cons_self
    refine hsince.mono ?_ fun s _ hs hsup => ⟨(hs hsup).1, by linarith [(hs hsup).2]⟩
    rintro s - ⟨t, ⟨rfl, hset⟩, hage⟩
    refine ⟨hset, ?_⟩
    rw [httl, hredis] at hage
    split
    · rcases hage with rfl | ⟨-, hage⟩ <;> linarith
    · rename_i hno
      rcases hage with rfl | ⟨hyes, -⟩
      · exact hlt
      · exact absurd hyes hno
  · rw [httl] at hlt
    have hyes : hasRedis = true := by
      obtain ⟨d, hd, -⟩ := hr
      rw [← hredis, hd]
      rfl
    have hts : ts ≤ c.now := by
      obtain ⟨c', hc', hnow, -⟩ := (hi.redis _ ts v hr).exists_mem
      exact hnow ▸ hlast c' hc' c List.mem_cons_self
    refine (hi.redis _ ts v hr).mono ?_ fun s _ hs hsup => absurd hsup hs
    rintro s - ⟨rfl, hset⟩
    refine ⟨hset, ?_⟩
    rw [if_pos hyes]
    linarith

section

/-- A query, and look-ups of it by two processes. -/
private def aQuery : CacheQuery := ⟨"docs", [.finite 1], 10, []⟩
private def aCall (process : Bool) (now : ℚ) (op : CacheOp ℕ) : CacheCall Bool ℕ :=
  ⟨process, now, true, op⟩

/-- One process sets the value at 0, the other fills its memory from Redis at 59 and answers with
it at 118. -/
theorem answer_at_118 :
    ((after fractional (start 60 true) [aCall false 0 (.set aQuery 7),
      aCall true 59 (.get aQuery)]).call fractional
        (aCall true 118 (.get aQuery))).2 = some 7 ∧
      Since (fun s => s.Sets fractional (hashQuery fractional aQuery) 7 ∧
        (118 : ℚ) - s.now < if true then 2 * 60 else 60)
        (fun s => s.Supersedes fractional (hashQuery fractional aQuery) →
          s.process ≠ true ∧ (118 : ℚ) - s.now < 60)
        [aCall false 0 (.set aQuery 7), aCall true 59 (.get aQuery)] := by
  have hanswer : ((after fractional (start 60 true) [aCall false 0 (.set aQuery 7),
      aCall true 59 (.get aQuery)]).call
      fractional (aCall true 118 (.get aQuery))).2 = some 7 := by decide +kernel
  have hclock : ([aCall false 0 (.set aQuery 7), aCall true 59 (.get aQuery)] ++
      [aCall true 118 (.get aQuery)]).Pairwise
      fun c c' => c.now ≤ c'.now := by
    simp only [aCall, List.cons_append, List.nil_append, List.pairwise_cons, List.mem_cons,
      List.not_mem_nil, or_false]
    norm_num
  exact ⟨hanswer, answer_recent 60 true _ (aCall true 118 (.get aQuery)) aQuery 7
    hclock rfl hanswer⟩

end

/-! ## A process's own values -/

/-- A look-up of another key leaves what is in memory under this one, and so does one that finds it
there. -/
theorem getQuery_keeps (cache : TieredCache α) {now : ℚ} (q : CacheQuery)
    (hk : cache.l1.get? key = some ⟨ts, v⟩) (hlt : now - ts < cache.ttl) :
    (cache.getQuery X now q).1.l1.get? key = some ⟨ts, v⟩ ∧
      (hashQuery X q = key → (cache.getQuery X now q).2 = some v) := by
  by_cases hq : hashQuery X q = key
  · have hfound : cache.getQuery X now q = (cache, some v) := by
      unfold TieredCache.getQuery
      dsimp only
      rw [hq, hk]
      exact if_pos hlt
    rw [hfound]
    exact ⟨hk, fun _ => rfl⟩
  · refine ⟨?_, fun h => absurd h hq⟩
    have hne : key ≠ hashQuery X q := Ne.symm hq
    unfold TieredCache.getQuery
    dsimp only
    split
    · split
      · exact hk
      · split
        · exact (Dict.get?_set_ne _ _ hne).trans ((Dict.get?_pop_ne _ hne).trans hk)
        · exact (Dict.get?_pop_ne _ hne).trans hk
    · split
      · exact (Dict.get?_set_ne _ _ hne).trans hk
      · exact hk

/-- The call is one by which a process itself replaces or removes what it has in memory under the
key. -/
def Forgets (X : Externals) (key : String) (p : P) (c : CacheCall P α) : Prop :=
  c.process = p ∧ ((∃ v, c.Sets X key v) ∨ ∃ ns deleted, c.op = .invalidate ns deleted)

theorem call_keeps (hk : (f.l1 p).get? key = some ⟨ts, v⟩) (hlt : c.now - ts < f.ttl)
    (hnot : ¬ Forgets X key p c) :
    ((f.call X c).1.l1 p).get? key = some ⟨ts, v⟩ := by
  by_cases hp : c.process = p
  swap
  · have hother : ∀ t : TieredCache α, (f.leave c t).l1 p = f.l1 p :=
      fun t => Function.update_of_ne (Ne.symm hp) _ _
    cases hop : c.op with
    | get q => simpa only [call, hop, hother] using hk
    | set q w => simpa only [call, hop, hother] using hk
    | invalidate ns deleted =>
      simp only [call, hop]
      split <;> rwa [hother]
  · subst hp
    have hown : ∀ t : TieredCache α, (f.leave c t).l1 c.process = t.l1 :=
      fun t => Function.update_self _ _ _
    cases hop : c.op with
    | get q =>
      simp only [call, hop, hown]
      exact (getQuery_keeps (f.view c) q hk hlt).1
    | set q w =>
      simp only [call, hop, hown, TieredCache.setQuery]
      refine (Dict.get?_set_ne _ _ fun hkey => hnot ⟨rfl, .inl ⟨w, q, hop, hkey.symm⟩⟩).trans hk
    | invalidate ns deleted => exact absurd ⟨rfl, .inr ⟨ns, deleted, hop⟩⟩ hnot

/-- A process is answered what it set itself for as long as the time to live, unless it sets the
key again or invalidates; neither other processes nor a failing Redis change that. -/
theorem own_value_answered (ttl : ℚ) (hasRedis : Bool) (earlier later : List (CacheCall P α))
    (s c : CacheCall P α) (q q' : CacheQuery) (v : α)
    (hclock : (later ++ [c]).Pairwise fun c c' => c.now ≤ c'.now) (hs : s.op = .set q' v)
    (hc : c.op = .get q) (hkey : hashQuery X q' = hashQuery X q) (hprocess : s.process = c.process)
    (hage : c.now - s.now < ttl) (hlater : ∀ x ∈ later, ¬ Forgets X (hashQuery X q) c.process x) :
    ((after X (start ttl hasRedis) (earlier ++ s :: later)).call X c).2 = some v := by
  obtain ⟨-, -, hlast⟩ := List.pairwise_append.mp hclock
  have httl : ∀ calls : List (CacheCall P α), (after X (start ttl hasRedis) calls).ttl = ttl := by
    intro calls
    induction calls using List.reverseRecOn with
    | nil => rfl
    | append_singleton calls x ih =>
      rw [after, List.foldl_append, List.foldl_cons, List.foldl_nil]
      exact ttl_call.trans ih
  have hl1 : ∀ l : List (CacheCall P α), (∀ x ∈ l, ¬ Forgets X (hashQuery X q) c.process x ∧
      x.now ≤ c.now) →
      ((after X (start ttl hasRedis) (earlier ++ s :: l)).l1 c.process).get? (hashQuery X q) =
        some ⟨s.now, v⟩ := by
    intro l
    induction l using List.reverseRecOn with
    | nil =>
      intro _
      rw [after, List.foldl_append, List.foldl_cons, List.foldl_nil]
      simp only [call, hs, leave, hprocess, Function.update_self, TieredCache.setQuery, hkey,
        Dict.get?_set_self]
    | append_singleton l x ih =>
      intro hl
      have hi := ih fun y hy => hl y (List.mem_append_left _ hy)
      obtain ⟨hnot, hnow⟩ := hl x (by simp)
      rw [← List.cons_append, ← List.append_assoc, after, List.foldl_append,
        List.foldl_cons, List.foldl_nil]
      refine call_keeps hi ?_ hnot
      rw [← after, httl]
      linarith
  have hmem := hl1 later fun x hx => ⟨hlater x hx, hlast x hx c List.mem_cons_self⟩
  simp only [call, hc]
  refine (getQuery_keeps (view _ c) q hmem ?_).2 rfl
  show c.now - s.now < (after X (start ttl hasRedis) (earlier ++ s :: later)).ttl
  rw [httl]
  exact hage

section

/-- Another process invalidates, and Redis fails, but the process that set the value answers with
it. -/
theorem own_value_answered_at_59 :
    ((after fractional (start 60 true) ([] ++ aCall true 0 (.set aQuery 7) ::
      [aCall false 1 (.invalidate "docs" [])])).call
      fractional ⟨true, 59, false, .get aQuery⟩).2 = some 7 := by
  refine own_value_answered 60 true [] [aCall false 1 (.invalidate "docs" [])]
    (aCall true 0 (.set aQuery 7))
    ⟨true, 59, false, .get aQuery⟩ aQuery aQuery 7 ?_ rfl rfl rfl rfl (by norm_num [aCall])
      fun x hx hf => ?_
  · simp only [aCall, List.cons_append, List.nil_append, List.pairwise_cons, List.mem_cons,
      List.not_mem_nil, or_false]
    norm_num
  · rw [List.mem_singleton.mp hx] at hf
    exact Bool.false_ne_true hf.1

end

end CacheFleet

end Vsector.Infra
