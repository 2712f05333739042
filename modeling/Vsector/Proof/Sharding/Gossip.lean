import Vsector.Framework.Since
import Vsector.Impl.Sharding.Gossip
import Vsector.Proof.Sharding.Etcd3

/-!
# How far a cached shard list may be behind

A list that a router uses is the store's, as a thread of the process listed it
less than the time to live ago, and since it was cached the watch has not
named the namespace (`used_traced`). So, where the watch has delivered every
put, what the list lacks was put between the listing and the caching of it;
what it has too much was deleted, was moved to another namespace, or was
replaced while it was listed (`used_behind`).
-/

namespace Vsector.Sharding

open Framework Models Cluster

variable {X : Externals} {C : EtcdClient}

/-! ## The store -/

namespace Etcd3Store

/-- What is under the prefix of the shards is shards, each under its id. -/
def Readable (X : Externals) (e : Etcd3Store) (d : Dict String Shard) : Prop :=
  HoldsUnder shardsPrefix (shardText X) e.kv d ∧ ∀ id s, d.get? id = some s → s.id = id

/-- The shard is listed for the namespace. -/
def Lists (X : Externals) (C : EtcdClient) (e : Etcd3Store) (ns : String) (s : Shard) : Prop :=
  ∃ l, e.listByNamespace X C ns = some l ∧ s ∈ l

variable {e : Etcd3Store} {d : Dict String Shard} {ns : String} {s : Shard}

theorem Readable.listByNamespace (hX : X.FloatReads) (hC : C.Lawful) (h : Readable X e d)
    (ns : String) :
    ∃ l, e.listByNamespace X C ns = some l ∧ ∀ s, s ∈ l ↔ d.get? s.id = some s ∧ s.ns = ns := by
  obtain ⟨l, hl, hperm⟩ := listRead_perm (k := id) hC (loads_shardText hX) shardFromDict_toDict h.1
  rw [List.map_id] at hl
  refine ⟨l.filter fun s => s.ns = ns, ?_, fun s => ?_⟩
  · rw [Etcd3Store.listByNamespace, all, hl]
    rfl
  · rw [List.mem_filter, hperm.mem_iff, decide_eq_true_iff, Dict.mem_values]
    constructor
    · rintro ⟨⟨id, hid⟩, hns⟩
      rw [h.2 id s hid]
      exact ⟨hid, hns⟩
    · rintro ⟨hid, hns⟩
      exact ⟨⟨s.id, hid⟩, hns⟩

theorem Readable.lists_iff (hX : X.FloatReads) (hC : C.Lawful) (h : Readable X e d) :
    Lists X C e ns s ↔ d.get? s.id = some s ∧ s.ns = ns := by
  obtain ⟨l, hl, hmem⟩ := h.listByNamespace hX hC ns
  rw [← hmem s]
  constructor
  · rintro ⟨l', hl', hs⟩
    rw [hl] at hl'
    cases hl'
    exact hs
  · exact fun hs => ⟨l, hl, hs⟩

/-- What a call does to the shards. -/
def shardsAfter (d : Dict String Shard) : StoreCall → Dict String Shard
  | .put shard => d.set shard.id shard
  | .delete shardId => d.pop shardId
  | _ => d

theorem Readable.call (h : Readable X e d) (c : StoreCall) :
    Readable X (e.after X c) (shardsAfter d c) := by
  obtain ⟨hholds, hkeyed⟩ := h
  cases c with
  | put shard =>
    refine ⟨hholds.set shard.id shard, fun id s hs => ?_⟩
    rw [shardsAfter, Dict.get?_set] at hs
    split at hs
    · rename_i hid
      cases hs
      exact hid.symm
    · exact hkeyed id s hs
  | delete shardId =>
    refine ⟨hholds.pop shardId, fun id s hs => ?_⟩
    rw [shardsAfter, Dict.get?_pop] at hs
    split at hs
    · cases hs
    · exact hkeyed id s hs
  | putNode node => exact ⟨hholds.set_apart prefixes_apart node.nodeId (nodeText X node), hkeyed⟩
  | deleteNode nodeId => exact ⟨hholds.pop_apart prefixes_apart nodeId, hkeyed⟩
  | _ => exact ⟨hholds, hkeyed⟩

end Etcd3Store

namespace GossipFleet

open Etcd3Store

variable {P T : Type} [DecidableEq P] [DecidableEq T] {f : GossipFleet P T} {p : P} {t : T}
  {ns : String} {now ts : ℚ} {L : List Shard} {events : List (GossipEvent P T)}
  {x : GossipEvent P T}

theorem after_append (f : GossipFleet P T) (l l' : List (GossipEvent P T)) :
    after X C f (l ++ l') = after X C (after X C f l) l' := List.foldl_append

/-! ## Values of the watch -/

/-- The watch names the namespace of what is put. -/
theorem namedBy_shardText (hX : X.FloatReads) {s : Shard} (hns : s.ns ≠ "") :
    namedBy X (shardText X s) = some s.ns := by
  have hloads := loads_shardText hX s
  have hne : shardText X s ≠ [] := by
    intro h
    rw [h] at hloads
    cases hloads
  have hfield : (Json.loads X (shardText X s)).bind (fun d => d.get? "namespace") =
      some (.str s.ns) := by
    rw [hloads]
    rfl
  rw [namedBy, if_neg hne, hfield]
  exact if_neg hns

/-! ## Where a list comes from -/

/-- The event empties the router's cache of the namespace. -/
def Forgets (X : Externals) (p : P) (ns : String) (x : GossipEvent P T) : Prop :=
  x = .invalidate p ns ∨ ∃ value, x = .deliver p value ∧ namedBy X value = some ns

/-- A thread listed the namespace, at `ts`, and found `L`; then came `reading`. -/
def ListedBy (X : Externals) (C : EtcdClient) (f : GossipFleet P T) (p : P) (t : T) (ns : String)
    (ts : ℚ) (L : List Shard) (reading events : List (GossipEvent P T)) : Prop :=
  ∃ before, events = before ++ .list p t ts ns :: reading ∧
    (after X C f before).store.listByNamespace X C ns = some L

/-- What the routers have, and the threads, was listed. -/
structure Traced (X : Externals) (C : EtcdClient) (f₀ : GossipFleet P T)
    (events : List (GossipEvent P T)) (f : GossipFleet P T) : Prop where
  listed : ∀ p t ns ts L, f.listed p t = some (ns, ts, L) →
    ∃ reading, ListedBy X C f₀ p t ns ts L reading events
  cache : ∀ p ns ts L, (f.cache p).get? ns = some (ts, L) →
    ∃ t reading later, ListedBy X C f₀ p t ns ts L (reading ++ .fill p t :: later) events ∧
      ∀ x ∈ later, ¬ Forgets X p ns x

theorem ListedBy.snoc {f₀ : GossipFleet P T} {reading : List (GossipEvent P T)}
    (h : ListedBy X C f₀ p t ns ts L reading events) (x : GossipEvent P T) :
    ListedBy X C f₀ p t ns ts L (reading ++ [x]) (events ++ [x]) := by
  obtain ⟨before, rfl, hlist⟩ := h
  exact ⟨before, by simp, hlist⟩

/-- What one event leaves of a cached list. -/
theorem cache_step (h : ((f.step X C x).cache p).get? ns = some (ts, L)) :
    ((f.cache p).get? ns = some (ts, L) ∧ ¬ Forgets X p ns x) ∨ ∃ t, x = .fill p t ∧
      f.listed p t = some (ns, ts, L) := by
  have hforget : ∀ q ns', ((f.forget q ns').cache p).get? ns = some (ts, L) →
      (f.cache p).get? ns = some (ts, L) ∧ (q = p → ns' ≠ ns) := by
    intro q ns' h
    by_cases hq : q = p
    · subst hq
      simp only [forget, Function.update_self, Dict.get?_pop] at h
      split at h
      · cases h
      · rename_i hne
        exact ⟨h, fun _ => Ne.symm hne⟩
    · simp only [forget, Function.update_of_ne (Ne.symm hq)] at h
      exact ⟨h, fun he => absurd he hq⟩
  have hother : ∀ {y : GossipEvent P T}, (∀ q ns', y ≠ .invalidate q ns') →
      (∀ q value, y ≠ .deliver q value) →
      ¬ Forgets X p ns y := by
    rintro y hi hd (hy | ⟨value, hy, -⟩)
    · exact hi p ns hy
    · exact hd p value hy
  cases x with
  | store call => exact .inl ⟨h, hother nofun nofun⟩
  | list q t now ns' => exact .inl ⟨h, hother nofun nofun⟩
  | invalidate q ns' =>
    obtain ⟨hc, hne⟩ := hforget q ns' h
    refine .inl ⟨hc, ?_⟩
    rintro (hy | ⟨value, hy, -⟩)
    · cases hy
      exact hne rfl rfl
    · cases hy
  | deliver q value =>
    refine .inl ?_
    change ((f.onEvent X q value).cache p).get? ns = some (ts, L) at h
    rw [onEvent] at h
    split at h
    · rename_i ns' hnamed
      obtain ⟨hc, hne⟩ := hforget q ns' h
      refine ⟨hc, ?_⟩
      rintro (hy | ⟨value', hy, hn⟩)
      · cases hy
      · cases hy
        rw [hnamed] at hn
        exact hne rfl (Option.some.inj hn)
    · rename_i hnamed
      refine ⟨h, ?_⟩
      rintro (hy | ⟨value', hy, hn⟩)
      · cases hy
      · cases hy
        rw [hnamed] at hn
        cases hn
  | fill q t =>
    simp only [step] at h
    split at h
    · rename_i ns' now' shards hl
      by_cases hq : q = p
      · subst hq
        simp only [Function.update_self, Dict.get?_set] at h
        split at h
        · rename_i hns
          cases h
          rw [hns]
          exact .inr ⟨t, rfl, hl⟩
        · exact .inl ⟨h, hother nofun nofun⟩
      · simp only [Function.update_of_ne (Ne.symm hq)] at h
        exact .inl ⟨h, hother nofun nofun⟩
    · exact .inl ⟨h, hother nofun nofun⟩

/-- What one event leaves of what a thread has listed. -/
theorem listed_step (h : (f.step X C x).listed p t = some (ns, ts, L)) :
    f.listed p t = some (ns, ts, L) ∨ x = .list p t ts ns ∧
    f.store.listByNamespace X C ns = some L := by
  have hset : ∀ q u l, (f.setListed q u l).listed p t = some (ns, ts, L) →
      f.listed p t = some (ns, ts, L) ∨ q = p ∧ u = t ∧ l = some (ns, ts, L) := by
    intro q u l h
    by_cases hq : q = p
    · subst hq
      by_cases hu : u = t
      · subst hu
        simp only [setListed, Function.update_self] at h
        exact .inr ⟨rfl, rfl, h⟩
      · simp only [setListed, Function.update_self, Function.update_of_ne (Ne.symm hu)] at h
        exact .inl h
    · simp only [setListed, Function.update_of_ne (Ne.symm hq)] at h
      exact .inl h
  cases x with
  | store call => exact .inl h
  | invalidate q ns' => exact .inl h
  | deliver q value =>
    change (f.onEvent X q value).listed p t = _ at h
    rw [onEvent] at h
    split at h <;> exact .inl h
  | list q u now ns' =>
    rcases hset q u _ h with h | ⟨rfl, rfl, hmap⟩
    · exact .inl h
    · obtain ⟨shards, hl, he⟩ := Option.map_eq_some_iff.mp hmap
      cases he
      exact .inr ⟨rfl, hl⟩
  | fill q u =>
    simp only [step] at h
    split at h
    · rcases hset q u none h with h | ⟨-, -, h⟩
      · exact .inl h
      · cases h
    · exact .inl h

theorem cacheTtl_step (f : GossipFleet P T) (x : GossipEvent P T) :
    (f.step X C x).cacheTtl = f.cacheTtl := by
  cases x with
  | deliver p value =>
    show (f.onEvent X p value).cacheTtl = _
    rw [onEvent]
    split <;> rfl
  | fill p t =>
    simp only [step]
    split <;> rfl
  | _ => rfl

theorem traced_after (e : Etcd3Store) (cacheTtl : ℚ) (events : List (GossipEvent P T)) :
    Traced X C (start e cacheTtl) events (after X C (start e cacheTtl) events) ∧
      (after X C (start e cacheTtl : GossipFleet P T) events).cacheTtl = cacheTtl := by
  induction events using List.reverseRecOn with
  | nil => exact ⟨⟨fun _ _ _ _ _ h => (nomatch h), fun _ _ _ _ h => (nomatch h)⟩, rfl⟩
  | append_singleton events x ih =>
    obtain ⟨hi, httl⟩ := ih
    rw [after_append]
    refine ⟨⟨fun p t ns ts L h => ?_, fun p ns ts L h => ?_⟩, ?_⟩
    · rcases listed_step h with hold | ⟨rfl, hnew⟩
      · obtain ⟨reading, hlisted⟩ := hi.listed p t ns ts L hold
        exact ⟨_, hlisted.snoc x⟩
      · exact ⟨[], events, rfl, hnew⟩
    · rcases cache_step h with ⟨hold, hnot⟩ | ⟨t, rfl, hnew⟩
      · obtain ⟨t, reading, later, hlisted, hlater⟩ := hi.cache p ns ts L hold
        refine ⟨t, reading, later ++ [x], by simpa using hlisted.snoc x, fun y hy => ?_⟩
        rcases List.mem_append.mp hy with hy | hy
        · exact hlater y hy
        · rw [List.mem_singleton.mp hy]
          exact hnot
      · obtain ⟨reading, hlisted⟩ := hi.listed p t ns ts L hnew
        exact ⟨t, reading, [], hlisted.snoc _, fun y hy => absurd hy List.not_mem_nil⟩
    · exact (cacheTtl_step _ x).trans httl

/-- Whatever the threads and the watch do between each other's steps: a list that a router uses is
what one of its threads was given by the store less than the time to live ago and then cached, and
the cache has not been emptied since. -/
theorem used_traced (e : Etcd3Store) (cacheTtl : ℚ) (events : List (GossipEvent P T)) (p : P)
    (now : ℚ) (ns : String) (L : List Shard)
    (h : (after X C (start e cacheTtl) events).used p now ns = some L) :
    ∃ t ts reading later, ListedBy X C (start e cacheTtl) p t ns ts L
      (reading ++ .fill p t :: later) events ∧
      now - ts < cacheTtl ∧ ∀ x ∈ later, ¬ Forgets X p ns x := by
  obtain ⟨hi, httl⟩ := traced_after (X := X) (C := C) (P := P) (T := T) e cacheTtl events
  unfold used at h
  split at h
  · rename_i ts shards hc
    split at h
    · rename_i hlt
      cases h
      obtain ⟨t, reading, later, hlisted, hlater⟩ := hi.cache p ns ts L hc
      exact ⟨t, ts, reading, later, hlisted, httl ▸ hlt, hlater⟩
    · cases h
  · cases h

/-- A thread that is not disturbed does what `CachedRouter.getShardsCached` does in one step. -/
theorem undisturbed {r : CachedRouter} (hcache : f.cache p = r.cache)
    (httl : f.cacheTtl = r.cacheTtl)
    (hstore : f.store.listByNamespace X C ns = some (r.etcd.listByNamespace ns)) :
    (∀ L, f.used p now ns = some L → r.getShardsCached now ns = (r, L)) ∧
      (f.used p now ns = none →
        ((f.step X C (.list p t now ns)).step X C (.fill p t)).cache p =
          (r.getShardsCached now ns).1.cache ∧
          (f.step X C (.list p t now ns)).listed p t =
            some (ns, now, (r.getShardsCached now ns).2)) := by
  have hlisted : (f.step X C (.list p t now ns)).listed p t =
      some (ns, now, r.etcd.listByNamespace ns) := by
    simp only [step, setListed, Function.update_self, hstore, Option.map_some]
  have hfilled : ((f.step X C (.list p t now ns)).step X C (.fill p t)).cache p =
      r.cache.set ns (now, r.etcd.listByNamespace ns) := by
    have hfill : ∀ g : GossipFleet P T, ∀ l, g.listed p t = some (ns, now, l) →
        (g.step X C (.fill p t)).cache p = (g.cache p).set ns (now, l) := by
      intro g l hg
      simp only [step, hg, Function.update_self]
    rw [hfill _ _ hlisted, ← hcache]
    rfl
  unfold used CachedRouter.getShardsCached
  rw [hcache, httl, hlisted, hfilled]
  rcases r.cache.get? ns with _ | ⟨ts, shards⟩
  · exact ⟨fun L h => (nomatch h), fun _ => ⟨rfl, rfl⟩⟩
  · dsimp only
    split
    · exact ⟨fun L h => congrArg (Prod.mk r) (Option.some.inj h), fun h => (nomatch h)⟩
    · exact ⟨fun L h => (nomatch h), fun _ => ⟨rfl, rfl⟩⟩

/-! ## What it may lack, and have too much -/

/-- What an event does to the shards. -/
def eventShards (d : Dict String Shard) : GossipEvent P T → Dict String Shard
  | .store call => shardsAfter d call
  | _ => d

theorem readable_after {e : Etcd3Store} {d : Dict String Shard} (hd : Readable X e d) (cacheTtl : ℚ)
    (events : List (GossipEvent P T)) :
    Readable X (after X C (start e cacheTtl) events).store (events.foldl eventShards d) := by
  induction events using List.reverseRecOn with
  | nil => exact hd
  | append_singleton events x ih =>
    rw [after_append, List.foldl_append]
    cases x with
    | store call => exact ih.call call
    | deliver q value =>
      show Readable X ((after X C (start e cacheTtl) events).onEvent X q value).store _
      rw [onEvent]
      split <;> exact ih
    | fill q t =>
      show Readable X ((after X C (start e cacheTtl) events).step X C (.fill q t)).store _
      simp only [step]
      split <;> exact ih
    | _ => exact ih

omit [DecidableEq P] [DecidableEq T] in
/-- A shard that is new was put. -/
theorem put_of_new {d : Dict String Shard} {l : List (GossipEvent P T)} {s : Shard}
    (h : (l.foldl eventShards d).get? s.id = some s) :
    d.get? s.id = some s ∨ .store (.put s) ∈ l := by
  induction l generalizing d with
  | nil => exact .inl h
  | cons x l ih =>
    rcases ih h with h | h
    · cases x with
      | store call =>
        cases call with
        | put s' =>
          simp only [eventShards, shardsAfter, Dict.get?_set] at h
          split at h
          · cases h
            exact .inr List.mem_cons_self
          · exact .inl h
        | delete id =>
          simp only [eventShards, shardsAfter, Dict.get?_pop] at h
          split at h
          · cases h
          · exact .inl h
        | _ => exact .inl h
      | _ => exact .inl h
    · exact .inr (List.mem_cons_of_mem _ h)

omit [DecidableEq P] [DecidableEq T] in
/-- A shard that is gone was deleted, or another was put in its place. -/
theorem removed_of_gone {d : Dict String Shard} {l : List (GossipEvent P T)} {s : Shard}
    (h : d.get? s.id = some s) :
    (l.foldl eventShards d).get? s.id = some s ∨ .store (.delete s.id) ∈ l ∨
      ∃ s', s' ≠ s ∧ s'.id = s.id ∧ .store (.put s') ∈ l := by
  induction l generalizing d with
  | nil => exact .inl h
  | cons x l ih =>
    have hrest : (eventShards d x).get? s.id = some s →
        (((x :: l).foldl eventShards d).get? s.id = some s ∨
        .store (.delete s.id) ∈ x :: l ∨ ∃ s', s' ≠ s ∧ s'.id = s.id ∧
          .store (.put s') ∈ x :: l) := by
      intro hx
      rcases ih hx with h | h | ⟨s', hne, hid, h⟩
      · exact .inl h
      · exact .inr (.inl (List.mem_cons_of_mem _ h))
      · exact .inr (.inr ⟨s', hne, hid, List.mem_cons_of_mem _ h⟩)
    cases x with
    | store call =>
      cases call with
      | put s' =>
        by_cases hid : s'.id = s.id
        · by_cases hs : s' = s
          · rw [hs] at hrest ⊢
            exact hrest (Dict.get?_set_self _ _ _)
          · exact .inr (.inr ⟨s', hs, hid, List.mem_cons_self⟩)
        · exact hrest ((Dict.get?_set_ne _ _ (Ne.symm hid)).trans h)
      | delete id =>
        by_cases hid : id = s.id
        · rw [hid]
          exact .inr (.inl List.mem_cons_self)
        · exact hrest ((Dict.get?_pop_ne _ (Ne.symm hid)).trans h)
      | _ => exact hrest h
    | _ => exact hrest h

/-- Where the watch has delivered every put of the namespace: a list that a router uses lacks no
shard but those that were put while it was being read, and has none too much but those that since
then were deleted, moved to another namespace, or replaced while it was being read. -/
theorem used_behind (hX : X.FloatReads) (hC : C.Lawful) {e : Etcd3Store} {d : Dict String Shard}
    (hd : Readable X e d)
    (cacheTtl : ℚ) (events : List (GossipEvent P T)) (p : P) (now : ℚ) (ns : String)
    (L : List Shard) (hns : ns ≠ "")
    (hdelivered : ∀ before s rest, events = before ++ .store (.put s) :: rest → s.ns = ns →
      .deliver p (shardText X s) ∈ rest)
    (h : (after X C (start e cacheTtl) events).used p now ns = some L) :
    ∃ t ts reading later, ListedBy X C (start e cacheTtl) p t ns ts L
      (reading ++ .fill p t :: later) events ∧
      now - ts < cacheTtl ∧
      (∀ s, Lists X C (after X C (start e cacheTtl) events).store ns s →
        s ∈ L ∨ .store (.put s) ∈ reading) ∧
      ∀ s ∈ L, Lists X C (after X C (start e cacheTtl) events).store ns s ∨
        .store (.delete s.id) ∈ reading ++ later ∨
        ∃ s', s' ≠ s ∧ s'.id = s.id ∧
          (.store (.put s') ∈ reading ∨ .store (.put s') ∈ later ∧ s'.ns ≠ ns) := by
  obtain ⟨t, ts, reading, later, hlisted, hlt, hlater⟩ := used_traced e cacheTtl events p now ns L h
  refine ⟨t, ts, reading, later, hlisted, hlt, ?_⟩
  obtain ⟨before, hevents, hlist⟩ := hlisted
  have hthen := readable_after (C := C) hd cacheTtl before
  have hnow := readable_after (C := C) hd cacheTtl events
  set dthen := before.foldl eventShards d with hdthen
  have hfold : events.foldl eventShards d = (reading ++ .fill p t :: later).foldl
      eventShards dthen := by
    rw [hevents, List.foldl_append]
    rfl
  rw [hfold] at hnow
  obtain ⟨l, hl, hmem⟩ := hthen.listByNamespace hX hC ns
  rw [hlist] at hl
  obtain rfl := Option.some.inj hl
  -- a put that was delivered after the list was cached would have emptied the cache
  have hlate : ∀ s, .store (.put s) ∈ later → s.ns ≠ ns := by
    intro s hs hsns
    obtain ⟨l1, l2, rfl⟩ := List.append_of_mem hs
    have hdel := hdelivered (before ++ .list p t ts ns :: (reading ++ .fill p t :: l1)) s l2
      (by rw [hevents]; simp) hsns
    exact hlater _ (by simp [hdel]) (.inr ⟨_, rfl, hsns ▸ namedBy_shardText hX (hsns.symm ▸ hns)⟩)
  have hsplit : ∀ c : StoreCall, .store c ∈ reading ++ GossipEvent.fill p t :: later →
      .store c ∈ reading ∨ GossipEvent.store c ∈ later := by
    intro c hc
    rcases List.mem_append.mp hc with hc | hc
    · exact .inl hc
    · exact .inr ((List.mem_cons.mp hc).resolve_left nofun)
  refine ⟨fun s hs => ?_, fun s hs => ?_⟩
  · obtain ⟨hget, hsns⟩ := (hnow.lists_iff hX hC).mp hs
    rcases put_of_new hget with hget | hput
    · exact .inl ((hmem s).mpr ⟨hget, hsns⟩)
    · exact .inr ((hsplit _ hput).resolve_right fun hput => hlate s hput hsns)
  · obtain ⟨hget, hsns⟩ := (hmem s).mp hs
    rcases removed_of_gone (l := reading ++ .fill p t :: later)
      hget with hget | hdelete | ⟨s', hne, hid, hput⟩
    · exact .inl ((hnow.lists_iff hX hC).mpr ⟨hget, hsns⟩)
    · exact .inr (.inl (List.mem_append.mpr (hsplit _ hdelete)))
    · refine .inr (.inr ⟨s', hne, hid, ?_⟩)
      rcases hsplit _ hput with hput | hput
      · exact .inl hput
      · exact .inr ⟨hput, hlate s' hput⟩

section

private def newShard : Shard := ⟨"docs#shard-000", "docs", "node-0", .active, 0, 50000000000, [], 1⟩

/-- The shard is put, and the watch delivers it, while a thread is about to cache that there is
none. -/
private def lateFill : List (GossipEvent Unit Unit) :=
  [.list () () 0 "docs", .store (.put newShard),
    .deliver () (shardText readable newShard), .fill () ()]

private theorem lateFill_used :
    (after readable listingClient (start ⟨∅⟩ 5 : GossipFleet Unit Unit) lateFill).used () 1
      "docs" = some [] := by
  decide +kernel

theorem empty_list_traced : ∃ t ts reading later,
    ListedBy readable listingClient (start ⟨∅⟩ 5 : GossipFleet Unit Unit) () t "docs" ts []
      (reading ++ .fill () t :: later)
      lateFill ∧ 1 - ts < 5 ∧ ∀ x ∈ later, ¬ Forgets readable () "docs" x :=
  used_traced ⟨∅⟩ 5 lateFill () 1 "docs" [] lateFill_used

theorem empty_list_behind : ∃ t ts reading later,
    ListedBy readable listingClient (start ⟨∅⟩ 5 : GossipFleet Unit Unit) () t "docs" ts []
      (reading ++ .fill () t :: later)
      lateFill ∧ 1 - ts < 5 ∧
      (∀ s, Lists readable listingClient
        (after readable listingClient (start ⟨∅⟩ 5 : GossipFleet Unit Unit) lateFill).store
        "docs" s → s ∈ ([] : List Shard) ∨ .store (.put s) ∈ reading) ∧
      ∀ s ∈ ([] : List Shard), Lists readable listingClient
          (after readable listingClient (start ⟨∅⟩ 5 : GossipFleet Unit Unit) lateFill).store
            "docs" s ∨
        .store (.delete s.id) ∈ reading ++ later ∨
        ∃ s', s' ≠ s ∧ s'.id = s.id ∧
          (.store (.put s') ∈ reading ∨ .store (.put s') ∈ later ∧ s'.ns ≠ "docs") := by
  have hdelivered : ∀ before s rest, lateFill = before ++ .store (.put s) :: rest → s.ns = "docs" →
      .deliver () (shardText readable s) ∈ rest := by
    intro before s rest h _
    rcases before with _ | ⟨a, _ | ⟨b, _ | ⟨c, _ | ⟨d, before⟩⟩⟩⟩
    all_goals simp [lateFill] at h
    obtain ⟨-, rfl, rfl⟩ := h
    exact List.mem_cons_self
  have hempty : Readable readable ⟨∅⟩ ∅ := by
    refine ⟨fun _ => rfl, fun id s h => ?_⟩
    cases h
  exact used_behind readable_floatReads listingClient_lawful hempty 5 lateFill () 1 "docs" []
    (by decide) hdelivered lateFill_used

end

end GossipFleet

end Vsector.Sharding
