import Vsector.Proof.Sharding.Gossip
import Vsector.Proof.Sharding.Router

/-!
# When the old owner stops taking writes

A process decides by a list of shards that may be as old as the time to live
whether a write is its own. When a shard is given to another node, the old
owner may take writes for it until then, but not any longer
(`old_owner_refuses`): no list that is still used was listed before. The
watch is not needed for this, nor is anything delivered to the old owner.
-/

namespace Vsector.Sharding

open Framework Models

variable {X : Externals} {C : EtcdClient}

namespace ShardRouter

variable {validate : Shard → Except Exc Unit} {shards : List Shard} {nodes : List String}
  {ns recordId node : String} {owner : Option String} {s : Shard}

/-- The write decision of `routeWrite`, over the store's list. -/
theorem routeWrite_eq_among (r : ShardRouter) :
    r.routeWrite X ns recordId owner = routeWriteAmong X r.validateOwner (r.etcd.listByNamespace ns)
      (((r.etcd.listByNamespace ns).filter fun s => s.id ≠ "").map Shard.id) ns recordId owner := by
  unfold routeWrite routeWriteAmong select CachedRouter.selectAmong
  dsimp only
  by_cases hnil : r.etcd.listByNamespace ns = []
  · rw [if_pos hnil]
    exact (if_pos hnil).symm
  · rw [if_neg hnil]
    exact (if_neg hnil).symm

theorem writable_eq_among (r : ShardRouter) :
    r.writable ns owner = writableAmong (r.etcd.listByNamespace ns) ns owner := rfl

theorem owner_of_checkOwner (h : checkOwner ns s (some node) = .ok ()) : s.nodeId = node := by
  unfold checkOwner Shard.requireOwner at h
  by_cases hempty : s.nodeId = ""
  · rw [if_pos hempty] at h
    cases h
  · rw [if_neg hempty] at h
    dsimp only at h
    by_contra hne
    rw [if_pos hne] at h
    cases h

theorem selectAmong_mem {active : List Shard}
    (h : CachedRouter.selectAmong X active nodes ns recordId = .ok s) : s ∈ active := by
  unfold CachedRouter.selectAmong at h
  split at h
  · cases h
  · split at h
    · rename_i t ht
      cases h
      exact List.mem_of_find?_eq_some ht
    · split at h
      · cases h
        exact List.mem_cons_self
      · cases h

theorem routeWriteAmong_ok
    (h : routeWriteAmong X validate shards nodes ns recordId (some node) = .ok s) :
    s ∈ shards ∧ s.nodeId = node := by
  unfold routeWriteAmong at h
  split at h
  · cases h
  · split at h
    · cases h
    · rename_i t ht
      split at h
      · cases h
      · split at h
        · cases h
        · rcases hc : checkOwner ns t (some node) with exc | ⟨⟩
          · rw [hc] at h
            cases h
          · rw [hc] at h
            cases h
            exact ⟨(List.mem_filter.mp (selectAmong_mem ht)).1, owner_of_checkOwner hc⟩

theorem writableAmong_ok {l : List Shard} (h : writableAmong shards ns (some node) = .ok l) :
    ∀ s ∈ l, s ∈ shards ∧ s.nodeId = node := by
  induction shards generalizing l with
  | nil =>
    cases h
    exact fun s hs => absurd hs List.not_mem_nil
  | cons t shards ih =>
    rw [writableAmong, List.mapM_cons] at h
    by_cases hactive : t.state ≠ .active
    · rw [if_pos hactive] at h
      cases h
    · rw [if_neg hactive] at h
      rcases hc : checkOwner ns t (some node) with exc | ⟨⟩
      · rw [hc] at h
        cases h
      · rw [hc] at h
        rcases hrest : writableAmong shards ns (some node) with exc | rest
        · rw [writableAmong] at hrest
          rw [hrest] at h
          cases h
        · have hr := hrest
          rw [writableAmong] at hrest
          rw [hrest] at h
          cases h
          intro s hs
          rcases List.mem_cons.mp hs with rfl | hs
          · exact ⟨List.mem_cons_self, owner_of_checkOwner hc⟩
          · obtain ⟨hmem, howner⟩ := ih hr s hs
            exact ⟨List.mem_cons_of_mem _ hmem, howner⟩

end ShardRouter

namespace GossipFleet

open Etcd3Store

variable {P T : Type} [DecidableEq P] [DecidableEq T] {node : String}

omit [DecidableEq P] [DecidableEq T] in
/-- As long as no call gives the shard to the node, it is not the node's. -/
theorem not_owned {d : Dict String Shard} {id : String} {events : List (GossipEvent P T)}
    (hd : ∀ s, d.get? id = some s → s.nodeId ≠ node)
    (hputs : ∀ s, .store (.put s) ∈ events → s.id = id → s.nodeId ≠ node) :
    ∀ s, (events.foldl eventShards d).get? id = some s → s.nodeId ≠ node := by
  induction events generalizing d with
  | nil => exact hd
  | cons x events ih =>
    refine ih ?_ fun s hs => hputs s (List.mem_cons_of_mem _ hs)
    intro s hs
    cases x with
    | store call =>
      cases call with
      | put s' =>
        simp only [eventShards, shardsAfter, Dict.get?_set] at hs
        split at hs
        · rename_i hid
          cases hs
          exact hputs s List.mem_cons_self hid.symm
        · exact hd s hs
      | delete id' =>
        simp only [eventShards, shardsAfter, Dict.get?_pop] at hs
        split at hs
        · cases hs
        · exact hd s hs
      | _ => exact hd s hs
    | _ => exact hd s hs

/-- A list that a call is given was listed at most the time to live before the call began. -/
theorem given_listed {e : Etcd3Store} {cacheTtl : ℚ} (httl : 0 < cacheTtl)
    {events : List (GossipEvent P T)} {p : P} {now : ℚ} {ns : String} {L : List Shard}
    (h : (after X C (start e cacheTtl) events).Given p now ns L) :
    ∃ t ts rest, ListedBy X C (start e cacheTtl) p t ns ts L rest events ∧ now - ts < cacheTtl := by
  rcases h with hused | ⟨t, hlisted⟩
  · obtain ⟨t, ts, reading, later, hlisted, hlt, -⟩ :=
      used_traced e cacheTtl events p now ns L hused
    exact ⟨t, ts, _, hlisted, hlt⟩
  · obtain ⟨reading, hlisted⟩ :=
      (traced_after (X := X) (C := C) e cacheTtl events).1.listed p t ns now L hlisted
    exact ⟨t, now, reading, hlisted, by rwa [sub_self]⟩

/-- Once the time to live has passed since a shard was put with another owner, the node that owned
it before takes no upsert and no delete for it, by whichever list a process of it is given. -/
theorem old_owner_refuses (hX : X.FloatReads) (hC : C.Lawful) {e : Etcd3Store}
    {d : Dict String Shard} (hd : Readable X e d) {cacheTtl : ℚ} (httl : 0 < cacheTtl)
    (before later : List (GossipEvent P T)) (moved : Shard) (movedAt : ℚ)
    (hmoved : moved.nodeId ≠ node) (hclock : ∀ p t ts ns, .list p t ts ns ∈ before → ts ≤ movedAt)
    (hstays : ∀ s, .store (.put s) ∈ later → s.id = moved.id → s.nodeId ≠ node) (p : P) (now : ℚ)
    (ns : String) (L : List Shard) (hnow : movedAt + cacheTtl ≤ now)
    (hgiven : (after X C (start e cacheTtl)
      (before ++ .store (.put moved) :: later)).Given p now ns L) :
    (∀ validate nodes recordId s,
      ShardRouter.routeWriteAmong X validate L nodes ns recordId (some node) = .ok s →
      s.id ≠ moved.id) ∧
      ∀ l, ShardRouter.writableAmong L ns (some node) = .ok l → ∀ s ∈ l, s.id ≠ moved.id := by
  obtain ⟨t, ts, rest, ⟨start', hevents, hlist⟩, hlt⟩ := given_listed httl hgiven
  have hlate : movedAt < ts := by linarith
  -- the list is younger than the move
  obtain ⟨between, hstart', hbetween⟩ :
      ∃ between, start' = before ++ .store (.put moved) :: between ∧ between <+: later := by
    rcases List.append_eq_append_iff.mp hevents with ⟨l, hl, hl'⟩ | ⟨l, hl, hl'⟩
    · rcases l with _ | ⟨x, l⟩
      · cases hl'
      · obtain ⟨hx, hl''⟩ := List.cons.inj hl'
        exact ⟨l, by rw [hl, ← hx], ⟨_, hl''.symm⟩⟩
    · rcases l with _ | ⟨x, l⟩
      · cases hl'
      · obtain ⟨hx, -⟩ := List.cons.inj hl'
        have hmem : .list p t ts ns ∈ before := by rw [hl, ← hx]; simp
        exact absurd (hclock p t ts ns hmem) (not_le.mpr hlate)
  have hnone : ∀ s ∈ L, s.id = moved.id → s.nodeId ≠ node := by
    have hthen := readable_after (C := C) hd cacheTtl start'
    obtain ⟨l, hl, hmem⟩ := hthen.listByNamespace hX hC ns
    rw [hlist] at hl
    obtain rfl := Option.some.inj hl
    intro s hs hid
    obtain ⟨hget, -⟩ := (hmem s).mp hs
    rw [hstart', List.foldl_append, List.foldl_cons, hid] at hget
    refine not_owned (d := eventShards (before.foldl eventShards d) (.store (.put moved))) ?_
      (fun s hs => hstays s (hbetween.subset hs)) s hget
    intro s hs
    rw [eventShards, shardsAfter, Dict.get?_set_self] at hs
    cases hs
    exact hmoved
  refine ⟨fun validate nodes recordId s h hid => ?_, fun l h s hs hid => ?_⟩
  · obtain ⟨hs, howner⟩ := ShardRouter.routeWriteAmong_ok h
    exact hnone s hs hid howner
  · obtain ⟨hs, howner⟩ := ShardRouter.writableAmong_ok h s hs
    exact hnone s hs hid howner

section

private def ownedBy (node : String) : Shard :=
  ⟨"docs#shard-000", "docs", node, .active, 0, 50000000000, [], 1⟩

private def beforeMove : List (GossipEvent Unit Unit) :=
  [.store (.put (ownedBy "node-0")), .list () () 0 "docs", .fill () ()]

private def afterMove : List (GossipEvent Unit Unit) := [.list () () 5 "docs", .fill () ()]

/-- The shard moves at 3; at 8 the old owner has a list of the time 5. -/
theorem old_owner_refuses_at_8 :
    (∀ validate nodes recordId s,
      ShardRouter.routeWriteAmong readable validate [ownedBy "node-1"] nodes "docs" recordId
        (some "node-0") = .ok s → s.id ≠ "docs#shard-000") ∧
      ∀ l, ShardRouter.writableAmong [ownedBy "node-1"] "docs" (some "node-0") = .ok l → ∀ s ∈ l,
        s.id ≠ "docs#shard-000" := by
  have hempty : Readable readable ⟨∅⟩ ∅ := by
    refine ⟨fun _ => rfl, fun id s h => ?_⟩
    cases h
  have hclock : ∀ p t ts ns, .list p t ts ns ∈ beforeMove → ts ≤ 3 := by
    intro p t ts ns h
    simp only [beforeMove, List.mem_cons, List.not_mem_nil, or_false, reduceCtorEq, false_or] at h
    cases h
    norm_num
  have hstays : ∀ s, .store (.put s) ∈ afterMove → s.id = (ownedBy "node-1").id →
      s.nodeId ≠ "node-0" := by
    intro s h
    simp [afterMove] at h
  have hused : (after readable listingClient (start ⟨∅⟩ 5 : GossipFleet Unit Unit)
      (beforeMove ++ .store (.put (ownedBy "node-1")) :: afterMove)).used () 8 "docs" =
        some [ownedBy "node-1"] := by
    decide +kernel
  exact old_owner_refuses readable_floatReads listingClient_lawful hempty (by norm_num) beforeMove
    afterMove (ownedBy "node-1")
    3 (by decide) hclock hstays () 8 "docs" _ (by norm_num) (.inl hused)

end

end GossipFleet

end Vsector.Sharding
