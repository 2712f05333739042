import Vsector.Framework.Unwinding
import Vsector.Proof.Ingest.Elsewhere

/-!
# What an operation on a namespace depends on

Two services are alike for a namespace (`Alike`) if they have the same shards
of it, the same contexts for them and the same configuration. From such
services `upsert`, `delete` and `fetch` on the namespace return the same and
end in such services again, whatever else the two have: the replicas' state
and the counters of the replication are for nobody to see here.

`home` tells the namespace of every shard id, those of the halves of splits
included: an id is never used for two namespaces.
-/

namespace Vsector.Sharding

open Framework Models

namespace InMemoryEtcd

variable {e e' : InMemoryEtcd} {s : Shard} {home : String → String}

/-- Every shard is of the namespace that its id tells. -/
def Homed (home : String → String) (e : InMemoryEtcd) : Prop :=
  ∀ id s, e.get id = some s → s.ns = home id

theorem Homed.owned (h : Homed home e) (id : String) : Owned e (home id) id := h id

theorem Homed.setShard (h : Homed home e) (hs : home s.id = s.ns) : Homed home (e.setShard s) := by
  intro id t ht
  rw [get_setShard] at ht
  split at ht
  · rename_i hid
    cases ht
    rw [hid, hs]
  · exact h id t ht

theorem Homed.delete (h : Homed home e) (id : String) : Homed home (e.delete id) := by
  intro a t ht
  have hget : (e.live.shards.pop id).get? a = some t := ht
  rw [Dict.get?_pop] at hget
  split at hget
  · cases hget
  · exact h a t hget

/-- A shard takes the place of the one with its id, or comes last. -/
theorem listByNamespace_setShard (h : Owned e s.ns s.id) :
    (e.setShard s).listByNamespace s.ns =
      if s.id ∈ (e.listByNamespace s.ns).map Shard.id then
        (e.listByNamespace s.ns).map fun t => if t.id = s.id then s else t
      else e.listByNamespace s.ns ++ [s] := by
  have hmem : s.id ∈ (e.listByNamespace s.ns).map Shard.id ↔ (e.get s.id).isSome := by
    rw [List.mem_map]
    constructor
    · rintro ⟨t, ht, hid⟩
      rw [← hid, (mem_listByNamespace.mp ht).1]
      rfl
    · intro hsome
      obtain ⟨t, ht⟩ := Option.isSome_iff_exists.mp hsome
      have hid := shard_id ht
      exact ⟨t, mem_listByNamespace.mpr ⟨hid.symm ▸ ht, h t ht⟩, hid⟩
  cases hget : e.get s.id with
  | none =>
    rw [if_neg fun hin => by rw [hmem, hget] at hin; cases hin]
    exact listByNamespace_put hget
  | some old =>
    rw [if_pos (hmem.mpr (by rw [hget]; rfl))]
    obtain ⟨before, after, hold, hnew⟩ :=
      Dict.values_set_of_some (v := s) (show e.live.shards.get? s.id = some old from hget)
    have hns : old.ns = s.ns := h old hget
    have hcons : ∀ (t : Shard) (l : List Shard), t.ns = s.ns →
        (t :: l).filter (fun t => t.ns = s.ns) = t :: l.filter fun t => t.ns = s.ns := fun t l ht =>
      List.filter_cons_of_pos (decide_eq_true ht)
    have hlist : e.listByNamespace s.ns = before.filter (fun t => t.ns = s.ns) ++ old ::
        after.filter fun t => t.ns = s.ns := by
      rw [listByNamespace, hold, List.filter_append, hcons old after hns]
    have hset : (e.setShard s).listByNamespace s.ns =
        before.filter (fun t => t.ns = s.ns) ++ s :: after.filter fun t => t.ns = s.ns := by
      show (e.live.shards.set s.id s).values.filter _ = _
      rw [hnew, List.filter_append, hcons s after rfl]
    have hnodup := nodup_ids e s.ns
    rw [hlist, List.map_append, List.map_cons, List.nodup_append', List.nodup_cons,
      shard_id hget] at hnodup
    obtain ⟨-, ⟨hafter, -⟩, hbefore⟩ := hnodup
    have hkeep : ∀ l : List Shard, s.id ∉ l.map Shard.id →
        l.map (fun t => if t.id = s.id then s else t) = l := by
      intro l hl
      refine (List.map_congr_left fun t ht => ?_).trans (List.map_id l)
      exact if_neg fun hid => hl (List.mem_map.mpr ⟨t, ht, hid⟩)
    rw [hlist, hset, List.map_append, List.map_cons, if_pos (shard_id hget), hkeep _ fun hm =>
      hbefore hm List.mem_cons_self, hkeep _ hafter]

/-- The stores have the same shards of a namespace, and the same nodes. -/
structure Alike (home : String → String) (n : String) (e e' : InMemoryEtcd) : Prop where
  list : e'.listByNamespace n = e.listByNamespace n
  nodes : e'.live.nodes = e.live.nodes
  homed : Homed home e
  homed' : Homed home e'

theorem Alike.setShard {n : String} (h : Alike home n e e') (hs : s.ns = n) (hid : home s.id = n) :
    Alike home n (e.setShard s) (e'.setShard s) := by
  subst hs
  refine ⟨?_, h.nodes, h.homed.setShard hid, h.homed'.setShard hid⟩
  have ho := h.homed.owned s.id
  have ho' := h.homed'.owned s.id
  rw [hid] at ho ho'
  rw [listByNamespace_setShard ho, listByNamespace_setShard ho', h.list]

theorem Alike.put {n : String} (h : Alike home n e e') (hs : s.ns = n) (hid : home s.id = n) :
    Alike home n (e.put s) (e'.put s) := by
  have hset := h.setShard hs hid
  exact ⟨hset.list, hset.nodes, hset.homed, hset.homed'⟩

theorem Alike.delete {n : String} (h : Alike home n e e') (id : String) :
    Alike home n (e.delete id) (e'.delete id) := by
  refine ⟨?_, h.nodes, h.homed.delete id, h.homed'.delete id⟩
  rw [listByNamespace_delete, listByNamespace_delete, h.list]

end InMemoryEtcd

namespace ShardRouter

open InMemoryEtcd

variable {X : Externals} {r r' : ShardRouter} {home : String → String} {n recordId : String}

theorem validateOwner_congr (hnodes : r'.etcd.live.nodes = r.etcd.live.nodes)
    (hm : r'.membership = r.membership) (s : Shard) :
    r'.validateOwner s = r.validateOwner s := by
  unfold validateOwner Cluster.ClusterMembershipManager.validateNode getNode
  rw [hnodes, hm]

theorem select_congr (hlist : r'.etcd.listByNamespace n = r.etcd.listByNamespace n) :
    r'.select X n recordId = r.select X n recordId := by
  unfold select
  rw [hlist]

theorem route_congr (h : Alike home n r.etcd r'.etcd) (hm : r'.membership = r.membership) :
    r'.route X n recordId = r.route X n recordId := by
  unfold route
  rw [select_congr h.list]
  rcases r.select X n recordId with e | s
  · rfl
  · dsimp only
    rw [validateOwner_congr h.nodes hm]

theorem routeWrite_congr (h : Alike home n r.etcd r'.etcd) (hm : r'.membership = r.membership)
    (node : Option String) :
    r'.routeWrite X n recordId node = r.routeWrite X n recordId node := by
  unfold routeWrite
  rw [select_congr h.list]
  rcases r.select X n recordId with e | s
  · rfl
  · dsimp only
    rw [validateOwner_congr h.nodes hm]

/-- A split does the same to both stores. -/
theorem alike_maybeSplit (h : Alike home n r.etcd r'.etcd) (shard : Shard) (hs : shard.ns = n)
    {env : SplitEnv} (ha : home env.idA = n) (hb : home env.idB = n) :
    Alike home n (r.maybeSplit shard env).1.etcd (r'.maybeSplit shard env).1.etcd ∧
      (r.maybeSplit shard env).1.membership = r.membership ∧
      (r'.maybeSplit shard env).1.membership = r'.membership ∧
      (r'.maybeSplit shard env).2 = (r.maybeSplit shard env).2 := by
  have hsteps : ∀ (steps : List (InMemoryEtcd → InMemoryEtcd)) (e e' : InMemoryEtcd),
      Alike home n e e' →
      (∀ f ∈ steps, ∀ e e', Alike home n e e' → Alike home n (f e) (f e')) →
      Alike home n (steps.foldl (fun e f => f e) e) (steps.foldl (fun e f => f e) e') := by
    intro steps
    induction steps with
    | nil => exact fun e e' he _ => he
    | cons f steps ih =>
      exact fun e e' he hf => ih _ _ (hf f List.mem_cons_self e e' he) fun g hg =>
        hf g (List.mem_cons_of_mem _ hg)
  have hstep : ∀ (a b : Shard) (f : InMemoryEtcd → InMemoryEtcd),
      f ∈ [(·.put a), (·.put b), (·.delete shard.id)] →
      a.ns = n → b.ns = n → a.id = env.idA → b.id = env.idB →
      ∀ e e' : InMemoryEtcd, Alike home n e e' → Alike home n (f e) (f e') := by
    intro a b f hf hna hnb hia hib e e' he
    simp only [List.mem_cons, List.not_mem_nil, or_false] at hf
    rcases hf with rfl | rfl | rfl
    · exact he.put hna (by rw [hia, ha])
    · exact he.put hnb (by rw [hib, hb])
    · exact he.delete shard.id
  unfold maybeSplit
  split
  · exact ⟨h, rfl, rfl, rfl⟩
  · split
    · exact ⟨hsteps _ _ _ h fun f hf => hstep _ _ f hf hs hs rfl rfl, rfl, rfl, rfl⟩
    · exact ⟨hsteps _ _ _ h fun f hf => hstep _ _ f (List.mem_of_mem_take hf) hs hs rfl rfl,
        rfl, rfl, rfl⟩

end ShardRouter

end Vsector.Sharding

namespace Vsector.Ingest

open Framework Models Storage Sharding Index

namespace IngestService

variable {ι : Type} {X : Externals} {svc svc' : IngestService ι} {n : String} {shard : Shard}
  {home : String → String} {node : Option String} {T T' : Dict String UpsertResult}

/-- What the services have in common for a namespace. `T` and `T'` are their tables of idempotency
keys. -/
structure Alike (home : String → String) (node : Option String) (T T' : Dict String UpsertResult)
    (n : String) (svc svc' : IngestService ι) : Prop where
  settings : svc'.settings = svc.settings
  roots : svc'.roots = svc.roots
  membership : svc'.router.membership = svc.router.membership
  store : InMemoryEtcd.Alike home n svc.router.etcd svc'.router.etcd
  contexts : ∀ id, svc'.shards.get? (ctxKey n id) = svc.shards.get? (ctxKey n id)
  nodeId : svc.nodeId = node
  nodeId' : svc'.nodeId = node
  idempotency : svc.idempotency = T
  idempotency' : svc'.idempotency = T'

theorem Alike.setCtx (h : Alike home node T T' n svc svc') (key : String) (ctx : ShardContext ι) :
    Alike home node T T' n (svc.setCtx key ctx) (svc'.setCtx key ctx) where
  settings := h.settings
  roots := h.roots
  membership := h.membership
  store := h.store
  contexts id := by
    show (svc'.shards.set key ctx).get? _ = (svc.shards.set key ctx).get? _
    rw [Dict.get?_set, Dict.get?_set, h.contexts]
  nodeId := h.nodeId
  nodeId' := h.nodeId'
  idempotency := h.idempotency
  idempotency' := h.idempotency'

theorem Alike.setCount (h : Alike home node T T' n svc svc') (hs : shard.ns = n)
    (hid : home shard.id = n) (count : Nat) :
    Alike home node T T' n (svc.setCount shard count) (svc'.setCount shard count) :=
  ⟨h.settings, h.roots, h.membership,
    h.store.setShard (s := { shard with vectorCount := count }) hs hid, h.contexts, h.nodeId,
    h.nodeId', h.idempotency, h.idempotency'⟩

/-- The replicas may be in any state, and the replication counted in any way. -/
theorem Alike.replicated (h : Alike home node T T' n svc svc')
    (replicator replicator' : InProcessReplicaTransport ι)
    (stats stats' : Dict String ReplicationStats) :
    Alike home node T T' n { svc with replicator := replicator, replicationStats := stats }
      { svc' with replicator := replicator', replicationStats := stats' } :=
  ⟨h.settings, h.roots, h.membership, h.store, h.contexts, h.nodeId, h.nodeId',
    h.idempotency, h.idempotency'⟩

variable [BaseIndex ι]

theorem Alike.getOrCreateCtx (h : Alike home node T T' n svc svc') (hs : shard.ns = n)
    (hid : home shard.id = n) :
    (∃ e, svc.getOrCreateCtx X n shard = .error e ∧ svc'.getOrCreateCtx X n shard = .error e) ∨
      ∃ s s' ctx, svc.getOrCreateCtx X n shard = .ok (s, ctx) ∧
        svc'.getOrCreateCtx X n shard = .ok (s', ctx) ∧
        Alike home node T T' n s s' := by
  unfold IngestService.getOrCreateCtx
  rw [h.contexts, h.settings, h.roots]
  rcases svc.shards.get? (ctxKey n shard.id) with _ | ctx
  · dsimp only
    rcases svc.settings.metadata.get? n with _ | settings
    · exact .inl ⟨_, rfl, rfl⟩
    · dsimp only
      rcases ShardContext.init X shard settings svc.settings.memtableThreshold
        ((svc.roots.get? shard.id).getD ∅) with e | ctx
      · exact .inl ⟨e, rfl, rfl⟩
      · exact .inr ⟨_, _, ctx, rfl, rfl, (h.setCount hs hid _).setCtx _ ctx⟩
  · exact .inr ⟨svc, svc', ctx, rfl, rfl, h⟩

/-! ## upsert -/

/-- The local variables of two upserts; their results of the replication may differ. -/
structure AlikeUpserts (home : String → String) (node : Option String)
    (T T' : Dict String UpsertResult) (n : String) (s s' : UpsertState ι) : Prop where
  svc : Alike home node T T' n s.svc s'.svc
  upserted : s'.upserted = s.upserted
  errors : s'.errors = s.errors
  touched : s'.touched = s.touched
  keys : ∀ key ∈ s.touched.keys, IsKeyOf n key

theorem AlikeUpserts.upsertRecord {settings : Namespace} {s s' : UpsertState ι}
    (h : AlikeUpserts home node T T' n s s') (raw : Raw) (env : RecordEnv ι)
    (ha : home env.split.idA = n) (hb : home env.split.idB = n) :
    AlikeUpserts home node T T' n (upsertRecord X n settings s raw env)
      (upsertRecord X n settings s' raw env) := by
  obtain ⟨svc, upserted₀, errors₀, touched₀, replications⟩ := s
  obtain ⟨svc', upserted, errors, touched, replications'⟩ := s'
  obtain ⟨hsvc, hupserted, herrors, htouched, hkeys⟩ := h
  dsimp only at hsvc hupserted herrors htouched hkeys
  subst hupserted herrors htouched
  rcases hrec : parseRecord X n settings raw env.now env.uuid4 with e | rec
  · simp only [IngestService.upsertRecord, hrec]
    exact ⟨hsvc, rfl, rfl, rfl, hkeys⟩
  have hroute' : svc'.router.routeWrite X n rec.id.text svc'.nodeId = svc.router.routeWrite X n
      rec.id.text svc.nodeId := by
    rw [show svc'.nodeId = svc.nodeId from hsvc.nodeId'.trans hsvc.nodeId.symm]
    exact ShardRouter.routeWrite_congr hsvc.store hsvc.membership svc.nodeId
  rcases hroute : svc.router.routeWrite X n rec.id.text svc.nodeId with e | shard
  · rw [hroute] at hroute'
    simp only [IngestService.upsertRecord, hrec, hroute, hroute']
    exact ⟨hsvc, rfl, rfl, rfl, hkeys⟩
  rw [hroute] at hroute'
  have hmem := ShardRouter.routeWrite_mem hroute
  obtain ⟨hget, hns⟩ := InMemoryEtcd.mem_listByNamespace.mp hmem
  have hid : home shard.id = n := (hsvc.store.homed _ _ hget).symm.trans hns
  obtain ⟨e, hctx, hctx'⟩ | ⟨t, t', ctx, hctx, hctx', ht⟩ := hsvc.getOrCreateCtx (X := X) hns hid
  · simp only [IngestService.upsertRecord, hrec, hroute, hroute', hctx, hctx']
    exact ⟨hsvc, rfl, rfl, rfl, hkeys⟩
  have hkeys' : ∀ key ∈ (touched.add (ctxKey n shard.id)).keys, IsKeyOf n key := by
    intro key hk
    rcases mem_keys_add.mp hk with rfl | hk
    · exact ⟨_, rfl⟩
    · exact hkeys key hk
  rcases happly : ctx.applyUpsert X rec (some (X.modelDumpJson rec)) env.flush
    env.index with ⟨ctx', e | ⟨⟩⟩
  · simp only [IngestService.upsertRecord, hrec, hroute, hroute', hctx, hctx', happly]
    exact ⟨ht.setCtx _ ctx', rfl, rfl, rfl, hkeys'⟩
  have hcounted := (ht.setCtx (ctxKey n shard.id) ctx').setCount hns hid ctx'.shard.vectorCount
  rcases hbook : env.bookkeeping with _ | e
  · obtain ⟨hstore, hm, hm', hresult⟩ := ShardRouter.alike_maybeSplit hcounted.store
      { shard with vectorCount := ctx'.shard.vectorCount } hns ha hb
    rcases hsplit :
      ((t.setCtx (ctxKey n shard.id) ctx').setCount shard ctx'.shard.vectorCount).router.maybeSplit
      { shard with vectorCount := ctx'.shard.vectorCount } env.split with ⟨router, e | ⟨⟩⟩
    all_goals
      rcases hsplit' : ((t'.setCtx (ctxKey n shard.id) ctx').setCount shard
        ctx'.shard.vectorCount).router.maybeSplit
        { shard with vectorCount := ctx'.shard.vectorCount } env.split with ⟨router', r'⟩
      rw [hsplit, hsplit'] at hstore hresult
      rw [hsplit] at hm
      rw [hsplit'] at hm'
      cases hresult
      simp only [IngestService.upsertRecord, hrec, hroute, hroute', hctx, hctx', happly, hbook,
        recordReplicationStats, hsplit, hsplit']
      exact ⟨⟨hcounted.settings, hcounted.roots, hm'.trans (hcounted.membership.trans hm.symm),
        hstore, hcounted.contexts,
        hcounted.nodeId, hcounted.nodeId', hcounted.idempotency, hcounted.idempotency'⟩,
          rfl, rfl, rfl, hkeys'⟩
  · simp only [IngestService.upsertRecord, hrec, hroute, hroute', hctx, hctx', happly, hbook]
    exact ⟨hcounted.replicated _ _ _ _, rfl, rfl, rfl, hkeys'⟩

theorem AlikeUpserts.records {settings : Namespace} {s s' : UpsertState ι}
    (h : AlikeUpserts home node T T' n s s') {records : List (Raw × RecordEnv ι)}
    (hids : ∀ r ∈ records, home r.2.split.idA = n ∧ home r.2.split.idB = n) :
    AlikeUpserts home node T T' n
      (records.foldl (fun s r => IngestService.upsertRecord X n settings s r.1 r.2) s)
      (records.foldl (fun s r => IngestService.upsertRecord X n settings s r.1 r.2) s') := by
  induction records generalizing s s' with
  | nil => exact h
  | cons r records ih =>
    obtain ⟨ha, hb⟩ := hids r List.mem_cons_self
    exact ih (h.upsertRecord r.1 r.2 ha hb) fun r' hr' => hids r' (List.mem_cons_of_mem _ hr')

omit [BaseIndex ι] in
theorem Alike.flushLogs (h : Alike home node T T' n svc svc') {touched : PySet String}
    (hkeys : ∀ key ∈ touched.keys, IsKeyOf n key) :
    Alike home node T T' n (svc.flushLogs touched) (svc'.flushLogs touched) := by
  unfold IngestService.flushLogs
  generalize touched.keys = keys at hkeys
  induction keys generalizing svc svc' with
  | nil => exact h
  | cons key keys ih =>
    refine ih ?_ fun k hk => hkeys k (List.mem_cons_of_mem _ hk)
    obtain ⟨id, rfl⟩ := hkeys key List.mem_cons_self
    dsimp only
    rw [h.contexts]
    rcases svc.shards.get? (ctxKey n id) with _ | ctx
    · exact h
    · exact h.setCtx _ _

omit [BaseIndex ι] in
theorem Alike.flushIfFull (h : Alike home node T T' n svc svc') (background : String → FlushEnv)
    {key : String} (hk : IsKeyOf n key) :
    SameOutcome (Alike home node T T' n) (fun _ _ => True) (flushIfFull X background svc key)
      (flushIfFull X background svc' key) := by
  obtain ⟨id, rfl⟩ := hk
  unfold IngestService.flushIfFull
  rw [h.contexts]
  rcases svc.shards.get? (ctxKey n id) with _ | ctx
  · exact ⟨h, trivial⟩
  · dsimp only
    split
    · rcases ctx.flushMemtable X (background (ctxKey n id)) with ⟨ctx, e | ⟨⟩⟩
      · exact ⟨h.setCtx _ _, rfl⟩
      · exact ⟨h.setCtx _ _, trivial⟩
    · exact ⟨h, trivial⟩

omit [BaseIndex ι] in
/-- The tables of idempotency keys may be any. -/
theorem Alike.keyed (h : Alike home node T T' n svc svc')
    (table table' : Dict String UpsertResult) :
    Alike home node table table' n { svc with idempotency := table }
      { svc' with idempotency := table' } :=
  ⟨h.settings, h.roots, h.membership, h.store, h.contexts, h.nodeId, h.nodeId', rfl, rfl⟩

/-- What a caller is told of the records. -/
def outcome (r : UpsertResult) : Nat × List String × List UpsertError :=
  (r.upserted, r.ids, r.errors)

/-- The services are alike between operations; `keyHome` tells the namespace of every idempotency
key. -/
structure AlikeServices (home keyHome : String → String) (node : Option String) (n : String)
    (svc svc' : IngestService ι) :
    Prop where
  alike : Alike home node svc.idempotency svc'.idempotency n svc svc'
  keys : ∀ k, keyHome k = n →
    (svc'.idempotency.get? k).map outcome = (svc.idempotency.get? k).map outcome

variable {keyHome : String → String}

omit [BaseIndex ι] in
/-- An operation that leaves the keys alone. -/
theorem AlikeServices.of_alike (h : AlikeServices home keyHome node n svc svc')
    {t t' : IngestService ι} (ht : Alike home node svc.idempotency svc'.idempotency n t t') :
    AlikeServices home keyHome node n t t' := by
  refine ⟨?_, ?_⟩
  · rw [ht.idempotency, ht.idempotency']
    exact ht
  · rw [ht.idempotency, ht.idempotency']
    exact h.keys

theorem AlikeServices.upsert (h : AlikeServices home keyHome node n svc svc')
    (records : List (Raw × RecordEnv ι)) (key : Option String) (background : String → FlushEnv)
    (hids : ∀ r ∈ records, home r.2.split.idA = n ∧ home r.2.split.idB = n)
    (hkey : ∀ k ∈ key, keyHome k = n) :
    SameOutcome (AlikeServices home keyHome node n) (fun r r' => outcome r' = outcome r)
      (svc.upsert X n records key background) (svc'.upsert X n records key background) := by
  unfold IngestService.upsert
  dsimp only
  -- the key that is looked up, if there is one
  have hfound : ((key.filter (· ≠ "")).bind svc'.idempotency.get?).map outcome =
      ((key.filter (· ≠ "")).bind svc.idempotency.get?).map outcome := by
    rcases hk : key.filter (· ≠ "") with _ | k
    · rfl
    · exact h.keys k (hkey k (Option.filter_eq_some_iff.mp hk).1)
  rcases hold : (key.filter (· ≠ "")).bind svc.idempotency.get? with _ | r
  · have hold' : (key.filter (· ≠ "")).bind svc'.idempotency.get? = none := by
      rw [hold] at hfound
      exact Option.map_eq_none_iff.mp hfound
    rw [hold']
    dsimp only
    rw [h.alike.settings]
    rcases svc.settings.metadata.get? n with _ | settings
    · exact ⟨h, rfl⟩
    dsimp only
    split
    · exact ⟨h, rfl⟩
    have hstart : AlikeUpserts home node svc.idempotency svc'.idempotency n ⟨svc, [], [], ∅, []⟩
        ⟨svc', [], [], ∅, []⟩ :=
      ⟨h.alike, rfl, rfl, rfl, fun key hk => absurd hk List.not_mem_nil⟩
    have hrecords : AlikeUpserts home node svc.idempotency svc'.idempotency n
        (records.foldl (fun s r => IngestService.upsertRecord X n settings s r.1 r.2)
          ⟨svc, [], [], ∅, []⟩)
        (records.foldl (fun s r => IngestService.upsertRecord X n settings s r.1 r.2)
          ⟨svc', [], [], ∅, []⟩) :=
      hstart.records hids
    generalize records.foldl (fun s r => IngestService.upsertRecord X n settings s r.1 r.2)
      ⟨svc, [], [], ∅, []⟩ = s at hrecords
    generalize records.foldl (fun s r => IngestService.upsertRecord X n settings s r.1 r.2)
      ⟨svc', [], [], ∅, []⟩ = s' at hrecords
    have hflushed : SameOutcome (Alike home node svc.idempotency svc'.idempotency n)
        (fun _ _ => True)
        (forEach (flushIfFull X background) (s.svc.flushLogs s.touched) s.touched.keys)
        (forEach (flushIfFull X background) (s'.svc.flushLogs s.touched) s.touched.keys) :=
      sameOutcome_forEach (fun key hk t t' ht => ht.flushIfFull background (hrecords.keys key hk))
        (hrecords.svc.flushLogs hrecords.keys)
    rw [hrecords.touched, hrecords.upserted, hrecords.errors]
    rcases hf : forEach (flushIfFull X background) (s.svc.flushLogs s.touched)
      s.touched.keys with ⟨t, e | ⟨⟩⟩ <;>
      rcases hf' : forEach (flushIfFull X background) (s'.svc.flushLogs s.touched)
        s.touched.keys with ⟨t', e' | ⟨⟩⟩ <;>
      rw [hf, hf'] at hflushed
    · exact ⟨h.of_alike hflushed.1, hflushed.2⟩
    · exact hflushed.elim
    · exact hflushed.elim
    · refine ⟨⟨hflushed.1.keyed _ _, ?_⟩, rfl⟩
      dsimp only
      rw [hflushed.1.idempotency, hflushed.1.idempotency']
      rcases hk : key.filter (· ≠ "") with _ | k
      · exact h.keys
      · intro k' hk'
        dsimp only
        rw [Dict.get?_set, Dict.get?_set]
        split
        · rfl
        · exact h.keys k' hk'
  · rw [hold] at hfound
    obtain ⟨r', hr', hout⟩ := Option.map_eq_some_iff.mp hfound
    rw [hr']
    exact ⟨h, hout⟩

/-! ## delete -/

/-- The local variables of two deletes; their results of the replication may differ. -/
structure AlikeDeletes (home : String → String) (node : Option String)
    (T T' : Dict String UpsertResult) (n : String) (s s' : DeleteState ι) : Prop where
  svc : Alike home node T T' n s.svc s'.svc
  deleted : s'.deleted = s.deleted
  touched : s'.touched = s.touched
  keys : ∀ key ∈ s.touched.keys, IsKeyOf n key

omit [BaseIndex ι] in
/-- The context of a shard after a deletion on it. -/
theorem AlikeDeletes.erased {s s' : DeleteState ι} (h : AlikeDeletes home node T T' n s s')
    (id : String) (ctx : ShardContext ι) (replicator replicator' : InProcessReplicaTransport ι)
    (stats stats' : Dict String ReplicationStats) (repl repl' : List ReplicationResult) :
    AlikeDeletes home node T T' n
      ⟨{ s.svc.setCtx (ctxKey n id) ctx with replicator := replicator, replicationStats := stats },
        s.deleted + 1, s.touched.add (ctxKey n id), repl⟩
      ⟨{ s'.svc.setCtx (ctxKey n id) ctx with
        replicator := replicator', replicationStats := stats' }, s'.deleted + 1,
        s'.touched.add (ctxKey n id), repl'⟩ := by
  refine ⟨(h.svc.setCtx _ ctx).replicated _ _ _ _, congrArg (· + 1) h.deleted,
    congrArg (fun t => PySet.add t _) h.touched, ?_⟩
  intro key hk
  rcases mem_keys_add.mp hk with rfl | hk
  · exact ⟨_, rfl⟩
  · exact h.keys key hk

theorem AlikeDeletes.deleteId {settings : Namespace} {env : Nat → DeliveryEnv}
    {s s' : DeleteState ι} (h : AlikeDeletes home node T T' n s s') (id : String × Nat) :
    SameOutcome (AlikeDeletes home node T T' n)
      (fun _ _ => True) (deleteId X n settings shard env s id)
      (deleteId X n settings shard env s' id) := by
  unfold IngestService.deleteId
  dsimp only
  rw [h.svc.contexts]
  rcases s.svc.shards.get? (ctxKey n shard.id) with _ | ctx
  · exact ⟨h, trivial⟩
  · dsimp only
    rcases ctx.applyDelete X id.1 with ⟨ctx', e | ⟨⟩⟩
    · exact ⟨⟨h.svc.setCtx _ ctx', h.deleted, h.touched, h.keys⟩, rfl⟩
    · exact ⟨h.erased shard.id ctx' _ _ _ _ _ _, trivial⟩

theorem AlikeDeletes.deleteMatch {settings : Namespace} {filter : Query.Filter}
    {env : Nat → DeliveryEnv} {s s' : DeleteState ι} (h : AlikeDeletes home node T T' n s s')
    (rec : VectorRecord × Nat) :
    SameOutcome (AlikeDeletes home node T T' n)
      (fun _ _ => True) (deleteMatch X n settings shard filter env s rec)
      (deleteMatch X n settings shard filter env s' rec) := by
  unfold IngestService.deleteMatch
  dsimp only
  rw [h.svc.contexts]
  rcases Query.matchesFilter X rec.1.metadata filter with e | _ | _
  · exact ⟨h, rfl⟩
  · exact ⟨h, trivial⟩
  · rcases s.svc.shards.get? (ctxKey n shard.id) with _ | ctx
    · exact ⟨h, trivial⟩
    · exact ⟨h.erased shard.id _ _ _ _ _ _ _, trivial⟩

theorem AlikeDeletes.deleteOnShard {settings : Namespace} {ids : List String}
    {env : String → Nat → DeliveryEnv} {s s' : DeleteState ι}
    (h : AlikeDeletes home node T T' n s s') (hs : shard.ns = n) (hid : home shard.id = n) :
    SameOutcome (AlikeDeletes home node T T' n)
      (fun _ _ => True) (deleteOnShard X n settings ids env s shard)
      (deleteOnShard X n settings ids env s' shard) := by
  unfold IngestService.deleteOnShard
  obtain ⟨e, hctx, hctx'⟩ | ⟨t, t', ctx, hctx, hctx', ht⟩ := h.svc.getOrCreateCtx (X := X) hs hid
  · rw [hctx, hctx']
    exact ⟨h, rfl⟩
  · rw [hctx, hctx']
    exact sameOutcome_forEach (fun id _ _ _ hu => hu.deleteId id) ⟨ht, h.deleted, h.touched, h.keys⟩

theorem AlikeDeletes.deleteFilterOnShard {settings : Namespace} {filter : Query.Filter}
    {env : String → Nat → DeliveryEnv} {s s' : DeleteState ι}
    (h : AlikeDeletes home node T T' n s s') (hs : shard.ns = n) (hid : home shard.id = n) :
    SameOutcome (AlikeDeletes home node T T' n)
      (fun _ _ => True) (deleteFilterOnShard X n settings filter env s shard)
      (deleteFilterOnShard X n settings filter env s' shard) := by
  unfold IngestService.deleteFilterOnShard
  obtain ⟨e, hctx, hctx'⟩ | ⟨t, t', ctx, hctx, hctx', ht⟩ := h.svc.getOrCreateCtx (X := X) hs hid
  · rw [hctx, hctx']
    exact ⟨h, rfl⟩
  · rw [hctx, hctx']
    dsimp only
    rcases ctx.segments.scanAll X with e | records
    · exact ⟨⟨ht, h.deleted, h.touched, h.keys⟩, rfl⟩
    · exact sameOutcome_forEach (fun rec _ _ _ hu => hu.deleteMatch rec)
        ⟨ht, h.deleted, h.touched, h.keys⟩

omit [BaseIndex ι] in
theorem Alike.deleteOnShards (h : Alike home node T T' n svc svc')
    {block : Namespace → DeleteState ι → Shard → DeleteState ι × Except Exc Unit}
    (hblock : ∀ settings s s' shard, shard.ns = n → home shard.id = n →
      AlikeDeletes home node T T' n s s' → SameOutcome (AlikeDeletes home node T T' n)
    (fun _ _ => True) (block settings s shard) (block settings s' shard)) :
    SameOutcome (Alike home node T T' n) (fun r r' => r'.deleted = r.deleted)
      (svc.deleteOnShards n block)
      (svc'.deleteOnShards n block) := by
  have hwritable : svc'.router.writable n svc'.nodeId = svc.router.writable n svc.nodeId := by
    unfold ShardRouter.writable
    rw [h.store.list, show svc'.nodeId = svc.nodeId from h.nodeId'.trans h.nodeId.symm]
  unfold IngestService.deleteOnShards
  rw [h.settings, hwritable]
  rcases svc.settings.metadata.get? n with _ | settings
  · exact ⟨h, rfl⟩
  dsimp only
  rcases hw : svc.router.writable n svc.nodeId with e | shards
  · exact ⟨h, rfl⟩
  dsimp only
  have hshards : ∀ shard ∈ shards, shard.ns = n ∧ home shard.id = n := by
    intro shard hs
    rw [ShardRouter.writable_eq hw] at hs
    obtain ⟨hget, hns⟩ := InMemoryEtcd.mem_listByNamespace.mp hs
    exact ⟨hns, (h.store.homed _ _ hget).symm.trans hns⟩
  have hstart : AlikeDeletes home node T T' n ⟨svc, 0, ∅, []⟩ ⟨svc', 0, ∅, []⟩ :=
    ⟨h, rfl, rfl, fun key hk => absurd hk List.not_mem_nil⟩
  have hloop : SameOutcome (AlikeDeletes home node T T' n) (fun _ _ => True)
      (forEach (block settings) ⟨svc, 0, ∅, []⟩ shards)
        (forEach (block settings) ⟨svc', 0, ∅, []⟩ shards) :=
    sameOutcome_forEach (fun shard hs t t' ht =>
      hblock settings t t' shard (hshards shard hs).1 (hshards shard hs).2 ht) hstart
  rcases hf : forEach (block settings) ⟨svc, 0, ∅, []⟩ shards with ⟨t, e | ⟨⟩⟩ <;>
    rcases hf' : forEach (block settings) ⟨svc', 0, ∅, []⟩ shards with ⟨t', e' | ⟨⟩⟩
      <;> rw [hf, hf'] at hloop
  · exact ⟨hloop.1.svc, hloop.2⟩
  · exact hloop.elim
  · exact hloop.elim
  · refine ⟨?_, hloop.1.deleted⟩
    rw [hloop.1.touched]
    exact hloop.1.svc.flushLogs hloop.1.keys

theorem Alike.deleteRequest (h : Alike home node T T' n svc svc') (ids : Option (List String))
    (filter : Option Query.Filter) (env : String → Nat → DeliveryEnv) :
    SameOutcome (Alike home node T T' n) (fun r r' => r'.deleted = r.deleted)
      (svc.deleteRequest X n ids filter env)
      (svc'.deleteRequest X n ids filter env) := by
  unfold IngestService.deleteRequest
  split
  · rw [deleteByFilter_eq, deleteByFilter_eq]
    exact h.deleteOnShards fun _ _ _ _ hs hid ht => ht.deleteFilterOnShard hs hid
  · rw [delete_eq, delete_eq]
    exact h.deleteOnShards fun _ _ _ _ hs hid ht => ht.deleteOnShard hs hid

/-! ## fetch -/

theorem Alike.fetch (h : Alike home node T T' n svc svc') (ids : List String) :
    SameOutcome (Alike home node T T' n) (fun r r' => r' = r) (svc.fetch X n ids)
      (svc'.fetch X n ids) := by
  have hone : ∀ id ∈ ids, ∀ p p' : IngestService ι × List Payload,
      Alike home node T T' n p.1 p'.1 ∧ p'.2 = p.2 →
      SameOutcome (fun p p' => Alike home node T T' n p.1 p'.1 ∧ p'.2 = p.2)
        (fun _ _ => True) (fetchOne X n p id)
        (fetchOne X n p' id) := by
    rintro id - ⟨t, out⟩ ⟨t', out'⟩ ⟨ht, hout⟩
    dsimp only at ht hout
    subst hout
    have hroute' : t'.router.route X n id = t.router.route X n id :=
      ShardRouter.route_congr ht.store ht.membership
    rcases hroute : t.router.route X n id with e | shard
    · rw [hroute] at hroute'
      simp only [fetchOne, hroute, hroute']
      exact ⟨⟨ht, rfl⟩, rfl⟩
    rw [hroute] at hroute'
    obtain ⟨hget, hns⟩ := InMemoryEtcd.mem_listByNamespace.mp
      (ShardRouter.select_mem (ShardRouter.route_ok_iff.mp hroute).1)
    have hid : home shard.id = n := (ht.store.homed _ _ hget).symm.trans hns
    obtain ⟨e, hctx, hctx'⟩ | ⟨u, u', ctx, hctx, hctx', hu⟩ := ht.getOrCreateCtx (X := X) hns hid
    · simp only [fetchOne, hroute, hroute', hctx, hctx']
      exact ⟨⟨ht, rfl⟩, rfl⟩
    · simp only [fetchOne, hroute, hroute', hctx, hctx']
      rcases ctx.fetch X id with e | payload
      · exact ⟨⟨hu, rfl⟩, rfl⟩
      · exact ⟨⟨hu, rfl⟩, trivial⟩
  have hloop : SameOutcome (fun p p' : IngestService ι × List Payload =>
      Alike home node T T' n p.1 p'.1 ∧ p'.2 = p.2)
      (fun _ _ => True) (forEach (fetchOne X n) (svc, []) ids)
        (forEach (fetchOne X n) (svc', []) ids) :=
    sameOutcome_forEach hone ⟨h, rfl⟩
  unfold IngestService.fetch
  rcases hf : forEach (fetchOne X n) (svc, []) ids with ⟨⟨t, out⟩, e | ⟨⟩⟩ <;>
    rcases hf' : forEach (fetchOne X n) (svc', []) ids with ⟨⟨t', out'⟩, e' | ⟨⟩⟩
      <;> rw [hf, hf'] at hloop
  · exact ⟨hloop.1.1, hloop.2⟩
  · exact hloop.elim
  · exact hloop.elim
  · exact ⟨hloop.1.1, hloop.1.2⟩

end IngestService

end Vsector.Ingest
