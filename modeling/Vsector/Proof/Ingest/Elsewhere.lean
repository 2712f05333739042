import Vsector.Proof.Ingest.Service

/-!
# Operations on one namespace leave the others alone

What `upsert` and `delete` on a namespace may change: the shards of that
namespace in the store, and the contexts under its keys (`KeepsOthers`). The
identities of the halves of a split must be new, or the shards of another
namespace could be overwritten.
-/

namespace Vsector.Sharding

open Framework

namespace ShardRouter

open InMemoryEtcd

variable {X : Models.Externals} {r : ShardRouter} {ns recordId : String} {node : Option String}
  {shard : Shard}

variable (r shard) in
theorem keepsOthers_maybeSplit (env : SplitEnv) (hs : shard.ns = ns)
    (hid : Owned r.etcd ns shard.id) (ha : Owned r.etcd ns env.idA) (hb : Owned r.etcd ns env.idB) :
    InMemoryEtcd.KeepsOthers ns r.etcd (r.maybeSplit shard env).1.etcd := by
  have hput : ∀ (s : Shard) (e : InMemoryEtcd), s.ns = ns → Owned r.etcd ns s.id →
      InMemoryEtcd.KeepsOthers ns r.etcd e → InMemoryEtcd.KeepsOthers ns r.etcd (e.put s) :=
        fun s e hns ho he =>
    he.trans (keepsOthers_put hns (he.owned _ ho))
  have hstep : ∀ (a b : Shard) (f : InMemoryEtcd → InMemoryEtcd) (e : InMemoryEtcd),
      f ∈ [(·.put a), (·.put b), (·.delete shard.id)] → a.ns = ns → b.ns = ns → a.id = env.idA →
        b.id = env.idB →
      InMemoryEtcd.KeepsOthers ns r.etcd e → InMemoryEtcd.KeepsOthers ns r.etcd (f e) := by
    intro a b f e hf hna hnb hia hib he
    simp only [List.mem_cons, List.not_mem_nil, or_false] at hf
    rcases hf with rfl | rfl | rfl
    · exact hput a e hna (by rw [hia]; exact ha) he
    · exact hput b e hnb (by rw [hib]; exact hb) he
    · exact he.trans (keepsOthers_delete (he.owned _ hid))
  unfold maybeSplit
  split
  · exact .refl ns r.etcd
  · split
    · exact List.foldlRecOn _ _ (.refl ns r.etcd) fun e he f hf => hstep _ _ f e hf hs hs rfl rfl he
    · exact List.foldlRecOn _ _ (.refl ns r.etcd) fun e he f hf =>
        hstep _ _ f e (List.mem_of_mem_take hf) hs hs rfl rfl he

variable (r shard) in
theorem membership_maybeSplit (env : SplitEnv) :
    (r.maybeSplit shard env).1.membership = r.membership := by
  unfold maybeSplit
  split
  · rfl
  · split <;> rfl

end ShardRouter

end Vsector.Sharding

namespace Vsector.Ingest

open Framework Models Storage Sharding Index InMemoryEtcd

namespace IngestService

variable {ι : Type} {X : Externals} {svc svc' svc'' : IngestService ι} {ns key : String}
  {shard : Shard}

/-- A key of a context of the namespace. -/
def IsKeyOf (ns key : String) : Prop := ∃ id, key = ctxKey ns id

/-- The service after an operation on a namespace. -/
structure KeepsOthers (ns : String) (svc svc' : IngestService ι) : Prop where
  settings : svc'.settings = svc.settings
  roots : svc'.roots = svc.roots
  membership : svc'.router.membership = svc.router.membership
  store : InMemoryEtcd.KeepsOthers ns svc.router.etcd svc'.router.etcd
  contexts : ∀ key, ¬ IsKeyOf ns key → svc'.shards.get? key = svc.shards.get? key

theorem KeepsOthers.refl (ns : String) (svc : IngestService ι) : KeepsOthers ns svc svc :=
  ⟨rfl, rfl, rfl, .refl ns _, fun _ _ => rfl⟩

theorem KeepsOthers.trans (h : KeepsOthers ns svc svc') (h' : KeepsOthers ns svc' svc'') :
    KeepsOthers ns svc svc'' :=
  ⟨h'.settings.trans h.settings, h'.roots.trans h.roots, h'.membership.trans h.membership,
    h.store.trans h'.store, fun key hk => (h'.contexts key hk).trans (h.contexts key hk)⟩

/-- A change of a context of the namespace, and of what is no context. -/
theorem KeepsOthers.change (h : KeepsOthers ns svc svc') {ctx : ShardContext ι}
    (hk : IsKeyOf ns key) (hset : svc''.settings = svc'.settings)
    (hroots : svc''.roots = svc'.roots) (hr : svc''.router = svc'.router)
    (hs : svc''.shards = svc'.shards.set key ctx) : KeepsOthers ns svc svc'' where
  settings := hset.trans h.settings
  roots := hroots.trans h.roots
  membership := by rw [hr]; exact h.membership
  store := by rw [hr]; exact h.store
  contexts a ha := by
    rw [hs, Dict.get?_set_ne _ _ fun (he : a = key) => ha (he ▸ hk)]
    exact h.contexts a ha

theorem KeepsOthers.setCtx (h : KeepsOthers ns svc svc') {ctx : ShardContext ι}
    (hk : IsKeyOf ns key) :
    KeepsOthers ns svc (svc'.setCtx key ctx) := h.change hk rfl rfl rfl rfl

theorem KeepsOthers.setCount (h : KeepsOthers ns svc svc') (hs : shard.ns = ns)
    (ho : Owned svc'.router.etcd ns shard.id) (n : Nat) :
    KeepsOthers ns svc (svc'.setCount shard n) where
  settings := h.settings
  roots := h.roots
  membership := h.membership
  store := h.store.trans (keepsOthers_setShard (s := { shard with vectorCount := n }) hs ho)
  contexts := h.contexts

/-- What becomes of the router of the service. -/
structure KeepsRouter (ns : String) (svc : IngestService ι) (router : ShardRouter) : Prop where
  membership : router.membership = svc.router.membership
  store : InMemoryEtcd.KeepsOthers ns svc.router.etcd router.etcd

variable (shard) in
theorem KeepsOthers.maybeSplit (h : KeepsOthers ns svc svc') (env : SplitEnv) (hs : shard.ns = ns)
    (hid : Owned svc'.router.etcd ns shard.id) (ha : Owned svc'.router.etcd ns env.idA)
    (hb : Owned svc'.router.etcd ns env.idB) :
    svc.KeepsRouter ns (svc'.router.maybeSplit shard env).1 where
  membership := (ShardRouter.membership_maybeSplit svc'.router shard env).trans h.membership
  store := h.store.trans (ShardRouter.keepsOthers_maybeSplit svc'.router shard env hs hid ha hb)

variable [BaseIndex ι]

theorem KeepsOthers.getOrCreateCtx (h : KeepsOthers ns svc svc') {ctx : ShardContext ι}
    (hs : shard.ns = ns) (ho : Owned svc'.router.etcd ns shard.id)
    (hg : svc'.getOrCreateCtx X ns shard = .ok (svc'', ctx)) :
    KeepsOthers ns svc svc'' := by
  unfold IngestService.getOrCreateCtx at hg
  split at hg
  · cases hg
    exact h
  · split at hg
    · cases hg
    · split at hg
      · cases hg
      · cases hg
        exact (h.setCount hs ho _).setCtx ⟨_, rfl⟩

/-! ## upsert -/

/-- The local variables of `upsert` on a namespace, which began with `svc`. -/
structure UpsertKeeps (ns : String) (svc : IngestService ι) (s : UpsertState ι) : Prop where
  keeps : KeepsOthers ns svc s.svc
  touched : ∀ key ∈ s.touched.keys, IsKeyOf ns key

omit [BaseIndex ι] in
theorem mem_keys_add {s : PySet String} {a b : String} :
    a ∈ (s.add b).keys ↔ a = b ∨ a ∈ s.keys := by
  rw [← PySet.has_iff_mem_keys, ← PySet.has_iff_mem_keys, PySet.has_add]
  simp

theorem UpsertKeeps.upsertRecord {settings : Namespace} {s : UpsertState ι}
    (h : UpsertKeeps ns svc s) (raw : Raw) (env : RecordEnv ι)
    (ha : Owned svc.router.etcd ns env.split.idA) (hb : Owned svc.router.etcd ns env.split.idB) :
    UpsertKeeps ns svc (upsertRecord X ns settings s raw env) := by
  unfold IngestService.upsertRecord
  dsimp only
  split
  · exact ⟨h.keeps, h.touched⟩
  · rename_i rec hrec
    split
    · exact ⟨h.keeps, h.touched⟩
    · rename_i shard hroute
      have hmem := ShardRouter.routeWrite_mem hroute
      have hns := (mem_listByNamespace.mp hmem).2
      split
      · exact ⟨h.keeps, h.touched⟩
      · rename_i svc₁ ctx hg
        have h₁ : KeepsOthers ns s.svc svc₁ :=
          (KeepsOthers.refl ns s.svc).getOrCreateCtx hns (owned_of_mem hmem) hg
        have ho : Owned svc₁.router.etcd ns shard.id := h₁.store.owned _ (owned_of_mem hmem)
        have h₂ := h.keeps.trans h₁
        have htouched : ∀ key ∈ (s.touched.add (ctxKey ns shard.id)).keys, IsKeyOf ns key := by
          intro key hk
          rcases mem_keys_add.mp hk with rfl | hk
          · exact ⟨_, rfl⟩
          · exact h.touched key hk
        split
        · exact ⟨h₂.setCtx ⟨_, rfl⟩, htouched⟩
        · rename_i ctx' hu
          have h₃ : KeepsOthers ns svc ((svc₁.setCtx (ctxKey ns shard.id) ctx').setCount shard
              ctx'.shard.vectorCount) :=
            (h₂.setCtx ⟨_, rfl⟩).setCount hns ho _
          have ho₃ : Owned ((svc₁.setCtx (ctxKey ns shard.id) ctx').setCount shard
              ctx'.shard.vectorCount).router.etcd ns
              shard.id := (keepsOthers_setShard
                (s := { shard with vectorCount := ctx'.shard.vectorCount }) hns ho).owned _ ho
          split
          · exact ⟨⟨h₃.settings, h₃.roots, h₃.membership, h₃.store, h₃.contexts⟩, htouched⟩
          · have h₄ := h₃.maybeSplit { shard with vectorCount := ctx'.shard.vectorCount }
              env.split hns ho₃
              (h₃.store.owned _ ha) (h₃.store.owned _ hb)
            split
            · rename_i router e he
              have hafter : svc.KeepsRouter ns
                  ((router, Except.error e) : _ × Except Exc Unit).1 := by
                rw [← he]
                exact h₄
              exact ⟨⟨h₃.settings, h₃.roots, hafter.membership, hafter.store, h₃.contexts⟩,
                htouched⟩
            · rename_i router he
              have hafter : svc.KeepsRouter ns
                  ((router, Except.ok ()) : _ × Except Exc Unit).1 := by
                rw [← he]
                exact h₄
              exact ⟨⟨h₃.settings, h₃.roots, hafter.membership, hafter.store, h₃.contexts⟩,
                htouched⟩

omit [BaseIndex ι] in
theorem KeepsOthers.flushLogs (h : KeepsOthers ns svc svc') {touched : PySet String}
    (ht : ∀ key ∈ touched.keys, IsKeyOf ns key) : KeepsOthers ns svc (svc'.flushLogs touched) := by
  obtain ⟨hbase, hget⟩ := flushLogs_ok svc' touched
  refine ⟨hbase.settings.trans h.settings, hbase.roots.trans h.roots,
    by rw [hbase.router]; exact h.membership, by rw [hbase.router]; exact h.store, fun key hk => ?_⟩
  have hn : key ∉ touched.keys := fun hm => hk (ht key hm)
  rw [hget, ← h.contexts key hk]
  simp [hn]

omit [BaseIndex ι] in
theorem KeepsOthers.flushIfFull (h : KeepsOthers ns svc svc') (background : String → FlushEnv)
    (hk : IsKeyOf ns key) :
    KeepsOthers ns svc (flushIfFull X background svc' key).1 := by
  unfold IngestService.flushIfFull
  split
  · exact h
  · split
    · exact h.setCtx hk
    · exact h

variable (X svc ns) in
theorem keepsOthers_upsert (records : List (Raw × RecordEnv ι)) (idempotencyKey : Option String)
    (background : String → FlushEnv)
    (hnew : ∀ r ∈ records, Owned svc.router.etcd ns r.2.split.idA ∧
      Owned svc.router.etcd ns r.2.split.idB) :
    KeepsOthers ns svc (svc.upsert X ns records idempotencyKey background).1 := by
  have hrefl := KeepsOthers.refl ns svc
  unfold IngestService.upsert
  dsimp only
  split
  · exact hrefl
  · split
    · exact hrefl
    · rename_i settings _
      split
      · exact hrefl
      · have hrecords : UpsertKeeps ns svc
            (records.foldl (fun s r => IngestService.upsertRecord X ns settings s r.1 r.2)
              ⟨svc, [], [], ∅, []⟩) := by
          refine List.foldlRecOn records _ ⟨hrefl, fun key hk => absurd hk List.not_mem_nil⟩
            fun s hs r hr => ?_
          exact hs.upsertRecord r.1 r.2 (hnew r hr).1 (hnew r hr).2
        have hflushed := forEach_invariant (I := KeepsOthers ns svc)
          (f := IngestService.flushIfFull X background)
          (hrecords.keeps.flushLogs hrecords.touched) fun key hk t ht =>
            ht.flushIfFull background (hrecords.touched key hk)
        split
        · rename_i svc' e he
          rw [he] at hflushed
          exact hflushed
        · rename_i svc' he
          rw [he] at hflushed
          exact ⟨hflushed.settings, hflushed.roots, hflushed.membership, hflushed.store,
            hflushed.contexts⟩

/-! ## delete -/

/-- The local variables of `delete` on a namespace, which began with `svc`. -/
structure DeleteKeeps (ns : String) (svc : IngestService ι) (s : DeleteState ι) : Prop where
  keeps : KeepsOthers ns svc s.svc
  touched : ∀ key ∈ s.touched.keys, IsKeyOf ns key

omit [BaseIndex ι] in
theorem DeleteKeeps.touch {s : DeleteState ι} (h : DeleteKeeps ns svc s) (id : String) :
    ∀ key ∈ (s.touched.add (ctxKey ns id)).keys, IsKeyOf ns key := by
  intro key hk
  rcases mem_keys_add.mp hk with rfl | hk
  · exact ⟨_, rfl⟩
  · exact h.touched key hk

theorem DeleteKeeps.deleteId {settings : Namespace} {env : Nat → DeliveryEnv} {s : DeleteState ι}
    (h : DeleteKeeps ns svc s) (id : String × Nat) :
    DeleteKeeps ns svc (deleteId X ns settings shard env s id).1 := by
  unfold IngestService.deleteId
  dsimp only
  split
  · exact h
  · split
    · exact ⟨h.keeps.setCtx ⟨_, rfl⟩, h.touched⟩
    · exact ⟨h.keeps.change ⟨_, rfl⟩ rfl rfl rfl rfl, h.touch shard.id⟩

theorem DeleteKeeps.deleteMatch {settings : Namespace} {filter : Query.Filter}
    {env : Nat → DeliveryEnv} {s : DeleteState ι} (h : DeleteKeeps ns svc s)
    (rec : VectorRecord × Nat) :
    DeleteKeeps ns svc (deleteMatch X ns settings shard filter env s rec).1 := by
  unfold IngestService.deleteMatch
  dsimp only
  split
  · exact h
  · exact h
  · exact h
  · exact ⟨h.keeps.change ⟨_, rfl⟩ rfl rfl rfl rfl, h.touch shard.id⟩

theorem DeleteKeeps.deleteOnShard {settings : Namespace} {ids : List String}
    {env : String → Nat → DeliveryEnv} {s : DeleteState ι} (h : DeleteKeeps ns svc s)
    (hs : shard ∈ svc.router.etcd.listByNamespace ns) :
    DeleteKeeps ns svc (deleteOnShard X ns settings ids env s shard).1 := by
  unfold IngestService.deleteOnShard
  split
  · exact h
  · rename_i svc₁ ctx hg
    refine forEach_invariant (I := DeleteKeeps ns svc) ⟨?_, h.touched⟩ fun id _ t ht =>
      ht.deleteId id
    exact h.keeps.getOrCreateCtx (mem_listByNamespace.mp hs).2
      (h.keeps.store.owned _ (owned_of_mem hs)) hg

theorem DeleteKeeps.deleteFilterOnShard {settings : Namespace} {filter : Query.Filter}
    {env : String → Nat → DeliveryEnv} {s : DeleteState ι} (h : DeleteKeeps ns svc s)
    (hs : shard ∈ svc.router.etcd.listByNamespace ns) :
    DeleteKeeps ns svc (deleteFilterOnShard X ns settings filter env s shard).1 := by
  unfold IngestService.deleteFilterOnShard
  split
  · exact h
  · rename_i svc₁ ctx hg
    have h₁ : KeepsOthers ns svc svc₁ :=
      h.keeps.getOrCreateCtx (mem_listByNamespace.mp hs).2
        (h.keeps.store.owned _ (owned_of_mem hs)) hg
    split
    · exact ⟨h₁, h.touched⟩
    · exact forEach_invariant (I := DeleteKeeps ns svc) ⟨h₁, h.touched⟩ fun rec _ t ht =>
        ht.deleteMatch rec

omit [BaseIndex ι] in
theorem keepsOthers_deleteOnShards
    {block : Namespace → DeleteState ι → Shard → DeleteState ι × Except Exc Unit}
    (hblock : ∀ settings s, ∀ shard ∈ svc.router.etcd.listByNamespace ns, DeleteKeeps ns svc s →
      DeleteKeeps ns svc (block settings s shard).1) :
    KeepsOthers ns svc (svc.deleteOnShards ns block).1 := by
  have hrefl := KeepsOthers.refl ns svc
  unfold IngestService.deleteOnShards
  split
  · exact hrefl
  · rename_i settings _
    split
    · exact hrefl
    · rename_i shards hshards
      rw [ShardRouter.writable_eq hshards]
      have hdeleted := forEach_invariant (I := DeleteKeeps ns svc) (f := block settings)
        (s := ⟨svc, 0, ∅, []⟩)
        ⟨hrefl, fun key hk => absurd hk List.not_mem_nil⟩ fun shard hs t ht =>
          hblock settings t shard hs ht
      split
      · rename_i s e he
        rw [he] at hdeleted
        exact hdeleted.keeps
      · rename_i s he
        rw [he] at hdeleted
        exact hdeleted.keeps.flushLogs hdeleted.touched

theorem keepsOthers_deleteRequest (ids : Option (List String)) (filter : Option Query.Filter)
    (env : String → Nat → DeliveryEnv) :
    KeepsOthers ns svc (svc.deleteRequest X ns ids filter env).1 := by
  unfold IngestService.deleteRequest
  split
  · rw [deleteByFilter_eq]
    exact keepsOthers_deleteOnShards fun _ _ _ hs h => h.deleteFilterOnShard hs
  · rw [delete_eq]
    exact keepsOthers_deleteOnShards fun _ _ _ hs h => h.deleteOnShard hs

end IngestService

end Vsector.Ingest
