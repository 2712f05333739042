import Vsector.Proof.Ingest.Fetch
import Vsector.Proof.Ingest.FilterDelete
import Vsector.Proof.Models.Documents

/-!
# What a delete counts

A delete goes through every shard of the namespace and hides ids on each
(`Erases`, `ShardBlock`), counting every one it hides, whether or not anything
was there. So the number it returns is that of the ids that were to go exactly
if no id is hidden twice and all that are hidden were to go
(`count_exact_iff`): a delete by ids counts right only with one shard and
distinct ids that can all be fetched (`deleted_ids_iff`), and a delete by
filter only where it matches no version of a record but the one that is
fetched (`deleted_matches_iff`).
-/

namespace Vsector.Ingest

open Framework Models Storage Sharding Index Query

/-- A list is as long as a set of its members exactly if it lists that set, without repeats. -/
theorem length_eq_ncard_iff {α : Type*} {l : List α} {s : Set α} (h : ∀ a ∈ s, a ∈ l) :
    l.length = s.ncard ↔ l.Nodup ∧ ∀ a ∈ l, a ∈ s := by
  classical
  have hsub : s ⊆ (l.toFinset : Set α) :=
    fun a ha => Finset.mem_coe.mpr (List.mem_toFinset.mpr (h a ha))
  have hle : s.ncard ≤ l.toFinset.card := by
    rw [← Set.ncard_coe_finset]
    exact Set.ncard_le_ncard hsub l.toFinset.finite_toSet
  constructor
  · intro heq
    have hlen : l.length ≤ l.toFinset.card := heq.le.trans hle
    have hdedup : l.dedup = l :=
      (List.dedup_sublist l).eq_of_length_le (by rwa [List.card_toFinset] at hlen)
    have hs : s = (l.toFinset : Set α) := Set.eq_of_subset_of_ncard_le hsub (by
      rw [Set.ncard_coe_finset, ← heq]
      exact List.toFinset_card_le l) l.toFinset.finite_toSet
    refine ⟨List.dedup_eq_self.mp hdedup, fun a ha => ?_⟩
    rw [hs]
    exact Finset.mem_coe.mpr (List.mem_toFinset.mpr ha)
  · rintro ⟨hn, hmem⟩
    have hs : s = (l.toFinset : Set α) :=
      hsub.antisymm fun a ha => hmem a (List.mem_toFinset.mp (Finset.mem_coe.mp ha))
    rw [hs, Set.ncard_coe_finset, List.toFinset_card_of_nodup hn]

variable {X : Externals}

/-! ## Scans -/

/-- The memtable keeps each record under its own id, as `put` does. -/
def MemTableKeyed (m : MemTable) : Prop := ∀ id r, m.get id = some r → idOf r = id

theorem MemTableKeyed.put {m : MemTable} (h : MemTableKeyed m) (r : VectorRecord) :
    MemTableKeyed (m.put r) := by
  intro id r' hr
  rw [MemTable.get, MemTable.put, Dict.get?_set] at hr
  split at hr
  · rename_i hid
    cases hr
    exact hid.symm
  · exact h id r' hr

theorem MemTableKeyed.delete {m : MemTable} (h : MemTableKeyed m) (id : String) :
    MemTableKeyed (m.delete id) := by
  intro a r hr
  rw [MemTable.get, MemTable.delete, Dict.get?_pop] at hr
  split at hr
  · cases hr
  · exact h a r hr

theorem getTables_eq_some {s : SegmentStore} {id : String} {ts : List SSTable} {r : VectorRecord}
    (h : s.getTables X id ts = .ok (some r)) :
    idOf r = id ∧ ∃ t ∈ ts, ∃ records, s.scan X t = .ok records ∧ r ∈ records := by
  induction ts with
  | nil => cases h
  | cons t ts ih =>
    rw [SegmentStore.getTables] at h
    rcases hscan : s.scan X t with e | records
    · rw [hscan] at h
      cases h
    · rw [hscan] at h
      rcases hfind : records.find? fun r => r.id.text = id with _ | r'
      · simp only [hfind] at h
        obtain ⟨hid, t', ht', hrec⟩ := ih h
        exact ⟨hid, t', List.mem_cons_of_mem _ ht', hrec⟩
      · simp only [hfind] at h
        cases h
        exact ⟨Layers.key_of_find hfind, t, List.mem_cons_self, records, hscan,
          Layers.mem_of_find hfind⟩

/-- The loop of `scan_all` keeps what it has found, and adds every record of every table. -/
theorem mem_scanTables {s : SegmentStore} {ts : List SSTable} {found records : List VectorRecord}
    (h : ts.foldlM (fun out t => (s.scan X t).map (out ++ ·)) found = .ok records)
    {r : VectorRecord} (hr : r ∈ found ∨ ∃ t ∈ ts, ∃ rs, s.scan X t = .ok rs ∧ r ∈ rs) :
    r ∈ records := by
  induction ts generalizing found with
  | nil =>
    cases h
    refine hr.resolve_right ?_
    rintro ⟨t, ht, -⟩
    cases ht
  | cons t ts ih =>
    rw [List.foldlM_cons] at h
    rcases hscan : s.scan X t with e | rs
    · rw [hscan] at h
      cases h
    · rw [hscan] at h
      refine ih h ?_
      rcases hr with hr | ⟨t', ht', rs', hrs', hr⟩
      · exact .inl (List.mem_append_left _ hr)
      · rcases List.mem_cons.mp ht' with rfl | ht'
        · rw [hscan] at hrs'
          cases hrs'
          exact .inl (List.mem_append_right _ hr)
        · exact .inr ⟨t', ht', rs', hrs', hr⟩

/-- A scan finds the record that `get` finds, which has the id that was asked for. -/
theorem mem_scanAll {s : SegmentStore} {records : List VectorRecord} {id : String}
    {r : VectorRecord} (hk : MemTableKeyed s.memtable) (hscan : s.scanAll X = .ok records)
    (h : s.get X id = .ok (some r)) :
    idOf r = id ∧ r ∈ records := by
  unfold SegmentStore.get at h
  split at h
  · rename_i v hv
    cases h
    exact ⟨hk id r hv, mem_scanTables hscan (.inl (Dict.mem_values.mpr ⟨id, hv⟩))⟩
  · obtain ⟨hid, t, ht, hrec⟩ := getTables_eq_some h
    exact ⟨hid, mem_scanTables hscan (.inr ⟨t, List.mem_reverse.mp ht, hrec⟩)⟩

theorem recover_keyed {wal wal' : Log Text} {s s' : SegmentStore} {result : RecoveryResult}
    (h : recover X wal s = .ok (wal', s', result)) (hk : MemTableKeyed s.memtable) :
    MemTableKeyed s'.memtable := by
  unfold recover at h
  split at h
  · cases h
  · cases h
    rw [foldl_put]
    exact Layers.keyed_setAll hk _

/-! ## What is erased of a shard -/

/-- What is read of a shard, `c'`, once the ids `gone` are hidden: the rest as it was. -/
structure Erased (X : Externals) (gone : List String) (c c' : SegmentStore × PySet String) :
    Prop where
  hidden : ∀ id ∈ gone, c'.2.has id = true
  kept : ∀ id, id ∉ gone → c'.1.get X id = c.1.get X id ∧ c'.2.has id = c.2.has id

theorem Erased.refl (c : SegmentStore × PySet String) : Erased X [] c c :=
  ⟨fun _ h => absurd h List.not_mem_nil, fun _ _ => ⟨rfl, rfl⟩⟩

theorem Erased.trans {gone gone' : List String} {c c' c'' : SegmentStore × PySet String}
    (h : Erased X gone c c') (h' : Erased X gone' c' c'') : Erased X (gone ++ gone') c c'' where
  hidden id hid := by
    by_cases hid' : id ∈ gone'
    · exact h'.hidden id hid'
    · rw [(h'.kept id hid').2]
      exact h.hidden id ((List.mem_append.mp hid).resolve_right hid')
  kept id hid := by
    rw [List.mem_append, not_or] at hid
    exact ⟨(h'.kept id hid.2).1.trans (h.kept id hid.1).1,
      (h'.kept id hid.2).2.trans (h.kept id hid.1).2⟩

theorem erased_one {s : SegmentStore} {m : MemTable} {tombstones : PySet String} {id : String}
    (hm : ∀ a, a ≠ id → m.get a = s.memtable.get a) :
    Erased X [id] (s, tombstones) ({ s with memtable := m }, tombstones.add id) where
  hidden a ha := by
    rw [List.mem_singleton.mp ha, PySet.has_add]
    simp
  kept a ha := by
    have hne : a ≠ id := fun he => ha (List.mem_singleton.mpr he)
    refine ⟨SegmentStore.get_memtable (hm a hne), ?_⟩
    rw [PySet.has_add]
    simp [hne]

theorem get_delete_of_ne {m : MemTable} {id a : String} (h : a ≠ id) :
    (m.delete id).get a = m.get a :=
  Dict.get?_pop_ne _ h

variable {ι : Type} [BaseIndex ι]

theorem ShardContext.erased_applyDelete {ctx ctx' : ShardContext ι} {id : String}
    (h : ctx.applyDelete X id = (ctx', .ok ())) : Erased X [id] ctx.content ctx'.content := by
  unfold applyDelete at h
  split at h
  · cases h
  · rename_i rec _
    cases h
    rcases rec with _ | r
    · exact erased_one fun _ _ => rfl
    · exact erased_one fun a ha => get_delete_of_ne ha

theorem ShardContext.erased_applyFilterDelete (ctx : ShardContext ι) (id : String) :
    Erased X [id] ctx.content (ctx.applyFilterDelete id).content :=
      erased_one fun _ ha => get_delete_of_ne ha

namespace IngestService

variable {svc svc' : IngestService ι} {ns : String} {shard : Shard} {s t u : DeleteState ι}

/-! ## The loop of a shard -/

/-- From `s` to `t` the ids `gone` are hidden on a shard, whose context is open, and counted. -/
structure Erases (X : Externals) (ns : String) (shard : Shard) (s t : DeleteState ι)
    (gone : List String) : Prop where
  ctx : ∃ ctx ctx', s.svc.shards.get? (ctxKey ns shard.id) = some ctx ∧
    t.svc.shards.get? (ctxKey ns shard.id) = some ctx' ∧
    Erased X gone ctx.content ctx'.content
  others : ∀ key, key ≠ ctxKey ns shard.id → t.svc.shards.get? key = s.svc.shards.get? key
  base : SameBase s.svc t.svc
  deleted : t.deleted = s.deleted + gone.length

omit [BaseIndex ι] in
theorem Erases.refl (h : (s.svc.shards.get? (ctxKey ns shard.id)).isSome) :
    Erases X ns shard s s [] := by
  obtain ⟨ctx, hctx⟩ := Option.isSome_iff_exists.mp h
  exact ⟨⟨ctx, ctx, hctx, hctx, .refl _⟩, fun _ _ => rfl, .refl _, rfl⟩

omit [BaseIndex ι] in
theorem Erases.trans {gone gone' : List String} (h : Erases X ns shard s t gone)
    (h' : Erases X ns shard t u gone') :
    Erases X ns shard s u (gone ++ gone') := by
  obtain ⟨ctx, ctx₁, hctx, hctx₁, he⟩ := h.ctx
  obtain ⟨ctx₁', ctx₂, hctx₁', hctx₂, he'⟩ := h'.ctx
  rw [hctx₁] at hctx₁'
  cases hctx₁'
  refine ⟨⟨ctx, ctx₂, hctx, hctx₂, he.trans he'⟩, fun key hkey =>
    (h'.others key hkey).trans (h.others key hkey), h.base.trans h'.base, ?_⟩
  rw [h'.deleted, h.deleted, List.length_append, Nat.add_assoc]

theorem erases_deleteId {settings : Namespace} {env : Nat → DeliveryEnv} {id : String × Nat}
    (hopen : (s.svc.shards.get? (ctxKey ns shard.id)).isSome)
    (h : deleteId X ns settings shard env s id = (t, .ok ())) : Erases X ns shard s t [id.1] := by
  obtain ⟨ctx, hctx⟩ := Option.isSome_iff_exists.mp hopen
  simp only [deleteId, hctx] at h
  rcases hd : ctx.applyDelete X id.1 with ⟨ctx', e | ⟨⟩⟩
  · rw [hd] at h
    cases h
  · rw [hd] at h
    cases h
    exact ⟨⟨ctx, ctx', hctx, Dict.get?_set_self _ _ _, ShardContext.erased_applyDelete hd⟩,
      fun key hkey => Dict.get?_set_ne _ _ hkey, ⟨rfl, rfl, rfl, rfl, rfl⟩, rfl⟩

theorem erases_deleteIds {settings : Namespace} {env : Nat → DeliveryEnv}
    {ids : List (String × Nat)} (hopen : (s.svc.shards.get? (ctxKey ns shard.id)).isSome)
    (h : forEach (deleteId X ns settings shard env) s ids = (t, .ok ())) :
    Erases X ns shard s t (ids.map Prod.fst) := by
  induction ids generalizing s with
  | nil =>
    cases h
    exact .refl hopen
  | cons id ids ih =>
    rw [forEach] at h
    rcases hd : deleteId X ns settings shard env s id with ⟨s₁, e | ⟨⟩⟩
    · rw [hd] at h
      cases h
    · rw [hd] at h
      have hone := erases_deleteId hopen hd
      obtain ⟨-, ctx₁, -, hctx₁, -⟩ := hone.ctx
      exact hone.trans (ih (by rw [hctx₁]; rfl) h)

theorem erases_deleteMatches {settings : Namespace} {filter : Filter} {env : Nat → DeliveryEnv}
    {records : List (VectorRecord × Nat)} (hopen : (s.svc.shards.get? (ctxKey ns shard.id)).isSome)
    (h : forEach (deleteMatch X ns settings shard filter env) s records = (t, .ok ())) :
    Erases X ns shard s t ((matched X filter (records.map Prod.fst)).map idOf) := by
  induction records generalizing s with
  | nil =>
    cases h
    exact .refl hopen
  | cons rec records ih =>
    obtain ⟨ctx, hctx⟩ := Option.isSome_iff_exists.mp hopen
    rw [forEach] at h
    simp only [deleteMatch, hctx] at h
    rcases hm : matchesFilter X rec.1.metadata filter with e | b
    · simp only [hm] at h
      cases h
    · cases b with
      | false =>
        simp only [hm] at h
        have hskip : matched X filter ((rec :: records).map Prod.fst) =
            matched X filter (records.map Prod.fst) :=
          List.filter_cons_of_neg (by rw [hm]; decide)
        rw [hskip]
        exact ih hopen h
      | true =>
        simp only [hm] at h
        have htake : matched X filter ((rec :: records).map Prod.fst) = rec.1 ::
            matched X filter (records.map Prod.fst) :=
          List.filter_cons_of_pos (by rw [hm]; decide)
        rw [htake]
        show Erases X ns shard s t ([idOf rec.1] ++
          (matched X filter (records.map Prod.fst)).map idOf)
        refine Erases.trans ?_ (ih ?_ h)
        · exact ⟨⟨ctx, ctx.applyFilterDelete (idOf rec.1), hctx, Dict.get?_set_self _ _ _,
            ctx.erased_applyFilterDelete _⟩,
            fun key hkey => Dict.get?_set_ne _ _ hkey, ⟨rfl, rfl, rfl, rfl, rfl⟩, rfl⟩
        · exact Option.isSome_iff_exists.mpr ⟨_, Dict.get?_set_self _ _ _⟩

/-! ## The shards in turn -/

/-- A block of `delete` for one shard hides the ids that `gone` gives for what was read of it,
where `P` holds of that. -/
def ShardBlock (X : Externals) (ns : String) (gone : SegmentStore × PySet String → List String)
    (P : SegmentStore × PySet String → Prop)
    (f : DeleteState ι → Shard → DeleteState ι × Except Exc Unit) : Prop :=
  ∀ s t shard, f s shard = (t, .ok ()) →
    ∃ svc ctx, s.svc.getOrCreateCtx X ns shard = .ok (svc, ctx) ∧
    P ctx.content ∧ Erases X ns shard { s with svc := svc } t (gone ctx.content)

theorem getOrCreateCtx_open {ctx : ShardContext ι}
    (h : svc.getOrCreateCtx X ns shard = .ok (svc', ctx)) :
    svc'.shards.get? (ctxKey ns shard.id) = some ctx := by
  unfold getOrCreateCtx at h
  split at h
  · rename_i hctx
    cases h
    exact hctx
  · split at h
    · cases h
    · split at h
      · cases h
      · cases h
        exact Dict.get?_set_self _ _ _

theorem shardBlock_deleteOnShard {settings : Namespace} {env : String → Nat → DeliveryEnv}
    (ids : List String) :
    ShardBlock X ns (fun _ => ids) (fun _ => True)
      (deleteOnShard X ns settings ids env : DeleteState ι → Shard →
        DeleteState ι × Except Exc Unit) := by
  intro s t shard h
  unfold deleteOnShard at h
  split at h
  · cases h
  · rename_i svc ctx hg
    have hone := erases_deleteIds (by rw [show _ = some ctx from getOrCreateCtx_open hg]; rfl) h
    rw [List.zipIdx_map_fst] at hone
    exact ⟨svc, ctx, hg, trivial, hone⟩

/-- The ids of the versions that a scan finds and the filter matches. -/
def matchedIds (X : Externals) (filter : Filter) (c : SegmentStore × PySet String) : List String :=
  match c.1.scanAll X with
  | .error _ => []
  | .ok records => (matched X filter records).map idOf

theorem shardBlock_deleteFilterOnShard {settings : Namespace} {env : String → Nat → DeliveryEnv}
    (filter : Filter) :
    ShardBlock X ns (matchedIds X filter) (fun c => ∃ records, c.1.scanAll X = .ok records)
      (deleteFilterOnShard X ns settings filter env : DeleteState ι → Shard →
        DeleteState ι × Except Exc Unit) := by
  intro s t shard h
  unfold deleteFilterOnShard at h
  split at h
  · cases h
  · rename_i svc ctx hg
    split at h
    · cases h
    · rename_i records hscan
      have hone := erases_deleteMatches
        (by rw [show _ = some ctx from getOrCreateCtx_open hg]; rfl) h
      rw [List.zipIdx_map_fst] at hone
      refine ⟨svc, ctx, hg, ⟨records, hscan⟩, ?_⟩
      have hids : matchedIds X filter ctx.content = (matched X filter records).map idOf := by
        unfold matchedIds
        rw [show ctx.content.1.scanAll X = _ from hscan]
      rw [hids]
      exact hone

/-- The ids hidden on a shard. -/
def goneOn (X : Externals) (svc : IngestService ι) (ns : String)
    (gone : SegmentStore × PySet String → List String) (shard : Shard) : List String :=
  match svc.content X ns shard with
  | .error _ => []
  | .ok c => gone c

/-- From `s` to `t` every one of the shards has had its ids hidden and counted. -/
structure Pass (X : Externals) (ns : String) (gone : SegmentStore × PySet String → List String)
    (P : SegmentStore × PySet String → Prop) (shards : List Shard) (s t : DeleteState ι) :
    Prop where
  router : ShardRouter.SameShards ns s.svc.router t.svc.router
  done : ∀ shard ∈ shards, ∃ c c', s.svc.content X ns shard = .ok c ∧
    t.svc.content X ns shard = .ok c' ∧ P c ∧
    Erased X (gone c) c c'
  others : ∀ a : Shard, a.id ∉ shards.map Shard.id → t.svc.content X ns a = s.svc.content X ns a
  deleted : t.deleted = s.deleted + (shards.flatMap (s.svc.goneOn X ns gone)).length

theorem Erases.content {gone : List String} (h : Erases X ns shard s t gone) :
    (∃ c c', s.svc.content X ns shard = .ok c ∧ t.svc.content X ns shard = .ok c' ∧
      Erased X gone c c') ∧
      ∀ a : Shard, a.id ≠ shard.id → t.svc.content X ns a = s.svc.content X ns a := by
  obtain ⟨ctx, ctx', hctx, hctx', he⟩ := h.ctx
  refine ⟨⟨ctx.content, ctx'.content, by rw [content_eq, hctx], by rw [content_eq, hctx'], he⟩,
    fun a ha => ?_⟩
  rw [content_eq, content_eq, h.others _ (mt ctxKey_inj.mp ha), h.base.settings, h.base.roots]

theorem mem_getOrCreateCtx {ctx : ShardContext ι} {a : Shard}
    (h : svc.getOrCreateCtx X ns shard = .ok (svc', ctx))
    (ha : a ∈ svc.router.etcd.listByNamespace ns) (hne : a.id ≠ shard.id) :
    a ∈ svc'.router.etcd.listByNamespace ns := by
  unfold getOrCreateCtx at h
  split at h
  · cases h
    exact ha
  · split at h
    · cases h
    · split at h
      · cases h
      · cases h
        rw [InMemoryEtcd.mem_listByNamespace] at ha ⊢
        exact ⟨(Dict.get?_set_ne _ _ hne).trans ha.1, ha.2⟩

/-- What a loop over the shards hides, and what it counts. -/
theorem pass_forEach {gone : SegmentStore × PySet String → List String}
    {P : SegmentStore × PySet String → Prop}
    {f : DeleteState ι → Shard → DeleteState ι × Except Exc Unit} (hf : ShardBlock X ns gone P f)
    {shards : List Shard} (hmem : ∀ shard ∈ shards, shard ∈ s.svc.router.etcd.listByNamespace ns)
    (hn : (shards.map Shard.id).Nodup) (h : forEach f s shards = (t, .ok ())) :
    Pass X ns gone P shards s t := by
  induction shards generalizing s with
  | nil =>
    cases h
    exact ⟨.refl _ _, fun _ h => absurd h List.not_mem_nil, fun _ _ => rfl, rfl⟩
  | cons shard shards ih =>
    rw [List.map_cons, List.nodup_cons] at hn
    rw [forEach] at h
    rcases hd : f s shard with ⟨s₁, e | ⟨⟩⟩
    · rw [hd] at h
      cases h
    · rw [hd] at h
      obtain ⟨svc, ctx, hg, hP, he⟩ := hf s s₁ shard hd
      have hshard := hmem shard List.mem_cons_self
      have hopened : Opened X ns s.svc svc := (Opened.refl ns s.svc).getOrCreateCtx hshard hg
      have hne : ∀ a ∈ shards, a.id ≠ shard.id := fun a ha he => hn.1 (he ▸ List.mem_map_of_mem ha)
      have hrest := ih (s := s₁) (fun a ha => by
        rw [he.base.router]
        exact mem_getOrCreateCtx hg (hmem a (List.mem_cons_of_mem _ ha)) (hne a ha)) hn.2 h
      obtain ⟨⟨c, c', hc, hc', herased⟩, hothers⟩ := he.content
      have hctx : svc.content X ns shard = .ok ctx.content := by
        rw [content_eq, getOrCreateCtx_open hg]
      rw [show svc.content X ns shard = .ok c from hc, Except.ok.injEq] at hctx
      subst hctx
      have hsame : ∀ a : Shard, a.id ≠ shard.id → s₁.svc.content X ns a = s.svc.content X ns a :=
        fun a ha => (hothers a ha).trans (hopened.content a)
      have hfirst : s.svc.content X ns shard = .ok ctx.content :=
        (hopened.content shard).symm.trans hc
      constructor
      · have hr := hrest.router
        rw [he.base.router] at hr
        exact ⟨hr.shards.trans hopened.router.shards, hr.nodes.trans hopened.router.nodes,
          hr.membership.trans hopened.router.membership⟩
      · intro a ha
        rcases List.mem_cons.mp ha with rfl | ha
        · exact ⟨_, c', hfirst, (hrest.others a hn.1).trans hc', hP, herased⟩
        · obtain ⟨ca, ca', hca, hca', hPa, hea⟩ := hrest.done a ha
          exact ⟨ca, ca', (hsame a (hne a ha)).symm.trans hca, hca', hPa, hea⟩
      · intro a ha
        rw [List.map_cons, List.mem_cons, not_or] at ha
        exact (hrest.others a ha.2).trans (hsame a ha.1)
      · have hone : s.svc.goneOn X ns gone shard = gone ctx.content := by rw [goneOn, hfirst]
        have hall : shards.flatMap (s₁.svc.goneOn X ns gone) =
            shards.flatMap (s.svc.goneOn X ns gone) :=
          List.flatMap_congr fun a ha => by rw [goneOn, goneOn, hsame a (hne a ha)]
        have hcount : s₁.deleted = s.deleted + (gone ctx.content).length := he.deleted
        rw [hrest.deleted, hcount, hall, List.flatMap_cons, List.length_append, hone, Nat.add_assoc]

/-! ## What can be fetched -/

/-- What is shown for an id on the shard it is routed to. -/
def visible (X : Externals) (svc : IngestService ι) (ns id : String) :
    Except Exc (Option VectorRecord) :=
  (svc.router.route X ns id).bind fun shard => (svc.getOrCreateCtx X ns shard).bind fun p =>
    p.2.visible X id

/-- `fetch` of the id returns a record. -/
def Fetchable (X : Externals) (svc : IngestService ι) (ns id : String) : Prop :=
  ∃ svc' p, svc.fetch X ns [id] = (svc', .ok [p])

/-- What is shown of what was read. -/
def shownOf (X : Externals) (c : SegmentStore × PySet String) (id : String) :
    Except Exc (Option VectorRecord) :=
  (c.1.get X id).map fun rec => if c.2.has id then none else rec

theorem visible_eq (svc : IngestService ι) (ns id : String) : svc.visible X ns id =
    ((svc.router.route X ns id).map uncounted).bind fun shard =>
      (svc.content X ns shard).bind fun c => shownOf X c id := by
  unfold visible
  rcases svc.router.route X ns id with exc | shard
  · rfl
  · show (svc.getOrCreateCtx X ns shard).bind _ = (svc.content X ns (uncounted shard)).bind _
    rw [content_congr (show (uncounted shard).id = shard.id from rfl), content]
    rcases svc.getOrCreateCtx X ns shard with exc | p <;> rfl

theorem answer_visible (svc : IngestService ι) (ns id : String) :
    svc.answer X ns id = (svc.visible X ns id).map fun r => r.map VectorRecord.toPayload := by
  unfold answer visible
  rcases svc.router.route X ns id with exc | shard
  · rfl
  · dsimp only [Except.bind]
    rcases svc.getOrCreateCtx X ns shard with exc | ⟨svc', ctx⟩
    · rfl
    · dsimp only [ShardContext.fetch, ShardContext.visible]
      rcases ctx.segments.get X id with exc | _ | r
      · rfl
      · dsimp only [Except.map]
        split <;> rfl
      · dsimp only [Except.map]
        split <;> rfl

theorem fetchable_iff {id : String} :
    svc.Fetchable X ns id ↔ ∃ r, svc.visible X ns id = .ok (some r) := by
  have hanswer : svc.Fetchable X ns id ↔ ∃ p, svc.answer X ns id = .ok (some p) := by
    unfold Fetchable fetch
    simp only [forEach]
    obtain ⟨p, svc', hp, -, hone⟩ | ⟨exc, svc', hexc, hone⟩ := fetchOne_cases (X := X) svc ns id []
    · rw [hone, hp]
      cases p with
      | none => simp
      | some p => simp
    · rw [hone, hexc]
      simp
  rw [hanswer, answer_visible]
  rcases svc.visible X ns id with exc | _ | r <;> simp [Except.map]

theorem not_shown_of_has {c : SegmentStore × PySet String} {id : String} (h : c.2.has id = true)
    (r : VectorRecord) :
    shownOf X c id ≠ .ok (some r) := by
  unfold shownOf
  rw [h]
  rcases c.1.get X id with exc | v <;> simp [Except.map]

/-- The ids hidden on the shard that an id is routed to. -/
def goneAt (X : Externals) (svc : IngestService ι) (ns : String)
    (gone : SegmentStore × PySet String → List String) (id : String) : List String :=
  match svc.router.route X ns id with
  | .error _ => []
  | .ok shard => svc.goneOn X ns gone shard

variable {gone : SegmentStore × PySet String → List String} {P : SegmentStore × PySet String → Prop}

/-- After every shard has had its ids hidden, an id can be fetched where it could be, and was not
hidden on its shard. -/
theorem Pass.fetchable (h : Pass X ns gone P (s.svc.router.etcd.listByNamespace ns) s t)
    (id : String) :
    t.svc.Fetchable X ns id ↔ s.svc.Fetchable X ns id ∧ id ∉ s.svc.goneAt X ns gone id := by
  rw [fetchable_iff, fetchable_iff, visible_eq, visible_eq, h.router.route, goneAt]
  rcases hroute : s.svc.router.route X ns id with exc | shard
  · refine iff_of_false ?_ fun hn => ?_
    · rintro ⟨r, hr⟩
      cases hr
    · obtain ⟨r, hr⟩ := hn.1
      cases hr
  · have hmem := ShardRouter.select_mem (ShardRouter.route_ok_iff.mp hroute).1
    obtain ⟨c, c', hc, hc', -, he⟩ := h.done shard hmem
    have hid : (uncounted shard).id = shard.id := rfl
    show (∃ r, (t.svc.content X ns (uncounted shard)).bind _ = _) ↔
      (∃ r, (s.svc.content X ns (uncounted shard)).bind _ = _) ∧ _
    have hgoneOn : s.svc.goneOn X ns gone shard = gone c := by rw [goneOn, hc]
    have hct : t.svc.content X ns (uncounted shard) = .ok c' := (content_congr hid).trans hc'
    have hcs : s.svc.content X ns (uncounted shard) = .ok c := (content_congr hid).trans hc
    dsimp only
    rw [hct, hcs, hgoneOn]
    dsimp only [Except.bind]
    by_cases hgone : id ∈ gone c
    · refine iff_of_false ?_ fun hn => hn.2 hgone
      rintro ⟨r, hr⟩
      exact not_shown_of_has (he.hidden id hgone) r hr
    · obtain ⟨hget, hhas⟩ := he.kept id hgone
      rw [shownOf, shownOf, hget, hhas, and_iff_left hgone]

theorem goneAt_subset {id : String} (h : id ∈ svc.goneAt X ns gone id) :
    id ∈ (svc.router.etcd.listByNamespace ns).flatMap (svc.goneOn X ns gone) := by
  unfold goneAt at h
  split at h
  · cases h
  · rename_i shard hroute
    exact List.mem_flatMap.mpr ⟨shard,
      ShardRouter.select_mem (ShardRouter.route_ok_iff.mp hroute).1, h⟩

/-- Exactly the ids `s` could be fetched before and cannot after. -/
def Unfetched (X : Externals) (svc svc' : IngestService ι) (ns : String) (s : Set String) : Prop :=
  ∀ id, (svc.Fetchable X ns id ∧ ¬ svc'.Fetchable X ns id) ↔ id ∈ s

/-- The number hidden is that of the ids `m` that were to go, and they are those that went, exactly
if no id is hidden twice and all that are hidden were to go. -/
theorem Pass.exact_iff (h : Pass X ns gone P (s.svc.router.etcd.listByNamespace ns) s t)
    (hzero : s.deleted = 0) {m : Set String}
    (hm : ∀ id ∈ m, s.svc.Fetchable X ns id ∧ id ∈ s.svc.goneAt X ns gone id) :
    (t.deleted = m.ncard ∧ Unfetched X s.svc t.svc ns m) ↔
      ((s.svc.router.etcd.listByNamespace ns).flatMap (s.svc.goneOn X ns gone)).Nodup ∧
        ∀ id ∈ (s.svc.router.etcd.listByNamespace ns).flatMap (s.svc.goneOn X ns gone), id ∈ m := by
  rw [h.deleted, hzero, Nat.zero_add, length_eq_ncard_iff fun id hid => goneAt_subset (hm id hid).2]
  refine and_iff_left_of_imp fun hall id => ?_
  rw [h.fetchable]
  constructor
  · rintro ⟨hf, hn⟩
    have hgone : id ∈ s.svc.goneAt X ns gone id := by
      by_contra hgone
      exact hn ⟨hf, hgone⟩
    exact hall.2 id (goneAt_subset hgone)
  · intro hid
    exact ⟨(hm id hid).1, fun hn => hn.2 (hm id hid).2⟩

theorem fetchable_flushLogs (svc : IngestService ι) (touched : PySet String) (id : String) :
    (svc.flushLogs touched).Fetchable X ns id ↔ svc.Fetchable X ns id := by
  obtain ⟨hbase, hget⟩ := flushLogs_ok svc touched
  have hcontent : ∀ shard, (svc.flushLogs touched).content X ns shard = svc.content X ns shard := by
    intro shard
    rw [content_eq, content_eq, hget, hbase.settings, hbase.roots]
    rcases svc.shards.get? (ctxKey ns shard.id) with _ | ctx
    · rfl
    · dsimp only [Option.map]
      split <;> rfl
  rw [fetchable_iff, fetchable_iff, visible_eq, visible_eq, hbase.router]
  simp only [hcontent]

/-! ## Deletion by ids -/

theorem pass_deleteOnShards {gone : SegmentStore × PySet String → List String}
    {P : SegmentStore × PySet String → Prop}
    {block : Namespace → DeleteState ι → Shard → DeleteState ι × Except Exc Unit}
    {result : DeleteResult} (hblock : ∀ settings, ShardBlock X ns gone P (block settings))
    (h : svc.deleteOnShards ns block = (svc', .ok result)) : ∃ t : DeleteState ι,
      Pass X ns gone P (svc.router.etcd.listByNamespace ns) ⟨svc, 0, ∅, []⟩ t ∧
        result.deleted = t.deleted ∧ svc' = t.svc.flushLogs t.touched := by
  obtain ⟨settings, t, hloop, hcount, hsvc⟩ := deleteOnShards_ok h
  exact ⟨t, pass_forEach (hblock settings) (fun _ h => h) (InMemoryEtcd.nodup_ids _ ns) hloop,
    hcount, hsvc⟩

theorem nodup_flatMap_const {α β : Type*} {l : List α} {ids : List β} :
    (l.flatMap fun _ => ids).Nodup ↔ ids = [] ∨ l = [] ∨ (l.length = 1 ∧ ids.Nodup) := by
  rcases l with _ | ⟨a, _ | ⟨b, l⟩⟩
  · simp
  · simp only [List.flatMap_cons, List.flatMap_nil, List.append_nil, List.length_singleton,
      true_and, reduceCtorEq, false_or]
    refine ⟨.inr, ?_⟩
    rintro (rfl | h)
    · exact List.nodup_nil
    · exact h
  · constructor
    · intro h
      rw [List.flatMap_cons, List.flatMap_cons, List.nodup_append] at h
      left
      rcases ids with _ | ⟨id, ids⟩
      · rfl
      · exact absurd rfl (h.2.2 id List.mem_cons_self id
          (List.mem_append_left _ List.mem_cons_self))
    · rintro (rfl | h | h)
      · rw [List.flatMap_eq_nil_iff.mpr fun _ _ => rfl]
        exact List.nodup_nil
      · cases h
      · simp at h

/-- The listed ids that can be fetched. -/
def listedFetchable (X : Externals) (svc : IngestService ι) (ns : String) (ids : List String) :
    Set String :=
  { id | id ∈ ids ∧ svc.Fetchable X ns id }

/-- A delete by ids returns the number of the listed ids that could be fetched, and makes exactly
these unfetchable, exactly if there is nothing to do or no shard, or there is one shard and the ids
are distinct and can all be fetched. -/
theorem deleted_ids_iff {ids : List String} {env : String → Nat → DeliveryEnv}
    {result : DeleteResult} (h : svc.delete X ns ids env = (svc', .ok result)) :
    (result.deleted = (svc.listedFetchable X ns ids).ncard ∧
      Unfetched X svc svc' ns (svc.listedFetchable X ns ids)) ↔
      ids = [] ∨ svc.router.etcd.listByNamespace ns = [] ∨
        ((svc.router.etcd.listByNamespace ns).length = 1 ∧ ids.Nodup ∧
          ∀ id ∈ ids, svc.Fetchable X ns id) := by
  rw [delete_eq] at h
  obtain ⟨t, hp, hcount, rfl⟩ := pass_deleteOnShards (fun _ => shardBlock_deleteOnShard ids) h
  have hgone : (svc.router.etcd.listByNamespace ns).flatMap (svc.goneOn X ns fun _ => ids) =
      (svc.router.etcd.listByNamespace ns).flatMap fun _ => ids :=
    List.flatMap_congr fun shard hshard => by
      obtain ⟨c, -, hc, -⟩ := hp.done shard hshard
      rw [goneOn, show svc.content X ns shard = _ from hc]
  have hlisted : ∀ id ∈ svc.listedFetchable X ns ids, svc.Fetchable X ns id ∧
      id ∈ svc.goneAt X ns (fun _ => ids) id := by
    rintro id ⟨hid, hf⟩
    refine ⟨hf, ?_⟩
    obtain ⟨r, hr⟩ := fetchable_iff.mp hf
    unfold goneAt
    rcases hroute : svc.router.route X ns id with exc | shard
    · rw [visible, hroute] at hr
      cases hr
    · obtain ⟨c, -, hc, -⟩ :=
        hp.done shard (ShardRouter.select_mem (ShardRouter.route_ok_iff.mp hroute).1)
      dsimp only
      rw [goneOn, show svc.content X ns shard = _ from hc]
      exact hid
  have hunfetched : Unfetched X svc (t.svc.flushLogs t.touched) ns (svc.listedFetchable X ns ids) ↔
      Unfetched X svc t.svc ns (svc.listedFetchable X ns ids) := by
    unfold Unfetched
    simp only [fetchable_flushLogs]
  have hexact := Pass.exact_iff (s := ⟨svc, 0, ∅, []⟩) hp rfl hlisted
  rw [hcount, hunfetched]
  refine hexact.trans ?_
  show (((svc.router.etcd.listByNamespace ns).flatMap (svc.goneOn X ns fun _ => ids)).Nodup ∧
    ∀ id ∈ (svc.router.etcd.listByNamespace ns).flatMap (svc.goneOn X ns fun _ => ids),
      id ∈ svc.listedFetchable X ns ids) ↔ _
  rw [hgone, nodup_flatMap_const]
  constructor
  · rintro ⟨hids | hlist | ⟨hone, hn⟩, hall⟩
    · exact .inl hids
    · exact .inr (.inl hlist)
    · obtain ⟨shard, hshard⟩ := List.length_eq_one_iff.mp hone
      refine .inr (.inr ⟨hone, hn, fun id hid => (hall id ?_).2⟩)
      rw [hshard]
      exact List.mem_flatMap.mpr ⟨shard, List.mem_singleton_self _, hid⟩
  · rintro (hids | hlist | ⟨hone, hn, hall⟩)
    · refine ⟨.inl hids, fun id hid => ?_⟩
      obtain ⟨-, -, hid⟩ := List.mem_flatMap.mp hid
      rw [hids] at hid
      cases hid
    · refine ⟨.inr (.inl hlist), fun id hid => ?_⟩
      rw [hlist] at hid
      cases hid
    · refine ⟨.inr (.inr ⟨hone, hn⟩), fun id hid => ?_⟩
      obtain ⟨-, -, hid⟩ := List.mem_flatMap.mp hid
      exact ⟨hid, hall id hid⟩

/-! ## Deletion by filter -/

/-- Every memtable keeps its records under their own ids. -/
def Keyed (svc : IngestService ι) : Prop :=
  ∀ key ctx, svc.shards.get? key = some ctx → MemTableKeyed ctx.segments.memtable

/-- The ids whose visible record the filter matches. -/
def selected (X : Externals) (svc : IngestService ι) (ns : String) (filter : Filter) : Set String :=
  { id | ∃ r, svc.visible X ns id = .ok (some r) ∧ matchesFilter X r.metadata filter = .ok true }

/-- The ids of the versions that a delete by a filter finds and matches, on all shards. -/
def matchedVersions (X : Externals) (svc : IngestService ι) (ns : String) (filter : Filter) :
    List String :=
  (svc.router.etcd.listByNamespace ns).flatMap (svc.goneOn X ns (matchedIds X filter))

theorem content_keyed (hk : svc.Keyed) {c : SegmentStore × PySet String}
    (h : svc.content X ns shard = .ok c) :
    MemTableKeyed c.1.memtable := by
  rw [content_eq] at h
  split at h
  · rename_i ctx hctx
    cases h
    exact hk _ ctx hctx
  · split at h
    · cases h
    · rename_i settings _
      rcases hinit : (ShardContext.init X shard settings svc.settings.memtableThreshold
          ((svc.roots.get? shard.id).getD ∅) : Except Exc (ShardContext ι)) with exc | ctx
      · rw [hinit] at h
        cases h
      · rw [hinit] at h
        cases h
        unfold ShardContext.init at hinit
        split at hinit
        · cases hinit
        · rename_i wal segments recovery hrec
          have hkeyed : MemTableKeyed segments.memtable :=
            recover_keyed hrec fun _ _ h => by cases h
          have hcontent := ShardContext.content_indexRecords hinit
          rw [hcontent]
          exact hkeyed

theorem selected_fetchable {filter : Filter} {id : String} (h : id ∈ svc.selected X ns filter) :
    svc.Fetchable X ns id := by
  obtain ⟨r, hr, -⟩ := h
  exact fetchable_iff.mpr ⟨r, hr⟩

/-- A selected id is one of those hidden on its shard. -/
theorem selected_goneAt (hk : svc.Keyed) {filter : Filter} {t : DeleteState ι} {id : String}
    (hp : Pass X ns (matchedIds X filter) (fun c => ∃ records, c.1.scanAll X = .ok records)
      (svc.router.etcd.listByNamespace ns) ⟨svc, 0, ∅, []⟩ t)
    (h : id ∈ svc.selected X ns filter) : id ∈ svc.goneAt X ns (matchedIds X filter) id := by
  obtain ⟨r, hr, hmatch⟩ := h
  unfold goneAt
  rcases hroute : svc.router.route X ns id with exc | shard
  · rw [visible, hroute] at hr
    cases hr
  · obtain ⟨c, -, hc, -, ⟨records, hscan⟩, -⟩ :=
      hp.done shard (ShardRouter.select_mem (ShardRouter.route_ok_iff.mp hroute).1)
    have hid : (uncounted shard).id = shard.id := rfl
    have hc' : svc.content X ns (uncounted shard) = .ok c := (content_congr hid).trans hc
    rw [visible_eq, hroute] at hr
    change (svc.content X ns (uncounted shard)).bind _ = _ at hr
    rw [hc'] at hr
    have hget : c.1.get X id = .ok (some r) := by
      change shownOf X c id = _ at hr
      unfold shownOf at hr
      rcases hg : c.1.get X id with e | v
      · rw [hg] at hr
        cases hr
      · rw [hg] at hr
        have hv := Except.ok.inj hr
        split at hv
        · cases hv
        · exact congrArg Except.ok hv
    obtain ⟨hid, hmem⟩ := mem_scanAll (content_keyed hk hc) hscan hget
    dsimp only
    rw [goneOn, show svc.content X ns shard = _ from hc]
    dsimp only
    rw [matchedIds, hscan]
    exact List.mem_map.mpr ⟨r, mem_matched.mpr ⟨hmem, hmatch⟩, hid⟩

/-- What the filter matches is what is to go: no id is matched twice, and each is of an id whose
visible record is matched. An empty filter matches nothing. -/
def MatchesCurrent (X : Externals) (svc : IngestService ι) (ns : String) (filter : Filter) : Prop :=
  (filter = [] → svc.selected X ns filter = ∅) ∧
    (filter ≠ [] → (svc.matchedVersions X ns filter).Nodup ∧
      ∀ id ∈ svc.matchedVersions X ns filter, id ∈ svc.selected X ns filter)

/-- A delete by filter returns the number of the ids whose visible record it matches, and makes
exactly these unfetchable, exactly if the versions it matches are these records, each once. -/
theorem deleted_matches_iff (hk : svc.Keyed) {filter : Filter} {env : String → Nat → DeliveryEnv}
    {result : DeleteResult}
    (h : svc.deleteRequest X ns none (some filter) env = (svc', .ok result)) :
    (result.deleted = (svc.selected X ns filter).ncard ∧
      Unfetched X svc svc' ns (svc.selected X ns filter)) ↔
      svc.MatchesCurrent X ns filter := by
  rcases filter with _ | ⟨field, fields⟩
  · -- an empty filter takes the branch of no ids
    have hd : svc.delete X ns [] env = (svc', .ok result) := h
    rw [delete_eq] at hd
    obtain ⟨t, hp, hcount, rfl⟩ := pass_deleteOnShards (fun _ => shardBlock_deleteOnShard []) hd
    have hnone : ∀ shard, svc.goneOn X ns (fun _ => []) shard = [] := by
      intro shard
      unfold goneOn
      split <;> rfl
    have hat : ∀ id, id ∉ svc.goneAt X ns (fun _ => []) id := by
      intro id hid
      unfold goneAt at hid
      split at hid
      · cases hid
      · rw [hnone] at hid
        cases hid
    have hsame : ∀ id, (t.svc.flushLogs t.touched).Fetchable X ns id ↔
        svc.Fetchable X ns id := fun id =>
      (fetchable_flushLogs t.svc t.touched id).trans
        ((Pass.fetchable (s := ⟨svc, 0, ∅, []⟩) hp id).trans (and_iff_left (hat id)))
    have hdeleted : result.deleted = 0 := by
      have hzero : ((svc.router.etcd.listByNamespace ns).flatMap (svc.goneOn X ns fun _ => [])) =
          [] :=
        List.flatMap_eq_nil_iff.mpr fun shard _ => hnone shard
      have hlength : t.deleted = 0 +
          ((svc.router.etcd.listByNamespace ns).flatMap (svc.goneOn X ns fun _ => [])).length :=
        hp.deleted
      rw [hcount, hlength, hzero]
      rfl
    constructor
    · rintro ⟨-, hall⟩
      refine ⟨fun _ => Set.eq_empty_iff_forall_notMem.mpr fun id hid => ?_, fun hn => absurd rfl hn⟩
      obtain ⟨hf, hn⟩ := (hall id).mpr hid
      exact hn ((hsame id).mpr hf)
    · intro hall
      rw [hall.1 rfl, Set.ncard_empty]
      refine ⟨hdeleted, fun id => iff_of_false ?_ (Set.notMem_empty id)⟩
      rintro ⟨hf, hn⟩
      exact hn ((hsame id).mpr hf)
  · have hd : svc.deleteByFilter X ns (field :: fields) env = (svc', .ok result) := h
    rw [deleteByFilter_eq] at hd
    obtain ⟨t, hp, hcount, rfl⟩ :=
      pass_deleteOnShards (fun _ => shardBlock_deleteFilterOnShard (field :: fields)) hd
    have hexact := Pass.exact_iff (s := ⟨svc, 0, ∅, []⟩) hp rfl fun id hid =>
      ⟨selected_fetchable hid, selected_goneAt hk hp hid⟩
    have hunfetched : Unfetched X svc (t.svc.flushLogs t.touched) ns
        (svc.selected X ns (field :: fields)) ↔
        Unfetched X svc t.svc ns (svc.selected X ns (field :: fields)) := by
      unfold Unfetched
      simp only [fetchable_flushLogs]
    rw [hcount, hunfetched]
    refine hexact.trans ?_
    exact ⟨fun hall => ⟨fun hn => absurd hn (List.cons_ne_nil _ _), fun _ => hall⟩, fun hall =>
      hall.2 (List.cons_ne_nil _ _)⟩

/-! ## Examples -/

section

private def deleteNamespace : Namespace := ⟨"docs", 1, .cosine, .flat, 1⟩
private def deleteShard : Shard := ⟨"shard-0", "docs", "node-1", .active, 1, 50000000, [], 1⟩

/-- A service with one shard, whose context is `ctx`. -/
private def deleteService (ctx : ShardContext FlatIndex) : IngestService FlatIndex where
  settings := ⟨Dict.set ∅ "docs" deleteNamespace, 10000⟩
  router := ⟨(InMemoryEtcd.init none).put deleteShard, none⟩
  nodeId := some "node-1"
  roots := ∅
  replicator := .init ∅
  replicationStats := ∅
  shards := Dict.set ∅ (ctxKey "docs" "shard-0") ctx
  idempotency := ∅

/-- A context with the version `old` in a table, if there is one, and `current` in the memtable. -/
private def versions (old : Option (List (String × Json))) (current : List (String × Json)) :
    ShardContext FlatIndex :=
  { ShardContext.fresh deleteShard deleteNamespace 100000 with
    segments :=
      { hot := match old with
          | none => ∅
          | some metadata =>
            Dict.set ∅ "sst-1-1.jsonl" [some (fieldwise.modelDumpJson (unitRecord zeroId metadata))]
        cold := ∅
        memtable := ⟨100000, Dict.set ∅ zeroId.text (unitRecord zeroId current)⟩
        sstables := match old with
          | none => []
          | some _ => [⟨.hot, "sst-1-1.jsonl"⟩] } }

private def noDelivery : String → Nat → DeliveryEnv := fun _ _ => ⟨0, fun _ => ⟨1, 1, none⟩⟩

/-- One record of one shard is deleted. -/
theorem deleted_ids_one : ∃ svc' result,
    (deleteService (versions none [])).delete fieldwise "docs" [zeroId.text] noDelivery =
      (svc', .ok result) ∧
      result.deleted = ((deleteService (versions none [])).listedFetchable fieldwise "docs"
        [zeroId.text]).ncard := by
  refine ⟨_, _, rfl,
    ((deleted_ids_iff rfl).mpr (.inr (.inr ⟨rfl, List.nodup_singleton _, fun id hid => ?_⟩))).1⟩
  rw [List.mem_singleton.mp hid]
  exact ⟨_, _, rfl⟩

/-- An id that is not there is counted. -/
theorem missing_id_counted : ∃ svc' result,
    (deleteService (versions none [])).delete fieldwise "docs" ["missing"] noDelivery =
      (svc', .ok result) ∧
      result.deleted = 1 ∧
      result.deleted ≠ ((deleteService (versions none [])).listedFetchable fieldwise "docs"
        ["missing"]).ncard := by
  refine ⟨_, _, rfl, rfl, ?_⟩
  have hnone : (deleteService (versions none [])).listedFetchable fieldwise "docs"
      ["missing"] = ∅ := by
    refine Set.eq_empty_iff_forall_notMem.mpr ?_
    rintro id ⟨hid, svc', p, hf⟩
    rw [List.mem_singleton.mp hid] at hf
    have hempty : ((deleteService (versions none [])).fetch fieldwise "docs" ["missing"]).2 =
        .ok [] := rfl
    rw [hf] at hempty
    cases hempty
  rw [hnone, Set.ncard_empty]
  decide

private def kIsOne : Filter := [("k", .int 1)]

private theorem keyed_versions (old : Option (List (String × Json)))
    (current : List (String × Json)) :
    (deleteService (versions old current)).Keyed := by
  intro key ctx hctx id r hr
  have hkey : key = ctxKey "docs" "shard-0" ∧ ctx = versions old current := by
    by_cases hk : key = ctxKey "docs" "shard-0"
    · rw [hk, deleteService, Dict.get?_set_self] at hctx
      exact ⟨hk, (Option.some.inj hctx).symm⟩
    · rw [deleteService, Dict.get?_set_ne _ _ hk] at hctx
      cases hctx
  rw [hkey.2] at hr
  change (Dict.set ∅ zeroId.text (unitRecord zeroId current)).get? id = some r at hr
  rw [Dict.get?_set] at hr
  split at hr
  · rename_i hid
    cases hr
    exact hid.symm
  · cases hr

/-- The current version is matched, and nothing else is there. -/
theorem deleted_matches_one : ∃ svc' result,
    (deleteService (versions none [("k", .int 1)])).deleteRequest fieldwise "docs" none
      (some kIsOne) noDelivery =
        (svc', .ok result) ∧
      result.deleted = ((deleteService (versions none [("k", .int 1)])).selected fieldwise "docs"
        kIsOne).ncard := by
  have hmatched : (deleteService (versions none [("k", .int 1)])).matchedVersions fieldwise "docs"
      kIsOne = [zeroId.text] := rfl
  have hcurrent : (deleteService (versions none [("k", .int 1)])).MatchesCurrent fieldwise
      "docs" kIsOne := by
    refine ⟨fun h => absurd h (List.cons_ne_nil _ _), fun _ => ?_⟩
    rw [hmatched]
    refine ⟨List.nodup_singleton _, fun id hid => ?_⟩
    rw [List.mem_singleton.mp hid]
    exact ⟨unitRecord zeroId [("k", .int 1)], rfl, rfl⟩
  exact ⟨_, _, rfl,
    ((deleted_matches_iff (keyed_versions none [("k", .int 1)]) rfl).mpr hcurrent).1⟩

/-- An older version is matched: the record, which the filter does not match, is gone. -/
theorem old_version_deletes : ∃ svc' result,
    (deleteService (versions (some [("k", .int 1)]) [])).deleteRequest fieldwise "docs" none
      (some kIsOne) noDelivery =
        (svc', .ok result) ∧
      result.deleted = 1 ∧ (deleteService (versions (some [("k", .int 1)]) [])).Fetchable fieldwise
        "docs" zeroId.text ∧
      ¬ svc'.Fetchable fieldwise "docs" zeroId.text ∧
      zeroId.text ∉ (deleteService (versions (some [("k", .int 1)]) [])).selected fieldwise
        "docs" kIsOne := by
  obtain ⟨svc', result, hdelete, hcount, hempty⟩ : ∃ svc' result,
      (deleteService (versions (some [("k", .int 1)]) [])).deleteRequest fieldwise "docs" none
        (some kIsOne) noDelivery =
          (svc', .ok result) ∧ result.deleted = 1 ∧
          (svc'.fetch fieldwise "docs" [zeroId.text]).2 = .ok [] :=
    ⟨_, _, rfl, rfl, rfl⟩
  refine ⟨svc', result, hdelete, hcount, ⟨_, _, rfl⟩, ?_, ?_⟩
  · rintro ⟨svc'', p, hf⟩
    rw [hf] at hempty
    cases hempty
  · rintro ⟨r, hr, hmatch⟩
    have hshown : (deleteService (versions (some [("k", .int 1)]) [])).visible fieldwise
        "docs" zeroId.text =
        .ok (some (unitRecord zeroId [])) := rfl
    rw [hshown] at hr
    cases hr
    cases hmatch

end

end IngestService

end Vsector.Ingest
