import Vsector.Proof.Ingest.Service
import Vsector.Proof.Models.Documents

/-!
# Reads see the last write

Over a fixed set of active local shards (`ShardRouter.Local`) every shard's
context shows the last operations on the ids that are routed to it
(`Serves`, `serves_step`), so in any run that nothing raises in `fetch`
returns the record of the last upsert of an id, and nothing after its
deletion (`fetch_returns_the_last_write`).
-/

namespace Vsector.Ingest

open Framework Models Storage Sharding Index ShardContext IngestService ShardRouter

variable {X : Externals} {ι : Type} [BaseIndex ι]

/-! ## Runs of the service -/

/-- A request, or a memtable flush of a shard. -/
inductive ServiceOp (ι : Type) where
  | upsert (records : List (Raw × RecordEnv ι)) (idempotencyKey : Option String)
      (background : String → FlushEnv)
  | delete (ids : List String) (env : String → Nat → DeliveryEnv)
  | fetch (ids : List String)
  | flush (shardId : String) (env : FlushEnv)

/-- The service after an operation on a namespace; `none` where it raises. -/
def serviceStep (X : Externals) (ns : String) (svc : IngestService ι) :
    ServiceOp ι → Option (IngestService ι)
  | .upsert records key background =>
    match svc.upsert X ns records key background with
    | (svc, .ok _) => some svc
    | (_, .error _) => none
  | .delete ids env =>
    match svc.delete X ns ids env with
    | (svc, .ok _) => some svc
    | (_, .error _) => none
  | .fetch ids =>
    match svc.fetch X ns ids with
    | (svc, .ok _) => some svc
    | (_, .error _) => none
  | .flush shardId env =>
    match svc.shards.get? (ctxKey ns shardId) with
    | none => some svc
    | some ctx =>
      match ctx.flushMemtable X env with
      | (ctx, .ok ()) => some (svc.setCtx (ctxKey ns shardId) ctx)
      | (_, .error _) => none

/-! ## The last write -/

/-- The idempotency keys used, and what was written, in order: the record of an id, or none for a
deletion. -/
structure Written where
  keys : List String
  writes : List (String × Option VectorRecord)

/-- What a record of a batch writes under its client id. -/
def recordWrite (X : Externals) (ns : String) (settings : Namespace) (r : Raw × RecordEnv ι) :
    Option (String × Option VectorRecord) :=
  match r.1.lookup "id", parseRecord X ns settings r.1 r.2.now r.2.uuid4 with
  | some (.str id), .ok v => some (id, some v)
  | _, _ => none

/-- A batch whose idempotency key was used before is answered from the first one, and writes
nothing. -/
def Written.next (X : Externals) (ns : String) (settings : Namespace) (w : Written) :
    ServiceOp ι → Written
  | .upsert records key _ =>
    match key.filter (· ≠ "") with
    | some key =>
      if key ∈ w.keys then w
      else ⟨w.keys ++ [key], w.writes ++ records.filterMap (recordWrite X ns settings)⟩
    | none => { w with writes := w.writes ++ records.filterMap (recordWrite X ns settings) }
  | .delete ids _ => { w with writes := w.writes ++ ids.map fun id => (id, none) }
  | .fetch _ => w
  | .flush _ _ => w

/-- The record an id has after some writes. -/
def lastOf (writes : List (String × Option VectorRecord)) (id : String) : Option VectorRecord :=
  (writes.findRev? fun w => w.1 = id).bind Prod.snd

/-- The record of the last upsert of an id in a run, if no deletion of the id follows it. -/
def lastWrite (X : Externals) (ns : String) (settings : Namespace) (ops : List (ServiceOp ι))
    (id : String) :
    Option VectorRecord :=
  lastOf (ops.foldl (Written.next X ns settings) ⟨[], []⟩).writes id

theorem lastOf_snoc (writes : List (String × Option VectorRecord))
    (w : String × Option VectorRecord) (id : String) :
    lastOf (writes ++ [w]) id = if id = w.1 then w.2 else lastOf writes id := by
  rw [lastOf, lastOf, List.findRev?_eq_find?_reverse, List.reverse_append,
    List.findRev?_eq_find?_reverse]
  by_cases h : w.1 = id
  · simp [h]
  · simp [h, Ne.symm h]

theorem lastOf_deletions (writes : List (String × Option VectorRecord)) (ids : List String)
    (id : String) :
    lastOf (writes ++ ids.map fun id => (id, none)) id = if id ∈ ids then none
      else lastOf writes id := by
  induction ids using List.reverseRecOn with
  | nil => simp
  | append_singleton ids a ih =>
    rw [List.map_append, ← List.append_assoc, List.map_cons, List.map_nil, lastOf_snoc, ih]
    by_cases ha : id = a <;> by_cases hi : id ∈ ids <;> simp [ha, hi]

/-! ## The condition -/

/-- A valid record with a canonical id and finite floats, for which nothing raises and no shard
splits; a memtable flush it causes comes after all earlier ones. -/
def RecordOk (X : Externals) (ns : String) (settings : Namespace) (s : UpsertState ι)
    (r : Raw × RecordEnv ι) : Prop :=
  ∃ rec id, parseRecord X ns settings r.1 r.2.now r.2.uuid4 = .ok rec ∧
    r.1.lookup "id" = some (.str (UUID.text id)) ∧ rec.Finite ∧ r.2.index = none ∧
    r.2.bookkeeping = none ∧
    ∀ shard, s.svc.router.routeWrite X ns rec.id.text s.svc.nodeId = .ok shard →
      shard.vectorCount < shard.maxVectors ∧
      (((ctxAt s.svc settings ns shard).segments.memtable.put rec).shouldFlush →
        FlushLater (ctxAt s.svc settings ns shard).segments r.2.flush)

/-- The condition on an operation. -/
def ServiceOk (X : Externals) (ns : String) (settings : Namespace) (svc : IngestService ι) :
    ServiceOp ι → Prop
  | .upsert records key _ => (key.filter (· ≠ "")).bind svc.idempotency.get? = none →
    Along (total fun s (r : Raw × RecordEnv ι) => upsertRecord X ns settings s r.1 r.2)
      (RecordOk X ns settings)
      ⟨svc, [], [], ∅, []⟩ records
  | .delete _ _ => True
  | .fetch _ => True
  | .flush shardId env => ∀ ctx, svc.shards.get? (ctxKey ns shardId) = some ctx →
    ctx.segments.memtable.count ≠ 0 → FlushLater ctx.segments env

/-! Whether an operation meets the condition can be computed. -/

theorem canonical_text_iff {value : Option Json} :
    (∃ text ∈ value.bind asText, isCanonicalUUID text = true) ↔
      ∃ id, value = some (.str (UUID.text id)) := by
  constructor
  · rintro ⟨text, htext, hid⟩
    obtain ⟨j, rfl, hj⟩ := Option.bind_eq_some_iff.mp htext
    cases j <;> cases hj
    exact ⟨⟨text, hid⟩, rfl⟩
  · rintro ⟨id, rfl⟩
    exact ⟨id.text, rfl, id.canonical⟩

instance (ns : String) (settings : Namespace) (s : UpsertState ι) (r : Raw × RecordEnv ι) :
    Decidable (RecordOk X ns settings s r) :=
  decidable_of_iff (∃ v ∈ (parseRecord X ns settings r.1 r.2.now r.2.uuid4).toOption,
      (∃ text ∈ (r.1.lookup "id").bind asText, isCanonicalUUID text = true) ∧ v.Finite ∧
      r.2.index.isNone ∧ r.2.bookkeeping = none ∧
      ∀ shard ∈ (s.svc.router.routeWrite X ns v.id.text s.svc.nodeId).toOption,
        shard.vectorCount < shard.maxVectors ∧
        (((ctxAt s.svc settings ns shard).segments.memtable.put v).shouldFlush →
          FlushLater (ctxAt s.svc settings ns shard).segments r.2.flush)) <| by
    simp only [mem_toOption, canonical_text_iff, Option.isNone_iff_eq_none, RecordOk]
    refine exists_congr fun v => ⟨?_, ?_⟩
    · rintro ⟨hparse, ⟨id, hid⟩, hrest⟩
      exact ⟨id, hparse, hid, hrest⟩
    · rintro ⟨id, hparse, hid, hrest⟩
      exact ⟨hparse, ⟨id, hid⟩, hrest⟩

instance (ns : String) (settings : Namespace) (svc : IngestService ι) :
    ∀ op : ServiceOp ι, Decidable (ServiceOk X ns settings svc op)
  | .upsert records key _ =>
    decidable_of_iff (((key.filter (· ≠ "")).bind svc.idempotency.get?).isNone →
      Along (total fun s (r : Raw × RecordEnv ι) => upsertRecord X ns settings s r.1 r.2)
        (RecordOk X ns settings) ⟨svc, [], [], ∅, []⟩ records) <| by
      rw [Option.isNone_iff_eq_none, ServiceOk]
  | .delete _ _ => .isTrue trivial
  | .fetch _ => .isTrue trivial
  | .flush shardId env =>
    inferInstanceAs (Decidable (∀ ctx ∈ svc.shards.get? (ctxKey ns shardId),
      ctx.segments.memtable.count ≠ 0 → FlushLater ctx.segments env))

/-! ## What a valid record is -/

theorem new_ok {now : DateTime} {id : UUID} {ns : String} {vector : List PyFloat} {dimension : Nat}
    {metadata : List (String × Json)} {tags : List String} {sourceSystem : String}
    {v : VectorRecord}
    (h : VectorRecord.new X now id ns vector dimension metadata tags sourceSystem = some v) :
    v.id = id ∧ v.dimension = dimension := by
  rw [VectorRecord.new] at h
  split at h
  · split at h
    · cases h; exact ⟨rfl, rfl⟩
    · cases h
  · cases h

theorem recordId_eq (hX : X.Lawful) {raw : Raw} {id uuid4 : UUID}
    (h : raw.lookup "id" = some (.str id.text)) :
    recordId X raw uuid4 = .ok id := by
  simp only [recordId, h, hX.uuid_text]

theorem parseRecord_ok {ns : String} {settings : Namespace} {raw : Raw} {now : DateTime}
    {uuid4 : UUID} {v : VectorRecord} (h : parseRecord X ns settings raw now uuid4 = .ok v) :
    recordId X raw uuid4 = .ok v.id ∧ v.dimension = settings.dimension := by
  rw [parseRecord] at h
  split at h
  · cases h
  · split at h
    · cases h
    · split at h
      · cases h
      · split at h
        · cases h
        · rename_i id hid
          split at h
          · cases h
          · split at h
            · cases h
            · split at h
              · cases h
              · rename_i hnew
                cases h
                obtain ⟨rfl, hd⟩ := new_ok hnew
                exact ⟨hid, hd⟩

omit [BaseIndex ι] in
theorem recordWrite_eq (hX : X.Lawful) {ns : String} {settings : Namespace} {r : Raw × RecordEnv ι}
    {v : VectorRecord}
    {id : UUID} (h : parseRecord X ns settings r.1 r.2.now r.2.uuid4 = .ok v)
    (hid : r.1.lookup "id" = some (.str id.text)) :
    recordWrite X ns settings r = some (v.id.text, some v) ∧ v.dimension = settings.dimension := by
  obtain ⟨hrec, hd⟩ := parseRecord_ok h
  rw [recordId_eq hX hid, Except.ok.injEq] at hrec
  subst hrec
  exact ⟨by simp only [recordWrite, hid, h], hd⟩

/-! ## The invariant -/

/-- A service over the active local shards `ids` whose contexts show the records `last`. -/
structure Serves (X : Externals) [LawfulIndex ι] (ns : String) (settings : Namespace)
    (ids : List String) (svc : IngestService ι) (last : String → Option VectorRecord) : Prop where
  metadata : svc.settings.metadata.get? ns = some settings
  roots : svc.roots = ∅
  routed : svc.router.Local ns svc.nodeId ids
  loaded : ∀ key, (svc.shards.get? key).isSome → ∃ s ∈ svc.router.etcd.listByNamespace ns,
    key = ctxKey ns s.id
  tracks : ∀ s ∈ svc.router.etcd.listByNamespace ns,
    ∃ l, Tracks X settings s.vectorCount (svc.ctxAt settings ns s) l ∧
    ∀ id, home X ids ns id = s.id → recordOf (l id) = last id

variable [LawfulIndex ι] {svc svc' : IngestService ι} {ns : String} {settings : Namespace}
  {ids : List String} {last last' : String → Option VectorRecord} {s : Shard}

theorem Serves.congr (h : Serves X ns settings ids svc last) (hs : SameContexts svc svc') :
    Serves X ns settings ids svc' last where
  metadata := by rw [hs.settings]; exact h.metadata
  roots := by rw [hs.roots]; exact h.roots
  routed := by rw [hs.router, hs.nodeId]; exact h.routed
  loaded := by rw [hs.router, hs.shards]; exact h.loaded
  tracks s hm := by
    rw [hs.router] at hm
    rw [ctxAt_congr (by rw [hs.shards]) hs.settings]
    exact h.tracks s hm

/-- A change of one shard's context and count. -/
theorem Serves.change (h : Serves X ns settings ids svc last)
    (hs : s ∈ svc.router.etcd.listByNamespace ns) {ctx : ShardContext ι} {l : String → Option Op}
    {n : Nat} (hset : svc'.settings = svc.settings) (hroots : svc'.roots = svc.roots)
    (hnode : svc'.nodeId = svc.nodeId)
    (hrouter : svc'.router = { svc.router with
      etcd := svc.router.etcd.setShard { s with vectorCount := n } })
    (hctx : svc'.shards.get? (ctxKey ns s.id) = some ctx)
    (hne : ∀ key, key ≠ ctxKey ns s.id → svc'.shards.get? key = svc.shards.get? key)
    (ht : Tracks X settings n ctx l)
    (hl : ∀ id, home X ids ns id = s.id → recordOf (l id) = last' id)
    (ho : ∀ id, home X ids ns id ≠ s.id → last id = last' id) :
    Serves X ns settings ids svc' last' := by
  obtain ⟨hget, hns⟩ := InMemoryEtcd.mem_listByNamespace.mp hs
  have hlist : ∀ a, a.id ≠ s.id → a ∈ svc.router.etcd.listByNamespace ns →
      a ∈ svc'.router.etcd.listByNamespace ns := by
    intro a ha hm
    rw [InMemoryEtcd.mem_listByNamespace] at hm ⊢
    rw [hrouter]
    exact ⟨(Dict.get?_set_ne _ _ ha).trans hm.1, hm.2⟩
  have hself : { s with vectorCount := n } ∈ svc'.router.etcd.listByNamespace ns := by
    rw [InMemoryEtcd.mem_listByNamespace, hrouter]
    exact ⟨Dict.get?_set_self _ _ _, hns⟩
  refine ⟨by
    rw [hset]; exact h.metadata, by
    rw [hroots]; exact h.roots, ?_, fun key hk => ?_, fun a ha => ?_⟩
  · rw [hrouter, hnode]
    exact h.routed.setCount hs n
  · by_cases he : key = ctxKey ns s.id
    · exact ⟨_, hself, he⟩
    · rw [hne key he] at hk
      obtain ⟨a, ha, rfl⟩ := h.loaded key hk
      exact ⟨a, hlist a (fun hid => he (by rw [hid])) ha, rfl⟩
  · rw [hrouter] at ha
    rcases InMemoryEtcd.mem_setShard ha with rfl | ⟨hid, ha⟩
    · have hat : svc'.ctxAt settings ns { s with vectorCount := n } = ctx := ctxAt_of_some hctx
      exact ⟨l, by rw [hat]; exact ht, hl⟩
    · obtain ⟨l, ht, hl⟩ := h.tracks a ha
      refine ⟨l, ?_, fun id hh => (hl id hh).trans (ho id (hh ▸ hid))⟩
      rw [ctxAt_congr (hne _ fun hk => hid (ctxKey_inj.mp hk)) hset]
      exact ht

/-- A change of one shard's context only. -/
theorem Serves.changeCtx (h : Serves X ns settings ids svc last)
    (hs : s ∈ svc.router.etcd.listByNamespace ns) {ctx : ShardContext ι} {l : String → Option Op}
    (hb : SameBase svc svc') (hctx : svc'.shards.get? (ctxKey ns s.id) = some ctx)
    (hne : ∀ key, key ≠ ctxKey ns s.id → svc'.shards.get? key = svc.shards.get? key)
    (ht : Tracks X settings s.vectorCount ctx l)
    (hl : ∀ id, home X ids ns id = s.id → recordOf (l id) = last' id)
    (ho : ∀ id, home X ids ns id ≠ s.id → last id = last' id) :
    Serves X ns settings ids svc' last' := by
  refine h.change hs hb.settings hb.roots hb.nodeId ?_ hctx hne ht hl ho
  have he : svc.router.etcd.setShard { s with vectorCount := s.vectorCount } = svc.router.etcd :=
    setShard_eq_self (InMemoryEtcd.mem_listByNamespace.mp hs).1
  rw [hb.router, he]

/-- Looking up the context of a shard. -/
theorem Serves.getOrCreateCtx (h : Serves X ns settings ids svc last)
    (hs : s ∈ svc.router.etcd.listByNamespace ns) :
    ∃ svc', svc.getOrCreateCtx X ns s = .ok (svc', svc.ctxAt settings ns s) ∧ SameBase svc svc' ∧
      svc'.shards.get? (ctxKey ns s.id) = some (svc.ctxAt settings ns s) ∧
      (∀ key, key ≠ ctxKey ns s.id → svc'.shards.get? key = svc.shards.get? key) ∧
      Serves X ns settings ids svc' last := by
  obtain ⟨shards, hg, hk, hne⟩ :=
    getOrCreateCtx_ok (X := X) h.metadata h.roots (InMemoryEtcd.mem_listByNamespace.mp hs).1
  obtain ⟨l, ht, hl⟩ := h.tracks s hs
  have hb : SameBase svc { svc with shards := shards } := ⟨rfl, rfl, rfl, rfl, rfl⟩
  exact ⟨_, hg, hb, hk, hne, h.changeCtx hs hb hk hne ht hl fun _ _ => rfl⟩

/-! ## upsert -/

theorem Serves.upsertRecord (hX : X.Lawful) {st : UpsertState ι}
    {writes : List (String × Option VectorRecord)}
    (h : Serves X ns settings ids st.svc (lastOf writes)) {r : Raw × RecordEnv ι}
    (hc : RecordOk X ns settings st r) :
    ∃ w, recordWrite X ns settings r = some w ∧
      (upsertRecord X ns settings st r.1 r.2).svc.idempotency = st.svc.idempotency ∧
      Serves X ns settings ids (upsertRecord X ns settings st r.1 r.2).svc
        (lastOf (writes ++ [w])) := by
  obtain ⟨v, id, hp, hid, hfin, hindex, hbook, hroute⟩ := hc
  obtain ⟨hw, hd⟩ := recordWrite_eq hX hp hid
  refine ⟨_, hw, ?_⟩
  obtain ⟨s, hs, hrw, hhome⟩ := h.routed.routeWrite (X := X) v.id.text
  obtain ⟨hroom, hlater⟩ := hroute s hrw
  obtain ⟨l, ht, hl⟩ := h.tracks s hs
  obtain ⟨svc, hg, hb, -, -, h₁⟩ := h.getOrCreateCtx hs
  obtain ⟨ctx, hu, ht'⟩ := ht.upsert hX (some (X.modelDumpJson v)) hfin hd hlater
  have hcount : ctx.shard.vectorCount ≤ s.maxVectors := by
    have := ht'.count_eq
    omega
  rw [← hindex] at hu
  obtain ⟨replicator, stats, replications, he⟩ := upsertRecord_eq hp hrw hg hu hbook hcount
  have hs₁ : s ∈ svc.router.etcd.listByNamespace ns := by rw [hb.router]; exact hs
  rw [he]
  refine ⟨hb.idempotency, h₁.change hs₁ rfl rfl rfl rfl (Dict.get?_set_self _ _ _)
    (fun key hk => Dict.get?_set_ne _ _ hk) (by rw [ht'.count_eq]; exact ht') ?_ ?_⟩
  · intro id hid
    rw [lastOf_snoc, write_apply, ← hl id hid]
    by_cases he : id = v.id.text
    · rw [if_pos he, if_pos (show id = (Op.upsert v).id from he)]; rfl
    · rw [if_neg he, if_neg (show id ≠ (Op.upsert v).id from he)]
  · intro id hne
    rw [lastOf_snoc, if_neg fun he => hne (by rw [he, hhome])]

/-- The records of a batch. -/
theorem Serves.upsertRecords (hX : X.Lawful) (st : UpsertState ι)
    {writes : List (String × Option VectorRecord)}
    (h : Serves X ns settings ids st.svc (lastOf writes)) {records : List (Raw × RecordEnv ι)}
    (hc : Along (total fun s (r : Raw × RecordEnv ι) =>
      IngestService.upsertRecord X ns settings s r.1 r.2) (RecordOk X ns settings) st records) :
    let st' := records.foldl (fun s r => IngestService.upsertRecord X ns settings s r.1 r.2) st
    st'.svc.idempotency = st.svc.idempotency ∧
      Serves X ns settings ids st'.svc
        (lastOf (writes ++ records.filterMap (recordWrite X ns settings))) := by
  refine foldl_invariant (I := fun rs (s : UpsertState ι) =>
    s.svc.idempotency = st.svc.idempotency ∧
    Serves X ns settings ids s.svc (lastOf (writes ++ rs.filterMap (recordWrite X ns settings)))) ?_
    ⟨rfl, by simpa using h⟩ hc
  intro rs s r ⟨hi, hs⟩ hr
  obtain ⟨w, hw, hi', hs'⟩ := hs.upsertRecord hX hr
  refine ⟨hi'.trans hi, ?_⟩
  have hrec : (rs ++ [r]).filterMap (recordWrite X ns settings) =
      rs.filterMap (recordWrite X ns settings) ++ [w] := by
    rw [List.filterMap_append, List.filterMap_cons_some hw, List.filterMap_nil]
  rw [hrec, ← List.append_assoc]
  exact hs'

theorem Serves.flushLogs (h : Serves X ns settings ids svc last) (touched : PySet String) :
    Serves X ns settings ids (svc.flushLogs touched) last := by
  obtain ⟨hb, hget⟩ := flushLogs_ok svc touched
  refine ⟨by rw [hb.settings]; exact h.metadata, by rw [hb.roots]; exact h.roots,
    by rw [hb.router, hb.nodeId]; exact h.routed, fun key hk => ?_, fun s hs => ?_⟩
  · rw [hget, Option.isSome_map] at hk
    rw [hb.router]
    exact h.loaded key hk
  · rw [hb.router] at hs
    obtain ⟨l, ht, hl⟩ := h.tracks s hs
    refine ⟨l, ?_, hl⟩
    have hk := hget (ctxKey ns s.id)
    cases hc : svc.shards.get? (ctxKey ns s.id) with
    | none =>
      rw [hc] at hk
      rw [ctxAt_congr (hk.trans hc.symm) hb.settings]
      exact ht
    | some ctx =>
      rw [hc] at hk
      rw [ctxAt_of_some hk]
      rw [ctxAt_of_some hc] at ht
      split
      · exact ht.flushWal
      · exact ht

/-- A context of the service. -/
theorem Serves.ctx (h : Serves X ns settings ids svc last) {key : String} {ctx : ShardContext ι}
    (hk : svc.shards.get? key = some ctx) :
    ∃ s ∈ svc.router.etcd.listByNamespace ns, key = ctxKey ns s.id ∧
      ∃ l, Tracks X settings s.vectorCount ctx l ∧ ∀ id, home X ids ns id = s.id →
        recordOf (l id) = last id := by
  obtain ⟨s, hs, rfl⟩ := h.loaded key (by rw [hk]; rfl)
  obtain ⟨l, ht, hl⟩ := h.tracks s hs
  rw [ctxAt_of_some hk] at ht
  exact ⟨s, hs, rfl, l, ht, hl⟩

/-- No memtable is left full. -/
theorem Serves.flushIfFull (h : Serves X ns settings ids svc last) (background : String → FlushEnv)
    (keys : List String) : forEach (flushIfFull X background) svc keys = (svc, .ok ()) := by
  induction keys with
  | nil => rfl
  | cons key keys ih =>
    have hkey : IngestService.flushIfFull X background svc key = (svc, .ok ()) :=
      flushIfFull_eq fun ctx hk => by
        obtain ⟨s, -, -, l, ht, -⟩ := h.ctx hk
        exact ht.room
    rw [forEach, hkey]
    exact ih

/-- A service that shows what was written, and has the results of the idempotency keys used. -/
structure Reflects (X : Externals) [LawfulIndex ι] (ns : String) (settings : Namespace)
    (ids : List String) (w : Written) (svc : IngestService ι) : Prop where
  serves : Serves X ns settings ids svc (lastOf w.writes)
  keys : ∀ key, (svc.idempotency.get? key).isSome ↔ key ∈ w.keys

theorem Reflects.upsert (hX : X.Lawful) {w : Written} (h : Reflects X ns settings ids w svc)
    {records : List (Raw × RecordEnv ι)} {key : Option String} {background : String → FlushEnv}
    (hc : ServiceOk X ns settings svc (.upsert records key background))
    (hs : serviceStep X ns svc (.upsert records key background) = some svc') :
    Reflects X ns settings ids (w.next X ns settings (.upsert records key background)) svc' := by
  rw [Written.next]
  cases hseen : (key.filter (· ≠ "")).bind svc.idempotency.get? with
  | some result =>
    obtain ⟨k, hk, hres⟩ := Option.bind_eq_some_iff.mp hseen
    have hmem : k ∈ w.keys := (h.keys k).mp (by rw [hres]; rfl)
    simp only [serviceStep, IngestService.upsert, hseen] at hs
    cases hs
    simpa only [hk, if_pos hmem] using h
  | none =>
    obtain ⟨hidem, hrecords⟩ := h.serves.upsertRecords hX ⟨svc, [], [], ∅, []⟩ (hc hseen)
    rcases upsert_cases hseen h.serves.metadata
      (hrecords.flushLogs _ |>.flushIfFull background _) with
      ⟨e, he⟩ | ⟨svc₁, result, he, hsame, hkeys⟩
    · simp only [serviceStep, he] at hs
      cases hs
    · simp only [serviceStep, he] at hs
      cases hs
      have hserves := (hrecords.flushLogs _).congr hsame
      have hold : ∀ k, (svc'.idempotency.get? k).isSome ↔
          k ∈ w.keys ∨ key.filter (· ≠ "") = some k := by
        intro k
        rw [hkeys, (flushLogs_ok _ _).1.idempotency, hidem, h.keys]
      cases hk : key.filter (· ≠ "") with
      | none => exact ⟨hserves, fun k => by rw [hold, hk]; simp⟩
      | some k =>
        rw [hk] at hseen
        have hmem : k ∉ w.keys := fun hm => by
          have := (h.keys k).mpr hm
          rw [show svc.idempotency.get? k = none from hseen] at this
          cases this
        simp only [if_neg hmem]
        refine ⟨hserves, fun a => ?_⟩
        rw [hold, hk, Option.some.injEq, List.mem_append, List.mem_singleton, eq_comm (a := k)]

/-! ## delete -/

omit [BaseIndex ι] [LawfulIndex ι] in
theorem hide_or {p q r : Prop} [Decidable p] [Decidable q] [Decidable r] (h : r ↔ p ∨ q)
    (v : Option VectorRecord) :
    (if r then none else v) = if p then none else if q then none else v := by
  by_cases hp : p <;> by_cases hq : q <;> simp [h, hp, hq]

/-- The ids deleted on one shard. -/
theorem Serves.deleteIds (st : DeleteState ι) (h : Serves X ns settings ids st.svc last)
    (hs : s ∈ st.svc.router.etcd.listByNamespace ns)
    (hk : (st.svc.shards.get? (ctxKey ns s.id)).isSome) (env : Nat → DeliveryEnv)
    (gone : List (String × Nat)) :
    ∃ st', forEach (deleteId X ns settings s env) st gone = (st', .ok ()) ∧
      SameBase st.svc st'.svc ∧
      Serves X ns settings ids st'.svc
        fun id => if home X ids ns id = s.id ∧ id ∈ gone.map Prod.fst then none else last id := by
  induction gone generalizing st last with
  | nil => exact ⟨st, rfl, .refl _, by simpa using h⟩
  | cons id gone ih =>
    obtain ⟨ctx, hctx⟩ := Option.isSome_iff_exists.mp hk
    obtain ⟨l, ht, hl⟩ := h.tracks s hs
    rw [ctxAt_of_some hctx] at ht
    obtain ⟨ctx', ha, ht'⟩ := ht.delete id.1
    obtain ⟨st₁, hd, hb, hsh⟩ := deleteId_eq settings env hctx ha
    have hget : st₁.svc.shards.get? (ctxKey ns s.id) = some ctx' := by
      rw [hsh]; exact Dict.get?_set_self _ _ _
    have h₁ : Serves X ns settings ids st₁.svc fun a => if home X ids ns a = s.id ∧ a = id.1 then
        none else last a := by
      refine h.changeCtx hs hb hget
        (fun key hne => by rw [hsh]; exact Dict.get?_set_ne _ _ hne) ht' ?_ ?_
      · intro a ha
        rw [write_apply, ← hl a ha]
        by_cases he : a = id.1
        · rw [if_pos (show a = (Op.delete id.1).id from he), if_pos ⟨ha, he⟩]; rfl
        · rw [if_neg (show a ≠ (Op.delete id.1).id from he), if_neg fun h => he h.2]
      · intro a ha
        rw [if_neg fun h => ha h.1]
    obtain ⟨st', hf, hb', h'⟩ := ih _ h₁ (by rw [hb.router]; exact hs) (by rw [hget]; rfl)
    refine ⟨st', ?_, hb.trans hb', ?_⟩
    · rw [forEach, hd]
      exact hf
    · have hlast : (fun a => if home X ids ns a = s.id ∧ a ∈ (id :: gone).map Prod.fst then none
          else last a) =
          fun a => if home X ids ns a = s.id ∧ a ∈ gone.map Prod.fst then none
            else if home X ids ns a = s.id ∧ a = id.1 then none else last a := by
        funext a
        refine hide_or ?_ _
        rw [List.map_cons, List.mem_cons]
        tauto
      rw [hlast]
      exact h'

/-- The ids deleted on every shard. -/
theorem Serves.deleteShards (st : DeleteState ι) (h : Serves X ns settings ids st.svc last)
    {shards : List Shard} (hs : ∀ s ∈ shards, s ∈ st.svc.router.etcd.listByNamespace ns)
    (gone : List String) (env : String → Nat → DeliveryEnv) :
    ∃ st', forEach (deleteOnShard X ns settings gone env) st shards = (st', .ok ()) ∧
      SameBase st.svc st'.svc ∧
      Serves X ns settings ids st'.svc
        fun id => if home X ids ns id ∈ shards.map Shard.id ∧ id ∈ gone then none else last id := by
  induction shards generalizing st last with
  | nil => exact ⟨st, rfl, .refl _, by simpa using h⟩
  | cons s shards ih =>
    have hmem := hs s List.mem_cons_self
    obtain ⟨svc₁, hg, hb₁, hk, -, h₁⟩ := h.getOrCreateCtx hmem
    obtain ⟨st₂, hd, hb₂, h₂⟩ :=
      Serves.deleteIds { st with svc := svc₁ } h₁ (by rw [hb₁.router]; exact hmem)
      (by rw [hk]; rfl) (env s.id) gone.zipIdx
    rw [List.zipIdx_map_fst] at h₂
    have hb : SameBase st.svc st₂.svc := hb₁.trans hb₂
    obtain ⟨st', hf, hb', h'⟩ := ih _ h₂ fun a ha => by
      rw [hb.router]
      exact hs a (List.mem_cons_of_mem _ ha)
    refine ⟨st', ?_, hb.trans hb', ?_⟩
    · rw [forEach, deleteOnShard, hg]
      simp only [hd]
      exact hf
    · have hlast : (fun a => if home X ids ns a ∈ (s :: shards).map Shard.id ∧ a ∈ gone then none
          else last a) =
          fun a => if home X ids ns a ∈ shards.map Shard.id ∧ a ∈ gone then none
            else if home X ids ns a = s.id ∧ a ∈ gone then none else last a := by
        funext a
        refine hide_or ?_ _
        rw [List.map_cons, List.mem_cons]
        tauto
      rw [hlast]
      exact h'

theorem Reflects.delete {w : Written} (h : Reflects X ns settings ids w svc) {gone : List String}
    {env : String → Nat → DeliveryEnv} (hs : serviceStep X ns svc (.delete gone env) = some svc') :
    Reflects X ns settings ids (w.next X ns settings (.delete gone env : ServiceOp ι)) svc' := by
  obtain ⟨st, hd, hb, h'⟩ := Serves.deleteShards ⟨svc, 0, ∅, []⟩ h.serves (fun _ h => h) gone env
  simp only [serviceStep, IngestService.delete, h.serves.metadata,
    h.serves.routed.writable, hd] at hs
  cases hs
  have hserves := h'.flushLogs st.touched
  have hidem := (flushLogs_ok st.svc st.touched).1.idempotency.trans hb.idempotency
  refine ⟨?_, fun k => by rw [hidem]; exact h.keys k⟩
  have hlast : lastOf (w.writes ++ gone.map fun id => (id, none)) = fun id =>
      if home X ids ns id ∈ (svc.router.etcd.listByNamespace ns).map Shard.id ∧ id ∈ gone then none
      else lastOf w.writes id := by
    funext id
    have hmem : home X ids ns id ∈ (svc.router.etcd.listByNamespace ns).map Shard.id := by
      obtain ⟨s, hs, -, hid⟩ := h.serves.routed.select (X := X) id
      rw [← hid]
      exact List.mem_map_of_mem hs
    simp only [lastOf_deletions, hmem, true_and]
  rw [Written.next, hlast]
  exact hserves

/-! ## fetch -/

omit [BaseIndex ι] [LawfulIndex ι] in
theorem payloadOf_eq (op : Option Op) :
    payloadOf op = (recordOf op).map VectorRecord.toPayload := by
  rcases op with - | ⟨r | id⟩ <;> rfl

theorem Serves.fetchOne (h : Serves X ns settings ids svc last) (out : List Payload) (id : String) :
    ∃ svc', fetchOne X ns (svc, out) id =
      ((svc', out ++ ((last id).map VectorRecord.toPayload).toList), .ok ()) ∧
      SameBase svc svc' ∧ Serves X ns settings ids svc' last := by
  obtain ⟨s, hs, hr, hid⟩ := h.routed.route (X := X) id
  obtain ⟨svc', hg, hb, -, -, h'⟩ := h.getOrCreateCtx hs
  obtain ⟨l, ht, hl⟩ := h.tracks s hs
  refine ⟨svc', ?_, hb, h'⟩
  simp only [IngestService.fetchOne, hr, hg, ht.shows.fetch_eq, payloadOf_eq, hl id hid.symm]

theorem Serves.fetch (h : Serves X ns settings ids svc last) (wanted : List String) :
    ∃ svc', svc.fetch X ns wanted =
      (svc', .ok (wanted.filterMap fun id => (last id).map VectorRecord.toPayload)) ∧
      SameBase svc svc' ∧ Serves X ns settings ids svc' last := by
  have hloop : ∀ (svc : IngestService ι) (out : List Payload), Serves X ns settings ids svc last →
      ∃ svc', forEach (IngestService.fetchOne X ns) (svc, out) wanted =
          ((svc', out ++ wanted.filterMap fun id => (last id).map VectorRecord.toPayload), .ok ()) ∧
        SameBase svc svc' ∧ Serves X ns settings ids svc' last := by
    induction wanted with
    | nil =>
      exact fun svc out h => ⟨svc, by rw [List.filterMap_nil, List.append_nil]; rfl, .refl _, h⟩
    | cons id wanted ih =>
      intro svc out h
      obtain ⟨svc₁, h₁, hb₁, hs₁⟩ := h.fetchOne out id
      obtain ⟨svc', h', hb', hs'⟩ :=
        ih svc₁ (out ++ ((last id).map VectorRecord.toPayload).toList) hs₁
      refine ⟨svc', ?_, hb₁.trans hb', hs'⟩
      rw [forEach, h₁]
      simp only [h', List.append_assoc]
      cases hl : last id with
      | none => rw [List.filterMap_cons_none (by rw [hl]; rfl)]; rfl
      | some r => rw [List.filterMap_cons_some (by rw [hl]; rfl)]; rfl
  obtain ⟨svc', hf, hb, hs⟩ := hloop svc [] h
  exact ⟨svc', by rw [IngestService.fetch, hf]; rfl, hb, hs⟩

/-! ## Runs -/

theorem Reflects.flush (hX : X.Lawful) {w : Written} (h : Reflects X ns settings ids w svc)
    {shardId : String} {env : FlushEnv} (hc : ServiceOk X ns settings svc (.flush shardId env))
    (hs : serviceStep X ns svc (.flush shardId env) = some svc') :
    Reflects X ns settings ids w svc' := by
  simp only [serviceStep] at hs
  cases hk : svc.shards.get? (ctxKey ns shardId) with
  | none => rw [hk] at hs; cases hs; exact h
  | some ctx =>
    obtain ⟨s, hmem, hkey, l, ht, hl⟩ := h.serves.ctx hk
    obtain ⟨ctx', hf, ht'⟩ := ht.flush hX (hc ctx hk)
    simp only [hk, hf] at hs
    cases hs
    refine ⟨h.serves.changeCtx hmem ⟨rfl, rfl, rfl, rfl, rfl⟩ ?_ ?_ ht' hl fun _ _ => rfl, h.keys⟩
    · rw [← hkey]; exact Dict.get?_set_self _ _ _
    · rw [← hkey]; exact fun key hne => Dict.get?_set_ne _ _ hne

theorem reflects_step (hX : X.Lawful) {w : Written} (h : Reflects X ns settings ids w svc)
    {op : ServiceOp ι} (hc : ServiceOk X ns settings svc op)
    (hs : serviceStep X ns svc op = some svc') :
    Reflects X ns settings ids (w.next X ns settings op) svc' := by
  cases op with
  | upsert records key background => exact h.upsert hX hc hs
  | delete gone env => exact h.delete hs
  | fetch wanted =>
    obtain ⟨svc₁, hf, hb, hserves⟩ := h.serves.fetch wanted
    simp only [serviceStep, hf] at hs
    cases hs
    exact ⟨hserves, fun k => by rw [hb.idempotency]; exact h.keys k⟩
  | flush shardId env => exact h.flush hX hc hs

/-- In a run from a process without contexts, over active local shards that have no directories
yet, `fetch` of an id returns the record of its last upsert, and nothing where there is none or a
deletion follows. -/
theorem fetch_returns_the_last_write (hX : X.Lawful) (svc₀ : IngestService ι)
    (ops : List (ServiceOp ι)) (hm : svc₀.settings.metadata.get? ns = some settings)
    (hl : svc₀.router.Local ns svc₀.nodeId ids) (hroots : svc₀.roots = ∅)
    (hshards : svc₀.shards = ∅) (hidem : svc₀.idempotency = ∅)
    (hc : Along (serviceStep X ns) (ServiceOk X ns settings) svc₀ ops)
    (hr : run (serviceStep X ns) svc₀ ops = some svc) (id : String) : ∃ svc', svc.fetch X ns [id] =
      (svc', .ok ((lastWrite X ns settings ops id).map VectorRecord.toPayload).toList) := by
  have h₀ : Reflects X ns settings ids
      (([] : List (ServiceOp ι)).foldl (Written.next X ns settings) ⟨[], []⟩) svc₀ := by
    refine ⟨⟨hm, hroots, hl, ?_, fun s _ => ⟨fun _ => none, ?_, fun _ _ => rfl⟩⟩, ?_⟩
    · rw [hshards]; exact fun _ h => absurd h Bool.false_ne_true
    · rw [ctxAt, hshards]; exact tracks_fresh s settings _
    · rw [hidem]; exact fun _ =>
        ⟨fun h => absurd h Bool.false_ne_true, fun h => absurd h List.not_mem_nil⟩
  have h := invariant_history (I := fun ops =>
    Reflects X ns settings ids (ops.foldl (Written.next X ns settings) ⟨[], []⟩))
    (fun ops svc op svc' h hc hs => by
      rw [List.foldl_append]
      exact reflects_step hX h hc hs) h₀ hc hr
  obtain ⟨svc', hf, -, -⟩ := h.serves.fetch [id]
  have hone : ∀ f : String → Option Payload, [id].filterMap f = (f id).toList := fun f => by
    cases hf : f id <;> simp [hf]
  exact ⟨svc', by rw [hf, hone, List.nil_append, lastWrite]⟩

section

private def servedNamespace : Namespace := ⟨"docs", 1, .cosine, .flat, 1⟩

/-- A service that is starting, with one shard. -/
private def servedStart : IngestService FlatIndex where
  settings := ⟨Dict.set ∅ "docs" servedNamespace, 10000⟩
  router := ⟨(InMemoryEtcd.init none).put ⟨"shard-0", "docs", "node-1", .active, 0,
    50000000, [], 1⟩, none⟩
  nodeId := some "node-1"
  roots := ∅
  replicator := .init ∅
  replicationStats := ∅
  shards := ∅
  idempotency := ∅

private def servedPut (metadata : List (String × Json)) (key : Option String) :
    ServiceOp FlatIndex :=
  .upsert
    [([("id", .str zeroId.text), ("vector", .arr [.int 1]), ("metadata", .obj metadata),
      ("source_system", .str "api")],
      ⟨"2026-01-01T00:00:00Z", oneId, ⟨1, 1, none⟩, none, ⟨0, fun _ => ⟨1, 1, none⟩⟩, none,
        ⟨"a", "b", none⟩⟩)]
    key fun _ => ⟨1, 1, none⟩

/-- A record that was flushed and deleted is upserted again, in a batch that is sent twice. -/
theorem fetch_returns_the_upsert_after_the_delete : ∃ svc svc' : IngestService FlatIndex,
    run (serviceStep fieldwise "docs") servedStart
        [servedPut [("k", .null)] none, .flush "shard-0" ⟨1, 1, none⟩,
          .delete [zeroId.text] (fun _ _ => ⟨0, fun _ => ⟨1, 1, none⟩⟩),
          servedPut [] (some "again"), servedPut [("k", .null)] (some "again")] = some svc ∧
      svc.fetch fieldwise "docs" [zeroId.text] =
        (svc', .ok [(unitRecord zeroId []).toPayload]) := by
  have h := @fetch_returns_the_last_write _ FlatIndex _ _ _ "docs" servedNamespace ["shard-0"]
    fieldwise_lawful servedStart
    [servedPut [("k", .null)] none, .flush "shard-0" ⟨1, 1, none⟩,
      .delete [zeroId.text] (fun _ _ => ⟨0, fun _ => ⟨1, 1, none⟩⟩),
      servedPut [] (some "again"), servedPut [("k", .null)] (some "again")] rfl
    ⟨rfl, by decide, by decide, by decide +kernel, by decide +kernel, fun _ _ => rfl⟩ rfl rfl rfl
    (by decide +kernel) rfl zeroId.text
  obtain ⟨svc', h⟩ := h
  exact ⟨_, svc', rfl, h⟩

end

end Vsector.Ingest
