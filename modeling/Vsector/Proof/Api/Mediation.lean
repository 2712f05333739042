import Vsector.Impl.Api.Rest
import Vsector.Proof.Ingest.Fetch
import Vsector.Proof.Query.Cached

/-!
# What a caller without rights sees and changes

Every endpoint acts on the namespace it is asked about, and on no other
(`endpoint_acts`). Four of them ask for no permission, and a cached answer may
be that of another namespace. Where these are not used on what a tenant has no
right to (`Guarded`), no response shows records of a namespace the tenant may
not read, and a namespace that it may not write to stays as it is
(`records_mediated`).
-/

namespace Vsector.Sharding.ShardRouter

variable {X : Models.Externals} {r : ShardRouter} {ns : String}

theorem route_of_nil (h : r.etcd.listByNamespace ns = []) (recordId : String) :
    r.route X ns recordId = .error (.keyError s!"no shards for namespace {pyRepr ns}") := by
  unfold route select
  dsimp only
  rw [if_pos h]

end Vsector.Sharding.ShardRouter

namespace Vsector.Ingest.IngestService

open Framework Models Storage Sharding Index Infra Api Query

variable {ι : Type} [BaseIndex ι] {X : Externals} {svc svc' svc'' : IngestService ι} {ns n : String}

/-! ## Requests on a namespace -/

/-- The namespaces of the service have names. -/
structure WellNamed (svc : IngestService ι) : Prop where
  settings : ∀ n, (svc.settings.metadata.get? n).isSome → isNamespaceName n = true
  shards : ∀ n, svc.router.etcd.listByNamespace n ≠ [] → isNamespaceName n = true

/-- The service after a request on a namespace, which may be created or deleted. -/
structure Acts (ns : String) (svc svc' : IngestService ι) : Prop where
  metadata : ∀ n, n ≠ ns → svc'.settings.metadata.get? n = svc.settings.metadata.get? n
  threshold : svc'.settings.memtableThreshold = svc.settings.memtableThreshold
  roots : svc'.roots = svc.roots
  membership : svc'.router.membership = svc.router.membership
  store : InMemoryEtcd.KeepsOthers ns svc.router.etcd svc'.router.etcd
  contexts : ∀ key, ¬ IsKeyOf ns key → svc'.shards.get? key = svc.shards.get? key

/-- The namespace is as it was: its settings, and what is read of each id. -/
structure SameRecords (X : Externals) (n : String) (svc svc' : IngestService ι) : Prop where
  settings : svc'.settings.metadata.get? n = svc.settings.metadata.get? n
  answer : ∀ id, svc'.answer X n id = svc.answer X n id

theorem SameRecords.refl (n : String) (svc : IngestService ι) : SameRecords X n svc svc :=
  ⟨rfl, fun _ => rfl⟩

theorem SameRecords.trans (h : SameRecords X n svc svc') (h' : SameRecords X n svc' svc'') :
    SameRecords X n svc svc'' :=
  ⟨h'.settings.trans h.settings, fun id => (h'.answer id).trans (h.answer id)⟩

omit [BaseIndex ι] in
theorem KeepsOthers.acts (h : KeepsOthers ns svc svc') : Acts ns svc svc' where
  metadata n _ := by rw [h.settings]
  threshold := by rw [h.settings]
  roots := h.roots
  membership := h.membership
  store := h.store
  contexts := h.contexts

omit [BaseIndex ι] in
theorem Acts.wellNamed (h : Acts ns svc svc') (hw : svc.WellNamed)
    (hns : isNamespaceName ns = true) : svc'.WellNamed where
  settings n hn := by
    by_cases hne : n = ns
    · rw [hne]
      exact hns
    · rw [h.metadata n hne] at hn
      exact hw.settings n hn
  shards n hn := by
    by_cases hne : n = ns
    · rw [hne]
      exact hns
    · rw [h.store.list n hne] at hn
      exact hw.shards n hn

/-- The other namespaces stay as they are: their keys are others, or they have no shards at all. -/
theorem Acts.sameRecords (h : Acts ns svc svc') (hw : svc.WellNamed)
    (hns : isNamespaceName ns = true) (hne : n ≠ ns) :
    SameRecords X n svc svc' where
  settings := h.metadata n hne
  answer id := by
    have hlist := h.store.list n hne
    have hrouter : ShardRouter.SameShards n svc.router svc'.router :=
      ⟨by rw [hlist], h.store.nodes, h.membership⟩
    rw [answer_eq, answer_eq, hrouter.route]
    by_cases hn : isNamespaceName n = true
    · have hcontent : ∀ shard, svc'.content X n shard = svc.content X n shard := by
        intro shard
        rw [content_eq, content_eq, h.metadata n hne, h.threshold, h.roots,
          h.contexts _ fun ⟨_, hkey⟩ => hne (ctxKey_ns hn hns hkey)]
      simp only [hcontent]
    · have hnil : svc.router.etcd.listByNamespace n = [] := by
        by_contra hshards
        exact hn (hw.shards n hshards)
      rw [ShardRouter.route_of_nil hnil]
      rfl

/-! ## fetch -/

theorem fetch_of_nil (h : svc.router.etcd.listByNamespace ns = []) (ids : List String) :
    (svc.fetch X ns ids).1 = svc := by
  unfold fetch
  cases ids with
  | nil => rfl
  | cons id ids =>
    rw [forEach]
    unfold fetchOne
    dsimp only
    rw [ShardRouter.route_of_nil h]

/-- A fetch opens contexts, and does nothing else. -/
theorem opened_fetch (svc : IngestService ι) (ns : String) (ids : List String) :
    Opened X ns svc (svc.fetch X ns ids).1 ∧ KeepsOthers ns svc (svc.fetch X ns ids).1 := by
  have hone : ∀ (s : IngestService ι × List Payload) (id : String),
      Opened X ns svc s.1 ∧ KeepsOthers ns svc s.1 →
      Opened X ns svc (fetchOne X ns s id).1.1 ∧ KeepsOthers ns svc (fetchOne X ns s id).1.1 := by
    rintro ⟨s, out⟩ id ⟨hopened, hkeeps⟩
    unfold fetchOne
    dsimp only
    split
    · exact ⟨hopened, hkeeps⟩
    · rename_i shard hroute
      have hmem := ShardRouter.select_mem (ShardRouter.route_ok_iff.mp hroute).1
      split
      · exact ⟨hopened, hkeeps⟩
      · rename_i s' ctx hg
        have hctx : Opened X ns svc s' ∧ KeepsOthers ns svc s' :=
          ⟨hopened.getOrCreateCtx hmem hg,
            hkeeps.getOrCreateCtx (InMemoryEtcd.mem_listByNamespace.mp hmem).2
            (InMemoryEtcd.owned_of_mem hmem) hg⟩
        split <;> exact hctx
  have hloop := @forEach_invariant _ _ _ (fetchOne X ns)
    (fun s => Opened X ns svc s.1 ∧ KeepsOthers ns svc s.1) ids (svc, [])
    ⟨.refl ns svc, .refl ns svc⟩ fun id _ s hs => hone s id hs
  unfold fetch
  split
  · rename_i s out e he
    rw [he] at hloop
    exact hloop
  · rename_i s out he
    rw [he] at hloop
    exact hloop

theorem sameRecords_fetch (svc : IngestService ι) (ns : String) (ids : List String) :
    SameRecords X ns svc (svc.fetch X ns ids).1 :=
  ⟨by rw [(opened_fetch svc ns ids).2.settings], (opened_fetch svc ns ids).1.answer⟩

/-- A fetch of one id returns the record that is the answer, if there is one. -/
theorem fetch_one_ok {id : String} {records : List Payload}
    (h : (svc.fetch X ns [id]).2 = .ok records) :
    ∃ p, svc.answer X ns id = .ok p ∧ records = p.toList := by
  unfold fetch at h
  rw [forEach] at h
  obtain ⟨p, svc', hanswer, -, hone⟩ | ⟨exc, svc', -, hone⟩ := fetchOne_cases (X := X) svc ns id []
  · rw [hone] at h
    cases h
    exact ⟨p, hanswer, rfl⟩
  · rw [hone] at h
    cases h

end Vsector.Ingest.IngestService

namespace Vsector.Api

open Framework Models Storage Sharding Index Ingest Infra Query IngestService

variable {ι σ : Type} [BaseIndex ι] [LinearOrder σ] {X : Externals} {Q : QueryEngine ι σ}
  {g : Gateway} {lm : ShardLifecycleManager} {nodeId : String} {s t : Server ι σ}

/-! ## Permissions -/

/-- The tenant is allowed one of the reading actions. -/
def Gateway.MayRead (g : Gateway) (tenant ns : String) : Prop :=
  ∃ action ∈ ["query", "fetch"], g.checkPermission tenant ns action = .ok ()

/-- The tenant is allowed one of the writing actions. -/
def Gateway.MayWrite (g : Gateway) (tenant ns : String) : Prop :=
  ∃ action ∈ ["upsert", "delete"], g.checkPermission tenant ns action = .ok ()

omit [BaseIndex ι] [LinearOrder σ] in
/-- In production, an endpoint that asks for a permission does nothing without. -/
theorem guarded_cases (henv : g.env = "production") (auth : Auth) (ns action : String)
    (s : Server ι σ)
    (p : Server ι σ × Except Exc (Response σ)) :
    (∃ e, g.guarded auth ns action s p = (s, .error e)) ∨
      g.checkPermission auth.tenantName ns action = .ok () ∧ g.guarded auth ns action s p = p := by
  unfold Gateway.guarded Gateway.guard
  rcases g.checkPermission auth.tenantName ns action with e | ⟨⟩
  · dsimp only
    rw [if_pos henv]
    exact .inl ⟨e, rfl⟩
  · exact .inr ⟨rfl, rfl⟩

omit [BaseIndex ι] [LinearOrder σ] in
theorem guarded_ok (henv : g.env = "production") {auth : Auth} {ns action : String}
    {p : Server ι σ × Except Exc (Response σ)}
    {response : Response σ} (h : (g.guarded auth ns action s p).2 = .ok response) :
    g.checkPermission auth.tenantName ns action = .ok () ∧ p.2 = .ok response := by
  obtain ⟨e, he⟩ | ⟨hmay, he⟩ := guarded_cases henv auth ns action s p
  · rw [he] at h
    cases h
  · rw [he] at h
    exact ⟨hmay, h⟩

/-! ## What the endpoints act on -/

/-- The namespace a request is about. -/
def Request.ns : Request ι → String
  | .createNamespace ns _ => ns.name
  | .deleteNamespace ns | .upsert ns _ _ _ | .fetch ns _ | .delete ns _ _
      _ | .patchMetadata ns _ _ _ _
  | .getVector ns _ => ns
  | .query _ _ _ r => r.ns

/-- The name of a new namespace has passed its validator, and no id that the request gives to a
shard is that of another namespace's. -/
def Admissible (svc : IngestService ι) : Request ι → Prop
  | .createNamespace ns shardCount => isNamespaceName ns.name = true ∧
    ∀ i < shardCount, InMemoryEtcd.Owned svc.router.etcd ns.name (shardName ns.name i)
  | .upsert ns records _ _ => ∀ r ∈ records,
    InMemoryEtcd.Owned svc.router.etcd ns r.2.split.idA ∧
    InMemoryEtcd.Owned svc.router.etcd ns r.2.split.idB
  | .patchMetadata ns _ _ env _ =>
    InMemoryEtcd.Owned svc.router.etcd ns env.split.idA ∧
    InMemoryEtcd.Owned svc.router.etcd ns env.split.idB
  | _ => True

/-- Nothing has changed, or a namespace with a name was acted on. -/
def Confined (ns : String) (svc svc' : IngestService ι) : Prop :=
  svc' = svc ∨ isNamespaceName ns = true ∧ Acts ns svc svc'

omit [BaseIndex ι] [LinearOrder σ] in
theorem confined_of_keeps {ns : String} {svc svc' : IngestService ι} (hw : svc.WellNamed)
    (h : KeepsOthers ns svc svc') (hnone : svc.settings.metadata.get? ns = none → svc' = svc) :
    Confined ns svc svc' := by
  rcases hm : svc.settings.metadata.get? ns with _ | settings
  · exact .inl (hnone hm)
  · exact .inr ⟨hw.settings ns (by rw [hm]; rfl), h.acts⟩

omit [LinearOrder σ] in
theorem confined_fetch {svc : IngestService ι} (hw : svc.WellNamed) (ns : String)
    (ids : List String) :
    Confined ns svc (svc.fetch X ns ids).1 := by
  by_cases hnil : svc.router.etcd.listByNamespace ns = []
  · exact .inl (fetch_of_nil hnil ids)
  · exact .inr ⟨hw.shards ns hnil, (opened_fetch svc ns ids).2.acts⟩

namespace Server

omit [LinearOrder σ] in
theorem ingest_upsertVectors (s : Server ι σ) (ns : String) (records : List (Raw × RecordEnv ι))
    (key : Option String) (background : String → FlushEnv) :
    (s.upsertVectors X ns records key background).1.ingest =
      (s.ingest.upsert X ns records key background).1 := by
  unfold upsertVectors
  split
  · rename_i ingest result he
    rw [he]
  · rename_i ingest e he
    rw [he]

omit [LinearOrder σ] in
/-- `get_vector` fetches one id. -/
theorem getVector_cases (s : Server ι σ) (ns vid : String) :
    (s.getVector X ns vid).1.ingest = (s.ingest.fetch X ns [vid]).1 ∧
      ∀ rec, (s.getVector X ns vid).2 = .ok rec → s.ingest.answer X ns vid = .ok (some rec) := by
  unfold getVector
  rcases hf : s.ingest.fetch X ns [vid] with ⟨ingest, e | _ | ⟨rec, records⟩⟩
  · exact ⟨rfl, fun rec h => by cases h⟩
  · exact ⟨rfl, fun rec h => by cases h⟩
  · refine ⟨rfl, fun rec' h => ?_⟩
    cases h
    have hone : (s.ingest.fetch X ns [vid]).2 = .ok (rec :: records) := by rw [hf]
    obtain ⟨p, hanswer, hp⟩ := fetch_one_ok hone
    cases p with
    | none => cases hp
    | some p =>
      cases hp
      exact hanswer

omit [LinearOrder σ] in
/-- `patch_metadata` fetches one id, and upserts where it is found. -/
theorem patchMetadata_cases (s : Server ι σ) (ns vid : String) (body : Metadata) (env : RecordEnv ι)
    (background : String → FlushEnv) :
    (s.patchMetadata X ns vid body env background).1.ingest = (s.ingest.fetch X ns [vid]).1 ∨
      (∃ rec, s.ingest.answer X ns vid = .ok (some rec)) ∧ ∃ raw,
        (s.patchMetadata X ns vid body env background).1.ingest =
          ((s.ingest.fetch X ns [vid]).1.upsert X ns [(raw, env)] none background).1 := by
  obtain ⟨hfetch, hanswer⟩ := s.getVector_cases (X := X) ns vid
  unfold patchMetadata
  rcases hg : s.getVector X ns vid with ⟨s', e | rec⟩
  · rw [hg] at hfetch
    exact .inl hfetch
  · rw [hg] at hfetch hanswer
    have hfetch' : s'.ingest = (s.ingest.fetch X ns [vid]).1 := hfetch
    dsimp only
    rcases patchedVector X s'.ingest ns vid rec with e | vector
    · exact .inl hfetch
    · refine .inr ⟨⟨rec, hanswer rec rfl⟩,
        [("id", .str vid), ("vector", .arr vector),
          ("metadata", .obj (mergeMetadata rec.metadata body))], ?_⟩
      rw [← hfetch']

omit [BaseIndex ι] [LinearOrder σ] in
theorem acts_createNamespace (s : Server ι σ) (ns : Namespace) (shardCount : Nat)
    (h : ∀ i < shardCount, InMemoryEtcd.Owned s.ingest.router.etcd ns.name (shardName ns.name i)) :
    Acts ns.name s.ingest (s.createNamespace lm nodeId ns shardCount).1.ingest := by
  unfold createNamespace
  split
  · exact (KeepsOthers.refl ns.name s.ingest).acts
  · exact
      { metadata := fun n hne => Dict.get?_set_ne _ _ hne
        threshold := rfl
        roots := rfl
        membership := rfl
        store := keepsOthers_ensureNamespaceShards lm nodeId h
        contexts := fun _ _ => rfl }

omit [BaseIndex ι] [LinearOrder σ] in
theorem acts_deleteNamespace (s : Server ι σ) (name : String) :
    Acts name s.ingest (s.deleteNamespace name).1.ingest := by
  unfold deleteNamespace
  split
  · exact (KeepsOthers.refl name s.ingest).acts
  · exact
      { metadata := fun n hne => Dict.get?_pop_ne _ hne
        threshold := rfl
        roots := rfl
        membership := rfl
        store := keepsOthers_deleteShards _ name
        contexts := fun _ _ => rfl }

end Server

variable (X Q lm nodeId) in
/-- An endpoint acts on the namespace it is asked about, and on no other. -/
theorem endpoint_acts (henv : g.env = "production") (auth : Auth) (hw : s.ingest.WellNamed)
    (request : Request ι)
    (hadmissible : Admissible s.ingest request) :
    Confined request.ns s.ingest (endpoint X Q g lm nodeId auth s request).1.ingest := by
  have hguarded : ∀ ns action p, Confined ns s.ingest p.1.ingest →
      Confined ns s.ingest (g.guarded auth ns action s p).1.ingest := by
    intro ns action p hp
    obtain ⟨e, he⟩ | ⟨-, he⟩ := guarded_cases henv auth ns action s p
    · rw [he]
      exact .inl rfl
    · rw [he]
      exact hp
  cases request with
  | createNamespace ns shardCount =>
    exact .inr ⟨hadmissible.1, s.acts_createNamespace ns shardCount hadmissible.2⟩
  | deleteNamespace name =>
    show Confined name s.ingest (s.deleteNamespace name).1.ingest
    rcases hm : s.ingest.settings.metadata.get? name with _ | settings
    · exact .inl (by rw [Server.deleteNamespace, hm])
    · exact .inr ⟨hw.settings name (by rw [hm]; rfl), s.acts_deleteNamespace name⟩
  | upsert ns records key background =>
    refine hguarded ns _ _ ?_
    show Confined ns s.ingest (s.upsertVectors X ns records key background).1.ingest
    rw [Server.ingest_upsertVectors]
    exact confined_of_keeps hw (keepsOthers_upsert X s.ingest ns records key background hadmissible)
      fun hm =>
      upsert_of_none X s.ingest hm records key background
  | query now tookMs timedOut r => exact hguarded r.ns _ _ (.inl rfl)
  | fetch ns ids => exact hguarded ns _ _ (confined_fetch hw ns ids)
  | delete ns ids filter env =>
    exact hguarded ns _ _ (confined_of_keeps hw (keepsOthers_deleteRequest ids filter env) fun hm =>
      deleteRequest_of_none hm ids filter env)
  | patchMetadata ns vid body env background =>
    show Confined ns s.ingest (s.patchMetadata X ns vid body env background).1.ingest
    obtain h | ⟨-, raw, h⟩ := s.patchMetadata_cases (X := X) ns vid body env background
    · rw [h]
      exact confined_fetch hw ns [vid]
    · have hkeeps := (opened_fetch (X := X) s.ingest ns [vid]).2
      rw [h]
      by_cases hnil : s.ingest.router.etcd.listByNamespace ns = []
      · rw [fetch_of_nil hnil]
        exact confined_of_keeps hw
          (keepsOthers_upsert X s.ingest ns _ none background fun r hr => by
          rw [List.mem_singleton.mp hr]
          exact hadmissible) fun hm => upsert_of_none X s.ingest hm _ none background
      · refine .inr ⟨hw.shards ns hnil,
          (hkeeps.trans (keepsOthers_upsert X _ ns _ none background fun r hr => ?_)).acts⟩
        rw [List.mem_singleton.mp hr]
        exact ⟨hkeeps.store.owned _ hadmissible.1, hkeeps.store.owned _ hadmissible.2⟩
  | getVector ns vid =>
    show Confined ns s.ingest (s.getVector X ns vid).1.ingest
    rw [(s.getVector_cases ns vid).1]
    exact confined_fetch hw ns [vid]

/-! ## Whose records a response has -/

/-- A server, and for the keys of its cache the namespace whose answer was kept last. -/
structure Traced (ι σ : Type) where
  server : Server ι σ
  origins : String → String

/-- The response has records. -/
def Response.HasRecords : Response σ → Prop
  | .queried answer => answer.results ≠ []
  | .fetched vectors => vectors ≠ []
  | .vector _ => True
  | _ => False

namespace Traced

variable (X Q g lm nodeId) in
/-- What a request gets. -/
def response (t : Traced ι σ) (p : Credentials × Request ι) : Except Exc (Response σ) :=
  (serve X Q g lm nodeId t.server p.1 p.2).2

/-- The namespace of the records that a request gets. -/
def source (X : Externals) (t : Traced ι σ) : Request ι → String
  | .query now _ _ r =>
    ((t.server.served X now r).map fun _ => t.origins (hashQuery X r.cacheQuery)).getD r.ns
  | request => request.ns

variable (X Q g lm nodeId) in
/-- The response to a request has records of the namespace. -/
def Shows (t : Traced ι σ) (p : Credentials × Request ι) (n : String) : Prop :=
  t.source X p.2 = n ∧ ∃ response, t.response X Q g lm nodeId p = .ok response ∧ response.HasRecords

variable (X Q) in
/-- A query that is answered by its shards leaves its answer in the cache, unless it asked for
vectors. -/
def originsAfter (t : Traced ι σ) (now : ℚ) (tookMs : Int) (timedOut : Bool) (r : QueryRequest) :
    String → String :=
  match (beginQuery X t.server.ingest t.server.cache now r).2,
    (query X Q t.server.ingest t.server.cache now tookMs timedOut r).2 with
  | .ok (.waiting _), .ok _ =>
    if r.includeVector then t.origins else Function.update t.origins (hashQuery X r.cacheQuery) r.ns
  | _, _ => t.origins

variable (X Q g lm nodeId) in
def nextOrigins (t : Traced ι σ) (p : Credentials × Request ι) : String → String :=
  match p.2, t.response X Q g lm nodeId p with
  | .query now tookMs timedOut r, .ok _ => t.originsAfter X Q now tookMs timedOut r
  | _, _ => t.origins

variable (X Q g lm nodeId) in
/-- The server after a request. -/
def next (t : Traced ι σ) (p : Credentials × Request ι) : Traced ι σ :=
  ⟨(serve X Q g lm nodeId t.server p.1 p.2).1, t.nextOrigins X Q g lm nodeId p⟩

variable (X g) in
/-- The endpoints that ask for no permission are used by the tenant where it has one, or where they
find no record, an existing namespace or none; and cached answers that it gets have no records that
it may not read. -/
def Guarded (tenant : String) (t : Traced ι σ) (p : Credentials × Request ι) : Prop :=
  match p.2 with
  | .createNamespace ns _ =>
    g.MayWrite tenant ns.name ∨ (t.server.ingest.settings.metadata.get? ns.name).isSome
  | .deleteNamespace name =>
    g.MayWrite tenant name ∨ t.server.ingest.settings.metadata.get? name = none
  | .query now _ _ r => ∀ answer, t.server.served X now r = some answer →
    answer.results = [] ∨ g.MayRead tenant (t.origins (hashQuery X r.cacheQuery))
  | .patchMetadata ns vid _ _ _ =>
    g.MayWrite tenant ns ∨ ∀ rec, t.server.ingest.answer X ns vid ≠ .ok (some rec)
  | .getVector ns vid =>
    g.MayRead tenant ns ∨ ∀ rec, t.server.ingest.answer X ns vid ≠ .ok (some rec)
  | _ => True

variable {t : Traced ι σ} {c : Credentials} {auth : Auth}

omit [BaseIndex ι] in
theorem query_of_served {now : ℚ} {r : QueryRequest} {answer : QueryAnswer σ} {s : Server ι σ}
    (h : s.served X now r = some answer) (tookMs : Int) (timedOut : Bool) :
    (query X Q s.ingest s.cache now tookMs timedOut r).2 = .ok answer := by
  unfold Server.served at h
  unfold query
  rcases hb : beginQuery X s.ingest s.cache now r with ⟨cache, e | begun⟩
  · rw [hb] at h
    cases h
  · rw [hb] at h
    cases begun with
    | cached a =>
      cases h
      rfl
    | noShards => cases h
    | waiting shards => cases h

theorem response_ok (hauth : g.verifyApiKey c = .ok auth) (request : Request ι) :
    t.response X Q g lm nodeId (c, request) =
      (endpoint X Q g lm nodeId auth t.server request).2 := by
  unfold response serve
  dsimp only
  rw [hauth]

/-- A response shows records only where the tenant may read. -/
theorem mayRead_of_shows (henv : g.env = "production") (hauth : g.verifyApiKey c = .ok auth)
    {request : Request ι}
    (hguarded : t.Guarded X g auth.tenantName (c, request)) {n : String}
    (h : t.Shows X Q g lm nodeId (c, request) n) : g.MayRead auth.tenantName n := by
  obtain ⟨hsource, response, hresponse, hrecords⟩ := h
  rw [response_ok hauth] at hresponse
  have hnone : ∀ {α : Type} {build : α → Response σ} {p : Server ι σ × Except Exc α},
      (respond build p).2 = .ok response →
      (∀ a, ¬ (build a).HasRecords) → g.MayRead auth.tenantName n := by
    intro α build p hp hbuild
    obtain ⟨s, e | a⟩ := p
    · cases hp
    · cases hp
      exact absurd hrecords (hbuild a)
  cases request with
  | createNamespace ns shardCount => exact hnone hresponse fun _ h => h
  | deleteNamespace name => exact hnone hresponse fun _ h => h
  | upsert ns records key background => exact hnone (guarded_ok henv hresponse).2 fun _ h => h
  | query now tookMs timedOut r =>
    obtain ⟨hmay, hanswer⟩ := guarded_ok henv hresponse
    have hsource' : ((t.server.served X now r).map fun _ =>
        t.origins (hashQuery X r.cacheQuery)).getD r.ns = n := hsource
    rcases hserved : t.server.served X now r with _ | answer
    · rw [hserved] at hsource'
      exact ⟨"query", List.mem_cons_self, hsource' ▸ hmay⟩
    · rw [hserved] at hsource'
      have hqueried : (query X Q t.server.ingest t.server.cache now tookMs timedOut r).2.map
          Response.queried =
          .ok response := hanswer
      rw [query_of_served hserved] at hqueried
      cases hqueried
      rcases hguarded answer hserved with hempty | hmay
      · exact absurd hempty hrecords
      · exact hsource' ▸ hmay
  | fetch ns ids =>
    have hns : ns = n := hsource
    exact ⟨"fetch", by decide, hns ▸ (guarded_ok henv hresponse).1⟩
  | delete ns ids filter env => exact hnone (guarded_ok henv hresponse).2 fun _ h => h
  | patchMetadata ns vid body env background => exact hnone hresponse fun _ h => h
  | getVector ns vid =>
    have hns : ns = n := hsource
    have hget : (t.server.getVector X ns vid).2.map Response.vector = .ok response := hresponse
    rcases hguarded with hmay | habsent
    · exact hns ▸ hmay
    · rcases hrec : (t.server.getVector X ns vid).2 with e | rec
      · rw [hrec] at hget
        cases hget
      · exact absurd ((t.server.getVector_cases ns vid).2 rec hrec) (habsent rec)

omit [BaseIndex ι] in
/-- What a query leaves under a key was there before, or is its answer. -/
theorem kept_of_query {now : ℚ} {tookMs : Int} {timedOut : Bool} {r : QueryRequest} {key : String}
    {answer : QueryAnswer σ}
    (h : (query X Q t.server.ingest t.server.cache now tookMs timedOut r).1.Holds key answer) :
    (t.server.cache.Holds key answer ∧
      t.originsAfter X Q now tookMs timedOut r key = t.origins key) ∨
      t.originsAfter X Q now tookMs timedOut r key = r.ns ∧
        (query X Q t.server.ingest t.server.cache now tookMs timedOut r).2 = .ok answer := by
  unfold originsAfter
  unfold query at h ⊢
  rcases hb : beginQuery X t.server.ingest t.server.cache now r with ⟨cache, e | begun⟩
  · rw [hb] at h
    exact .inl ⟨(beginQuery_spec hb).1 key answer h, rfl⟩
  · rw [hb] at h
    have hcache := (beginQuery_spec hb).1 key answer
    unfold endQuery at h ⊢
    cases begun with
    | cached a => exact .inl ⟨hcache h, rfl⟩
    | noShards => exact .inl ⟨hcache h, rfl⟩
    | waiting shards =>
      dsimp only at h ⊢
      rcases hf : (if timedOut = true then Except.ok []
        else fanOut X Q t.server.ingest r shards) with e | found
      · rw [hf] at h
        exact .inl ⟨hcache h, rfl⟩
      · rw [hf] at h
        unfold finishQuery at h ⊢
        dsimp only at h ⊢
        split at h
        · rename_i hvector
          rw [if_pos hvector]
          exact .inl ⟨hcache h, rfl⟩
        · rename_i hvector
          rw [if_neg hvector]
          rcases TieredCache.setQuery_holds h with ⟨rfl, rfl⟩ | ⟨hne, hheld⟩
          · exact .inr ⟨Function.update_self _ _ _, rfl⟩
          · exact .inl ⟨hcache hheld, Function.update_of_ne hne _ _⟩

/-- Only a query adds to the cache. -/
theorem cache_endpoint (henv : g.env = "production") {request : Request ι}
    (hquery : ∀ now tookMs timedOut r,
    request ≠ .query now tookMs timedOut r) (key : String) (answer : QueryAnswer σ)
    (h : (endpoint X Q g lm nodeId auth s request).1.cache.Holds key answer) :
    s.cache.Holds key answer := by
  have hguarded : ∀ {ns action} {p : Server ι σ × Except Exc (Response σ)},
      (g.guarded auth ns action s p).1.cache.Holds key answer →
        (p.1.cache.Holds key answer → s.cache.Holds key answer) →
      s.cache.Holds key answer := by
    intro ns action p hheld hp
    obtain ⟨e, he⟩ | ⟨-, he⟩ := guarded_cases henv auth ns action s p
    · rw [he] at hheld
      exact hheld
    · rw [he] at hheld
      exact hp hheld
  have hget : ∀ ns vid, (s.getVector X ns vid).1.cache = s.cache := by
    intro ns vid
    unfold Server.getVector
    split <;> rfl
  cases request with
  | createNamespace ns shardCount =>
    have hcache : (s.createNamespace lm nodeId ns shardCount).1.cache = s.cache := by
      unfold Server.createNamespace
      split <;> rfl
    exact hcache ▸ h
  | deleteNamespace name =>
    have hcache : (s.deleteNamespace name).1.cache = s.cache := by
      unfold Server.deleteNamespace
      split <;> rfl
    exact hcache ▸ h
  | upsert ns records key background =>
    refine hguarded h fun hp => ?_
    have hupsert : (s.upsertVectors X ns records key background).1.cache.Holds _ answer := hp
    unfold Server.upsertVectors at hupsert
    split at hupsert
    · exact absurd hupsert (TieredCache.invalidateNamespace_holds ns)
    · exact hupsert
  | query now tookMs timedOut r => exact absurd rfl (hquery now tookMs timedOut r)
  | fetch ns ids => exact hguarded h id
  | delete ns ids filter env => exact hguarded h id
  | patchMetadata ns vid body env background =>
    have hcache : (s.patchMetadata X ns vid body env background).1.cache = s.cache := by
      have hvid := hget ns vid
      unfold Server.patchMetadata
      split
      · rename_i s' e he
        rw [he] at hvid
        exact hvid
      · rename_i s' rec he
        rw [he] at hvid
        split <;> exact hvid
    exact hcache ▸ h
  | getVector ns vid => exact hget ns vid ▸ h

/-- The origin of a cached answer is the namespace of the query that it was the answer to. -/
theorem origin_of_kept (henv : g.env = "production") {p : Credentials × Request ι} {key : String}
    {answer : QueryAnswer σ}
    (h : (t.next X Q g lm nodeId p).server.cache.Holds key answer) :
    (t.server.cache.Holds key answer ∧ (t.next X Q g lm nodeId p).origins key = t.origins key) ∨
      (t.next X Q g lm nodeId p).origins key = p.2.ns ∧
      t.response X Q g lm nodeId p = .ok (.queried answer) := by
  obtain ⟨c, request⟩ := p
  have hheld : (serve X Q g lm nodeId t.server c request).1.cache.Holds key answer := h
  have horigins : (t.next X Q g lm nodeId (c, request)).origins = t.nextOrigins X Q g lm nodeId
      (c, request) := rfl
  rw [horigins]
  rcases hauth : g.verifyApiKey c with e | auth
  · have hresponse : t.response X Q g lm nodeId (c, request) = .error e := by
      unfold response serve
      dsimp only
      rw [hauth]
    unfold serve at hheld
    rw [hauth] at hheld
    refine .inl ⟨hheld, ?_⟩
    unfold nextOrigins
    rw [hresponse]
    cases request <;> rfl
  · have hserve : serve X Q g lm nodeId t.server c request = endpoint X Q g lm nodeId auth
        t.server request := by
      unfold serve
      rw [hauth]
    rw [hserve] at hheld
    by_cases hquery : ∃ now tookMs timedOut r, request = .query now tookMs timedOut r
    · obtain ⟨now, tookMs, timedOut, r, rfl⟩ := hquery
      unfold nextOrigins
      rw [response_ok hauth]
      obtain ⟨e, he⟩ | ⟨-, he⟩ := guarded_cases henv auth r.ns "query" t.server
        (respond .queried (t.server.queryVectors X Q now tookMs timedOut r))
      · have hdenied : endpoint X Q g lm nodeId auth t.server (.query now tookMs timedOut r) =
            (t.server, .error e) := he
        rw [hdenied] at hheld ⊢
        exact .inl ⟨hheld, rfl⟩
      · have hdone : endpoint X Q g lm nodeId auth t.server (.query now tookMs timedOut r) =
            respond .queried (t.server.queryVectors X Q now tookMs timedOut r) := he
        rw [hdone] at hheld ⊢
        have hresponse :
            (respond Response.queried (t.server.queryVectors X Q now tookMs timedOut r)).2 =
            (query X Q t.server.ingest t.server.cache now tookMs timedOut r).2.map .queried := rfl
        rw [hresponse]
        rcases kept_of_query hheld with ⟨hbefore, hsame⟩ | ⟨hnew, hanswer⟩
        · refine .inl ⟨hbefore, ?_⟩
          rcases (query X Q t.server.ingest t.server.cache now tookMs timedOut r).2 with e | a
          · rfl
          · exact hsame
        · rw [hanswer]
          exact .inr ⟨hnew, rfl⟩
    · have hnot : ∀ now tookMs timedOut r, request ≠ .query now tookMs timedOut r :=
        fun now tookMs timedOut r he =>
        hquery ⟨now, tookMs, timedOut, r, he⟩
      refine .inl ⟨cache_endpoint henv hnot key answer hheld, ?_⟩
      cases request with
      | query now tookMs timedOut r => exact absurd rfl (hnot now tookMs timedOut r)
      | _ => rfl

variable (X Q g lm nodeId) in
/-- What is kept at the end of a run that begins without cached answers was the response to a query
of the run, on the namespace that is its origin. -/
theorem origin_of_cached (henv : g.env = "production") {t₀ : Traced ι σ}
    (hcache : ∀ key answer, ¬ t₀.server.cache.Holds key answer)
    (ps : List (Credentials × Request ι)) {key : String} {answer : QueryAnswer σ}
    (h : (ps.foldl (next X Q g lm nodeId) t₀).server.cache.Holds key answer) :
    ∃ before p after, ps = before ++ p :: after ∧
      (before.foldl (next X Q g lm nodeId) t₀).response X Q g lm nodeId p = .ok (.queried answer) ∧
      (ps.foldl (next X Q g lm nodeId) t₀).origins key = p.2.ns := by
  induction ps using List.reverseRecOn with
  | nil => exact absurd h (hcache key answer)
  | append_singleton ps p ih =>
    rw [List.foldl_append] at h ⊢
    rcases origin_of_kept henv h with ⟨hbefore, hsame⟩ | ⟨horigin, hresponse⟩
    · obtain ⟨before, q, after, rfl, hq, horigin⟩ := ih hbefore
      exact ⟨before, q, after ++ [p],
        by rw [List.append_assoc, List.cons_append], hq, hsame.trans horigin⟩
    · exact ⟨ps, p, [], rfl, hresponse, horigin⟩

/-- Without the right to write, a request leaves its namespace as it was. -/
theorem sameRecords_of_not_mayWrite (henv : g.env = "production") {request : Request ι}
    (hguarded : t.Guarded X g auth.tenantName (c, request))
    (h : ¬ g.MayWrite auth.tenantName request.ns) :
    SameRecords X request.ns t.server.ingest
      (endpoint X Q g lm nodeId auth t.server request).1.ingest := by
  have hdenied : ∀ action ∈ ["upsert", "delete"], ∀ p,
      (g.guarded auth request.ns action t.server p).1 = t.server := by
    intro action haction p
    obtain ⟨e, he⟩ | ⟨hmay, -⟩ := guarded_cases henv auth request.ns action t.server p
    · rw [he]
    · exact absurd ⟨action, haction, hmay⟩ h
  cases request with
  | createNamespace ns shardCount =>
    obtain ⟨settings, hexists⟩ := Option.isSome_iff_exists.mp (hguarded.resolve_left h)
    show SameRecords X ns.name t.server.ingest
      (t.server.createNamespace lm nodeId ns shardCount).1.ingest
    rw [Server.createNamespace, hexists]
    exact .refl _ _
  | deleteNamespace name =>
    have hnone := hguarded.resolve_left h
    show SameRecords X name t.server.ingest (t.server.deleteNamespace name).1.ingest
    rw [Server.deleteNamespace, hnone]
    exact .refl _ _
  | upsert ns records key background =>
    have hsame : (endpoint X Q g lm nodeId auth t.server
        (.upsert ns records key background)).1.ingest = t.server.ingest :=
      congrArg Server.ingest (hdenied "upsert" (by decide) _)
    rw [hsame]
    exact .refl _ _
  | query now tookMs timedOut r =>
    show SameRecords X r.ns t.server.ingest (g.guarded auth r.ns "query" t.server _).1.ingest
    obtain ⟨e, he⟩ | ⟨-, he⟩ := guarded_cases henv auth r.ns "query" t.server
      (respond .queried (t.server.queryVectors X Q now tookMs timedOut r)) <;> rw [he]
        <;> exact .refl _ _
  | fetch ns ids =>
    show SameRecords X ns t.server.ingest (g.guarded auth ns "fetch" t.server _).1.ingest
    obtain ⟨e, he⟩ | ⟨-, he⟩ := guarded_cases henv auth ns "fetch" t.server
      (respond .fetched (t.server.fetchVectors X ns ids))
    · rw [he]
      exact .refl _ _
    · rw [he]
      exact sameRecords_fetch t.server.ingest ns ids
  | delete ns ids filter env =>
    have hsame : (endpoint X Q g lm nodeId auth t.server (.delete ns ids filter env)).1.ingest =
        t.server.ingest :=
      congrArg Server.ingest (hdenied "delete" (by decide) _)
    rw [hsame]
    exact .refl _ _
  | patchMetadata ns vid body env background =>
    show SameRecords X ns t.server.ingest
      (t.server.patchMetadata X ns vid body env background).1.ingest
    obtain he | ⟨⟨rec, hrec⟩, -⟩ := t.server.patchMetadata_cases (X := X) ns vid body env background
    · rw [he]
      exact sameRecords_fetch t.server.ingest ns [vid]
    · exact absurd hrec (hguarded.resolve_left h rec)
  | getVector ns vid =>
    show SameRecords X ns t.server.ingest (t.server.getVector X ns vid).1.ingest
    rw [(t.server.getVector_cases ns vid).1]
    exact sameRecords_fetch t.server.ingest ns [vid]

/-! ## Runs -/

/-- The headers are those of the tenant. -/
def Authenticates (g : Gateway) (tenant : String) (c : Credentials) : Prop :=
  ∃ auth, g.verifyApiKey c = .ok auth ∧ auth.tenantName = tenant

variable (X Q lm nodeId) in
/-- What a request of the tenant does to a namespace. -/
theorem next_mediated (henv : g.env = "production") {tenant : String}
    (hw : t.server.ingest.WellNamed)
    {p : Credentials × Request ι} (htenant : Authenticates g tenant p.1)
    (hadmissible : Admissible t.server.ingest p.2)
    (hguarded : t.Guarded X g tenant p) (n : String) :
    (t.next X Q g lm nodeId p).server.ingest.WellNamed ∧
    (¬ g.MayRead tenant n → ¬ t.Shows X Q g lm nodeId p n) ∧
      (¬ g.MayWrite tenant n →
        SameRecords X n t.server.ingest (t.next X Q g lm nodeId p).server.ingest) := by
  obtain ⟨c, request⟩ := p
  obtain ⟨auth, hauth, rfl⟩ := htenant
  have hnext : (t.next X Q g lm nodeId (c, request)).server =
      (endpoint X Q g lm nodeId auth t.server request).1 := by
    show (serve X Q g lm nodeId t.server c request).1 = _
    unfold serve
    rw [hauth]
  have hacts := endpoint_acts X Q lm nodeId henv auth hw request hadmissible
  rw [hnext]
  refine ⟨?_, fun hread hshows => hread (mayRead_of_shows henv hauth hguarded hshows),
    fun hwrite => ?_⟩
  · obtain hsame | ⟨hns, hacts⟩ := hacts
    · rw [hsame]
      exact hw
    · exact hacts.wellNamed hw hns
  · by_cases hn : n = request.ns
    · subst hn
      exact sameRecords_of_not_mayWrite henv hguarded hwrite
    · obtain hsame | ⟨hns, hacts⟩ := hacts
      · rw [hsame]
        exact .refl n _
      · exact hacts.sameRecords hw hns hn

/-- In production, the responses to a tenant show no record of a namespace that it may not read,
and a namespace that it may not write to exists or not, and has the records, as before. -/
theorem records_mediated (henv : g.env = "production") {tenant : String} {t : Traced ι σ}
    (hw : t.server.ingest.WellNamed)
    {ps : List (Credentials × Request ι)} (htenant : ∀ p ∈ ps, Authenticates g tenant p.1)
    (hadmissible : Along (total (next X Q g lm nodeId))
      (fun t p => Admissible t.server.ingest p.2) t ps)
    (hguarded : Along (total (next X Q g lm nodeId)) (Guarded X g tenant) t ps) (n : String) :
    (¬ g.MayRead tenant n → Along (total (next X Q g lm nodeId))
      (fun t p => ¬ t.Shows X Q g lm nodeId p n) t ps) ∧
      (¬ g.MayWrite tenant n →
        SameRecords X n t.server.ingest (ps.foldl (next X Q g lm nodeId) t).server.ingest) := by
  induction ps generalizing t with
  | nil => exact ⟨fun _ => trivial, fun _ => .refl n _⟩
  | cons p ps ih =>
    obtain ⟨hp, hps⟩ := List.forall_mem_cons.mp htenant
    obtain ⟨hw', hshows, hsame⟩ := next_mediated X Q lm nodeId henv hw hp hadmissible.1 hguarded.1 n
    obtain ⟨hread, hwrite⟩ := ih hw' hps (hadmissible.2 _ rfl) (hguarded.2 _ rfl)
    refine ⟨fun h => ⟨hshows h, fun t' ht' => ?_⟩, fun h => (hsame h).trans (hwrite h)⟩
    cases ht'
    exact hread h

/-! A tenant that may read one of two namespaces fetches a record of it; one without any rights
gets the same record. -/

private def mediator : Gateway where
  env := "production"
  apiKeys := (Dict.set ∅ "demo-key" "demo").set "guest-key" "guest"
  jwtDecode := fun _ => none
  policies := Dict.set ∅ "demo" (Dict.set ∅ "docs" ["reader"])
  opa := none

private def withKey (key : String) : Credentials := ⟨some key, none⟩

private def emptyDocs : Server FlatIndex ℚ where
  ingest :=
    { settings := ⟨Dict.set ∅ "docs" ⟨"docs", 1, .cosine, .flat, 1⟩, 10000⟩
      router := ⟨(InMemoryEtcd.init none).put ⟨"docs#shard-000", "docs", "node-1", .active, 0,
        50000000, [], 1⟩, none⟩
      nodeId := some "node-1"
      roots := ∅
      replicator := .init ∅
      replicationStats := ∅
      shards := ∅
      idempotency := ∅ }
  cache := ⟨60, ∅, none⟩
  inflight := ∅

/-- A record of the namespace, which another tenant has upserted. -/
private def oneRecord : Traced FlatIndex ℚ :=
  ⟨(emptyDocs.upsertVectors fieldwise "docs"
      [([("id", .str zeroId.text), ("vector", .arr [.int 1])],
        ⟨"2026-01-01T00:00:00Z", oneId, ⟨1, 1, none⟩, none, ⟨0, fun _ => ⟨1, 1, none⟩⟩, none,
          ⟨"a", "b", none⟩⟩)]
      none fun _ => ⟨1, 1, none⟩).1, id⟩

private def noResults : QueryEngine FlatIndex ℚ := ⟨fun _ _ => .ok [], noRerank⟩

private theorem wellNamed_oneRecord : oneRecord.server.ingest.WellNamed := by
  have hdocs : emptyDocs.ingest.WellNamed := by
    refine ⟨fun n hn => ?_, fun n hn => ?_⟩
    · have hget :
          (Dict.get? (Dict.set ∅ "docs" (⟨"docs", 1, .cosine, .flat, 1⟩ : Namespace)) n).isSome :=
        hn
      rw [Dict.get?_set] at hget
      split at hget
      · rename_i h
        rw [h]
        decide
      · cases hget
    · obtain ⟨shard, hshard⟩ := List.exists_mem_of_ne_nil _ hn
      obtain ⟨hget, hns⟩ := InMemoryEtcd.mem_listByNamespace.mp hshard
      have hput : ((InMemoryEtcd.init none).put ⟨"docs#shard-000", "docs", "node-1", .active, 0,
          50000000, [], 1⟩).get
          shard.id = some shard := hget
      rw [InMemoryEtcd.get_put] at hput
      split at hput
      · cases hput
        rw [← hns]
        decide
      · cases hput
  have hkeeps := keepsOthers_upsert fieldwise emptyDocs.ingest "docs"
    [([("id", .str zeroId.text), ("vector", .arr [.int 1])],
      ⟨"2026-01-01T00:00:00Z", oneId, ⟨1, 1, none⟩, none, ⟨0, fun _ => ⟨1, 1, none⟩⟩, none,
        ⟨"a", "b", none⟩⟩)]
    none (fun _ => ⟨1, 1, none⟩) fun r hr => by
      rw [List.mem_singleton.mp hr]
      exact ⟨InMemoryEtcd.owned_of_none (by decide), InMemoryEtcd.owned_of_none (by decide)⟩
  have hingest : oneRecord.server.ingest = _ :=
    emptyDocs.ingest_upsertVectors "docs" _ none fun _ => ⟨1, 1, none⟩
  rw [hingest]
  exact hkeeps.acts.wellNamed hdocs (by decide)

private def readerCalls : List (Credentials × Request FlatIndex) :=
  [(withKey "demo-key", .fetch "docs" [zeroId.text]),
    (withKey "demo-key", .getVector "docs" zeroId.text)]

theorem reader_mediated :
    Along (total (next fieldwise noResults mediator ⟨true⟩ "node-1"))
        (fun t p => ¬ t.Shows fieldwise noResults mediator ⟨true⟩ "node-1" p "notes")
          oneRecord readerCalls ∧
      SameRecords fieldwise "docs" oneRecord.server.ingest
        (readerCalls.foldl (next fieldwise noResults mediator ⟨true⟩ "node-1")
          oneRecord).server.ingest := by
  have htenant : ∀ p ∈ readerCalls, Authenticates mediator "demo" p.1 := by
    intro p hp
    refine ⟨⟨some "demo", none⟩, ?_, rfl⟩
    rcases List.mem_cons.mp hp with rfl | hp
    · rfl
    · rw [List.mem_singleton.mp hp]
      rfl
  have hadmissible : Along (total (next fieldwise noResults mediator ⟨true⟩ "node-1"))
      (fun t p => Admissible t.server.ingest p.2) oneRecord readerCalls :=
    ⟨trivial, fun _ _ => ⟨trivial, fun _ _ => trivial⟩⟩
  have hguarded : Along (total (next fieldwise noResults mediator ⟨true⟩ "node-1"))
      (Guarded fieldwise mediator "demo")
      oneRecord readerCalls :=
    ⟨trivial, fun _ _ => ⟨.inl ⟨"query", by decide, rfl⟩, fun _ _ => trivial⟩⟩
  refine ⟨(records_mediated rfl wellNamed_oneRecord htenant hadmissible hguarded "notes").1 ?_,
    (records_mediated rfl wellNamed_oneRecord htenant hadmissible hguarded "docs").2 ?_⟩
  · rintro ⟨action, haction, hmay⟩
    simp only [List.mem_cons, List.not_mem_nil, or_false] at haction
    rcases haction with rfl | rfl <;> cases hmay
  · rintro ⟨action, haction, hmay⟩
    simp only [List.mem_cons, List.not_mem_nil, or_false] at haction
    rcases haction with rfl | rfl <;> cases hmay

/-- `get_vector` shows the record to a tenant without any rights. -/
theorem guest_reads_docs :
    ¬ ∀ (X : Externals) (Q : QueryEngine FlatIndex ℚ) (g : Gateway) (lm : ShardLifecycleManager)
    (nodeId tenant : String) (t : Traced FlatIndex ℚ) (ps : List (Credentials × Request FlatIndex)),
      g.env = "production" →
    t.server.ingest.WellNamed → (∀ p ∈ ps, Authenticates g tenant p.1) →
    Along (total (next X Q g lm nodeId)) (fun t p => Admissible t.server.ingest p.2) t ps → ∀ n,
      (¬ g.MayRead tenant n → Along (total (next X Q g lm nodeId))
        (fun t p => ¬ t.Shows X Q g lm nodeId p n) t ps) ∧
        (¬ g.MayWrite tenant n →
          SameRecords X n t.server.ingest (ps.foldl (next X Q g lm nodeId) t).server.ingest) := by
  intro h
  have hdenied : ¬ mediator.MayRead "guest" "docs" := by
    rintro ⟨action, haction, hmay⟩
    simp only [List.mem_cons, List.not_mem_nil, or_false] at haction
    rcases haction with rfl | rfl <;> cases hmay
  obtain ⟨hshows, -⟩ := (h fieldwise noResults mediator ⟨true⟩ "node-1" "guest" oneRecord
    [(withKey "guest-key", .getVector "docs" zeroId.text)] rfl wellNamed_oneRecord
    (fun p hp => by
      rw [List.mem_singleton.mp hp]
      exact ⟨⟨some "guest", none⟩, rfl, rfl⟩)
    ⟨trivial, fun _ _ => trivial⟩ "docs").1 hdenied
  have hrecord : ((oneRecord.server.getVector fieldwise "docs" zeroId.text).2.map
      Payload.id).toOption = some zeroId.text := by
    decide +kernel
  refine hshows ⟨rfl, ?_⟩
  rw [response_ok (show mediator.verifyApiKey (withKey "guest-key") =
    .ok ⟨some "guest", none⟩ from rfl)]
  show ∃ response, (oneRecord.server.getVector fieldwise "docs" zeroId.text).2.map Response.vector =
    .ok response ∧ _
  rcases hget : (oneRecord.server.getVector fieldwise "docs" zeroId.text).2 with e | rec
  · rw [hget] at hrecord
    cases hrecord
  · exact ⟨_, rfl, trivial⟩

end Traced

end Vsector.Api
