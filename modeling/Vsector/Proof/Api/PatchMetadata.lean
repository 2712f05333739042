import Vsector.Impl.Models.JsonLoads
import Vsector.Proof.Api.Mediation
import Vsector.Proof.Ingest.Spellings

/-!
# Patching metadata

`patch_metadata` writes the record anew from its id, its vector and the merged
metadata (`patchMetadata_eq`). Where the write goes through, the record that is
found afterwards has the new metadata and the old vector (`patched_record`),
and the tags, the source and the creation time of a record that was made
without any (`patch_keeps_iff`).
-/

namespace Vsector.Ingest.IngestService

open Framework Models Storage Sharding Index ShardRouter

variable {ι : Type} [BaseIndex ι] {X : Externals} {svc : IngestService ι} {ns id : String}
  {rec : VectorRecord} {env : RecordEnv ι} {shard : Shard} {ctx : ShardContext ι}

theorem Opened.visible {svc' : IngestService ι} (h : Opened X ns svc svc') (id : String) :
    svc'.visible X ns id = svc.visible X ns id := by
  rw [visible_eq, visible_eq, h.router.route]
  simp only [h.content]

/-- The one shard a fetch of a shown record opens. -/
theorem visible_cases {r : VectorRecord} (h : svc.visible X ns id = .ok (some r)) :
    ∃ shard svc₁ ctx,
    svc.router.route X ns id = .ok shard ∧ svc.getOrCreateCtx X ns shard = .ok (svc₁, ctx) ∧
      ctx.segments.get X id = .ok (some r) ∧ svc.fetch X ns [id] = (svc₁, .ok [r.toPayload]) := by
  unfold visible at h
  rcases hroute : svc.router.route X ns id with exc | shard
  · rw [hroute] at h
    cases h
  · rw [hroute] at h
    change (svc.getOrCreateCtx X ns shard).bind _ = _ at h
    rcases hg : svc.getOrCreateCtx X ns shard with exc | ⟨svc₁, ctx⟩
    · rw [hg] at h
      cases h
    · rw [hg] at h
      change ctx.visible X id = _ at h
      unfold ShardContext.visible at h
      rcases hget : ctx.segments.get X id with exc | _ | v
      · rw [hget] at h
        cases h
      · rw [hget] at h
        simp [Except.map] at h
      · rw [hget] at h
        have hv : (if ctx.tombstones.has id then none else some v) = some r := Except.ok.inj h
        split at hv
        · cases hv
        · rename_i hhas
          cases hv
          refine ⟨shard, svc₁, ctx, rfl, hg, hget, ?_⟩
          have hf : ctx.fetch X id = .ok (some r.toPayload) := by
            simp only [ShardContext.fetch, hget, if_neg hhas]
          simp only [fetch, forEach, fetchOne, hroute, hg, hf]
          rfl

theorem getOrCreateCtx_base {svc₁ : IngestService ι}
    (h : svc.getOrCreateCtx X ns shard = .ok (svc₁, ctx)) :
    svc₁.settings = svc.settings ∧ svc₁.nodeId = svc.nodeId := by
  unfold getOrCreateCtx at h
  split at h
  · cases h
    exact ⟨rfl, rfl⟩
  · split at h
    · cases h
    · split at h
      · cases h
      · cases h
        exact ⟨rfl, rfl⟩

/-- A write that goes through still does once its context is open. -/
theorem Takes.opened {svc₁ : IngestService ι} (h : Takes X svc ns rec env shard ctx)
    (hg : svc.getOrCreateCtx X ns shard = .ok (svc₁, ctx)) :
    ∃ shard', Takes X svc₁ ns rec env shard' ctx := by
  have hopened : Opened X ns svc svc₁ :=
    (Opened.refl ns svc).getOrCreateCtx (routeWrite_mem h.route) hg
  have hnode : svc₁.nodeId = svc.nodeId := (getOrCreateCtx_base hg).2
  have hroute := hopened.router.routeWrite (X := X) rec.id.text svc.nodeId
  rw [h.route] at hroute
  rcases hw : svc₁.router.routeWrite X ns rec.id.text svc.nodeId with exc | shard'
  · rw [hw] at hroute
    cases hroute
  · rw [hw] at hroute
    have hsame : uncounted shard' = uncounted shard := Except.ok.inj hroute
    have hid : shard'.id = shard.id :=
      show (uncounted shard').id = (uncounted shard).id by rw [hsame]
    have hmax : shard'.maxVectors = shard.maxVectors :=
      show (uncounted shard').maxVectors = (uncounted shard).maxVectors by rw [hsame]
    refine ⟨shard', by rw [hnode]; exact hw, ⟨svc₁,
      ?_⟩, h.flush, h.index, h.add, h.bookkeeping, by rw [hmax]; exact h.room⟩
    rw [getOrCreateCtx, hid, getOrCreateCtx_open hg]

end Vsector.Ingest.IngestService

namespace Vsector.Api

open Framework Models Storage Sharding Index Ingest Infra Query IngestService ShardRouter

variable {ι σ : Type} [BaseIndex ι] {X : Externals} {s s' : Server ι σ} {ns vid : String}
  {body : Metadata} {env : RecordEnv ι} {background : String → FlushEnv} {p : Payload}

/-! ## The request of a patch -/

/-- The record that `patch_metadata` upserts. -/
def patchRaw (vid : String) (p : Payload) (body : Metadata) : Raw :=
  [("id", .str vid), ("vector", .arr (p.vector.map .float)),
    ("metadata", .obj (mergeMetadata p.metadata body))]

/-- A record as its payload without defaults is read: new but for its id and its vector. -/
def patchedRecord (X : Externals) (ns : String) (now : DateTime) (r : VectorRecord)
    (metadata : Metadata) : VectorRecord :=
  { r with
    ns := ns
    metadata := metadata
    createdAt := now
    updatedAt := now
    version := Nat.succPNat 0
    ttl := none
    tags := []
    sourceSystem := "unknown"
    checksum := sha256Vector X r.vector }

theorem mapM_floatOf (hself : ∀ x, X.floatOf (.float x) = .ok x) (xs : List PyFloat) :
    (xs.map Json.float).mapM X.floatOf = .ok xs := by
  induction xs with
  | nil => rfl
  | cons x xs ih =>
    rw [List.map_cons, List.mapM_cons, hself, ih]
    rfl

omit [BaseIndex ι] in
/-- The request is accepted where the namespace still has the dimension of the vector. -/
theorem parse_patchRaw (hX : X.Lawful) (hself : ∀ x, X.floatOf (.float x) = .ok x)
    (settings : Namespace) (r : VectorRecord) (body : Metadata) (env : RecordEnv ι)
    {rec : VectorRecord}
    (h : parseRecord X ns settings (patchRaw r.id.text r.toPayload body) env.now
      env.uuid4 = .ok rec) :
    rec = patchedRecord X ns env.now r (mergeMetadata r.metadata body) := by
  have hid : recordId X (patchRaw r.id.text r.toPayload body) env.uuid4 = .ok r.id :=
    recordId_eq hX rfl
  have hvector : (patchRaw r.id.text r.toPayload body).lookup "vector" =
      some (.arr (r.vector.map .float)) := rfl
  have hfields : readFields (patchRaw r.id.text r.toPayload body) =
      some (mergeMetadata r.metadata body, [], "unknown") := rfl
  simp only [parseRecord, hid, hvector, Option.getD_some, pyList, mapM_floatOf hself, hfields] at h
  split at h
  · cases h
  · rename_i hd
    rw [List.length_map, not_not] at hd
    unfold VectorRecord.new at h
    rw [dif_pos r.vector_ne, dif_pos hd.symm] at h
    cases h
    simp only [patchedRecord, r.dimension_eq, hd]

/-! ## The endpoints -/

/-- `get_vector` of a record that is shown, and of no other. -/
theorem getVector_ok_iff (s : Server ι σ) :
    (s.getVector X ns vid).2 = .ok p ↔ ∃ r, s.ingest.visible X ns vid = .ok (some r) ∧
      r.toPayload = p := by
  constructor
  · intro h
    have hanswer := (s.getVector_cases (X := X) ns vid).2 p h
    rw [answer_visible] at hanswer
    rcases hv : s.ingest.visible X ns vid with exc | _ | r
    · rw [hv] at hanswer
      cases hanswer
    · rw [hv] at hanswer
      cases hanswer
    · rw [hv] at hanswer
      exact ⟨r, rfl, Option.some.inj (Except.ok.inj hanswer)⟩
  · rintro ⟨r, hr, rfl⟩
    obtain ⟨shard, svc₁, ctx, -, -, -, hfetch⟩ := visible_cases hr
    simp only [Server.getVector, hfetch]

/-- The vector of the patch is the record's, whether it is all zeros or not. -/
theorem patchedVector_eq {svc svc₁ : IngestService ι} {r : VectorRecord} {shard : Shard}
    {ctx : ShardContext ι} (hroute : svc.router.route X ns vid = .ok shard)
    (hg : svc.getOrCreateCtx X ns shard = .ok (svc₁, ctx))
    (hget : ctx.segments.get X vid = .ok (some r)) :
    patchedVector X svc₁ ns vid r.toPayload = .ok (r.vector.map .float) := by
  obtain ⟨x, xs, hv⟩ := List.exists_cons_of_ne_nil r.vector_ne
  have hpayload : r.toPayload.vector = x :: xs := hv
  have hopened : Opened X ns svc svc₁ :=
    (Opened.refl ns svc).getOrCreateCtx (select_mem (route_ok_iff.mp hroute).1) hg
  have hsame := hopened.router.route (X := X) vid
  rw [hroute] at hsame
  simp only [patchedVector, hpayload, hv]
  split
  · rfl
  · rcases hr : svc₁.router.route X ns vid with exc | shard'
    · rw [hr] at hsame
      cases hsame
    · rw [hr] at hsame
      have hu : uncounted shard' = uncounted shard := Except.ok.inj hsame
      have hid : shard'.id = shard.id :=
        show (uncounted shard').id = (uncounted shard).id by rw [hu]
      simp only [hid, getOrCreateCtx_open hg, hget, Except.map, Option.map_some,
        Option.getD_some, hv]

/-- A patch that does not raise is the upsert of its request, by the service that has opened the
record's shard. -/
theorem patchMetadata_ok {r : VectorRecord} {shard : Shard} {svc₁ : IngestService ι}
    {ctx : ShardContext ι} (hroute : s.ingest.router.route X ns vid = .ok shard)
    (hg : s.ingest.getOrCreateCtx X ns shard = .ok (svc₁, ctx))
    (hget : ctx.segments.get X vid = .ok (some r))
    (hfetch : s.ingest.fetch X ns [vid] = (svc₁, .ok [r.toPayload]))
    (h : s.patchMetadata X ns vid body env background = (s', .ok ())) : ∃ result,
      svc₁.upsert X ns [(patchRaw vid r.toPayload body, env)] none background =
        (s'.ingest, .ok result) := by
  have hvector : s.getVector X ns vid = ({ s with ingest := svc₁ }, .ok r.toPayload) := by
    simp only [Server.getVector, hfetch]
  simp only [Server.patchMetadata, hvector, patchedVector_eq hroute hg hget] at h
  rcases hup : svc₁.upsert X ns [(patchRaw vid r.toPayload body, env)] none
    background with ⟨ingest, e | result⟩
  · rw [show svc₁.upsert X ns [([("id", .str vid), ("vector", .arr (r.vector.map .float)),
      ("metadata", .obj (mergeMetadata r.toPayload.metadata body))],
        env)] none background = _ from hup] at h
    cases h
  · rw [show svc₁.upsert X ns [([("id", .str vid), ("vector", .arr (r.vector.map .float)),
      ("metadata", .obj (mergeMetadata r.toPayload.metadata body))],
        env)] none background = _ from hup] at h
    cases h
    exact ⟨result, rfl⟩

/-! ## What a patch keeps -/

/-- `p'` is the record `p` with the body put over its metadata. -/
structure Patched (p p' : Payload) (body : Metadata) : Prop where
  metadata : p'.metadata = mergeMetadata p.metadata body
  vector : p'.vector = p.vector
  dimension : p'.dimension = p.dimension
  tags : p'.tags = p.tags
  sourceSystem : p'.sourceSystem = p.sourceSystem
  createdAt : p'.createdAt = p.createdAt

/-- After the patch of `p` the record that is found is patched. -/
def PatchKeeps (X : Externals) (s' : Server ι σ) (ns vid : String) (p : Payload) (body : Metadata) :
    Prop :=
  ∃ p', (s'.getVector X ns vid).2 = .ok p' ∧ Patched p p' body

/-- The request of the patch is accepted, and its write goes through. -/
def PatchTakes (X : Externals) (svc : IngestService ι) (ns vid : String) (p : Payload)
    (body : Metadata) (env : RecordEnv ι) :
    Prop :=
  ∃ settings rec shard ctx, svc.settings.metadata.get? ns = some settings ∧
    parseRecord X ns settings (patchRaw vid p body) env.now env.uuid4 = .ok rec ∧
    Takes X svc ns rec env shard ctx

/-- The request of the patch is not accepted, or no shard takes its write. -/
def PatchRefused (X : Externals) (svc : IngestService ι) (ns vid : String) (p : Payload)
    (body : Metadata) (env : RecordEnv ι) :
    Prop :=
  ∀ settings rec shard, svc.settings.metadata.get? ns = some settings →
    parseRecord X ns settings (patchRaw vid p body) env.now env.uuid4 = .ok rec →
      svc.router.routeWrite X ns rec.id.text svc.nodeId ≠ .ok shard

theorem patchKeeps_iff {r : VectorRecord} (h : s'.ingest.visible X ns vid = .ok (some r)) :
    PatchKeeps X s' ns vid p body ↔ Patched p r.toPayload body := by
  constructor
  · rintro ⟨p', hp', hpatched⟩
    obtain ⟨r', hr', rfl⟩ := (getVector_ok_iff s').mp hp'
    rw [h, Except.ok.injEq, Option.some.injEq] at hr'
    rw [hr']
    exact hpatched
  · exact fun hpatched => ⟨_, (getVector_ok_iff s').mpr ⟨r, h, rfl⟩, hpatched⟩

/-- A record that is written anew keeps what it would have been made with. -/
theorem patched_iff (r : VectorRecord) (now : DateTime) :
    Patched r.toPayload (patchedRecord X ns now r (mergeMetadata r.metadata body)).toPayload body ↔
      r.toPayload.tags = [] ∧ r.toPayload.sourceSystem = "unknown" ∧ r.toPayload.createdAt = now :=
  ⟨fun h => ⟨h.tags.symm, h.sourceSystem.symm, h.createdAt.symm⟩,
    fun h => ⟨rfl, rfl, rfl, h.1.symm, h.2.1.symm, h.2.2.symm⟩⟩

theorem patch_keeps_iff (hX : X.Lawful) (hself : ∀ x, X.floatOf (.float x) = .ok x)
    (hs : Served X s.ingest) (hget : (s.getVector X ns vid).2 = .ok p)
    (h : s.patchMetadata X ns vid body env background = (s', .ok ())) :
    (PatchTakes X s.ingest ns vid p body env →
      (PatchKeeps X s' ns vid p body ↔
        p.tags = [] ∧ p.sourceSystem = "unknown" ∧ p.createdAt = env.now)) ∧
    (PatchRefused X s.ingest ns vid p body env →
      (PatchKeeps X s' ns vid p body ↔ mergeMetadata p.metadata body = p.metadata)) := by
  obtain ⟨r, hr, rfl⟩ := (getVector_ok_iff s).mp hget
  obtain rfl := visible_canonical hs.keyed hr
  obtain ⟨shard, svc₁, ctx, hroute, hg, hfound, hfetch⟩ := visible_cases hr
  obtain ⟨result, hup⟩ := patchMetadata_ok hroute hg hfound hfetch h
  obtain ⟨hsettings, hnode⟩ := getOrCreateCtx_base hg
  have hselect := (route_ok_iff.mp hroute).1
  have hopened : Opened X ns s.ingest svc₁ :=
    (Opened.refl ns s.ingest).getOrCreateCtx (select_mem hselect) hg
  constructor
  · rintro ⟨settings, rec, shard', ctx', hm, hp, htakes⟩
    have hrec := parse_patchRaw hX hself settings r body env hp
    have hid : rec.id.text = r.id.text := by rw [hrec]; rfl
    -- the write goes to the shard that was read
    obtain ⟨svc₁', hg'⟩ := htakes.opens
    have hselect' := (routeWrite_ok_iff.mp htakes.route).1
    rw [hid, hselect] at hselect'
    cases hselect'
    rw [hg] at hg'
    cases hg'
    obtain ⟨shard'', htakes'⟩ := htakes.opened hg
    have hshown := htakes'.visible hX (hs.keyed.getOrCreateCtx hg).1 rfl
      (by rw [hsettings]; exact hm) hp hup
    rw [hid] at hshown
    rw [patchKeeps_iff hshown, hrec]
    exact patched_iff r env.now
  · intro hrefused
    have hsame : s'.ingest = svc₁ := by
      rcases hm : svc₁.settings.metadata.get? ns with _ | settings
      · simp only [upsert, Option.filter_none, Option.bind_none, hm] at hup
        cases hup
      · refine upsert_refused hm (fun rec hp shard' hw => ?_) hup
        have hwrite := hopened.router.routeWrite (X := X) rec.id.text svc₁.nodeId
        rw [hw, hnode] at hwrite
        rcases hold : s.ingest.router.routeWrite X ns rec.id.text s.ingest.nodeId with exc | t
        · rw [hold] at hwrite
          cases hwrite
        · exact hrefused settings rec t (by rw [← hsettings]; exact hm) hp hold
    have hshown : s'.ingest.visible X ns r.id.text = .ok (some r) := by
      rw [hsame, hopened.visible, hr]
    rw [patchKeeps_iff hshown]
    exact ⟨fun hp => hp.metadata.symm, fun he => ⟨he.symm, rfl, rfl, rfl, rfl, rfl⟩⟩

section

private def patchDocs : Namespace := ⟨"docs", 1, .cosine, .flat, 1⟩

private def patchShard : Shard := ⟨"shard-0", "docs", "node-1", .active, 0, 50000000, [], 1⟩

private def patchEnv (now : DateTime) : RecordEnv FlatIndex :=
  ⟨now, oneId, ⟨1, 1, none⟩, none, ⟨0, fun _ => ⟨1, 1, none⟩⟩, none, ⟨"a", "b", none⟩⟩

private def noBackground : String → FlushEnv := fun _ => ⟨1, 1, none⟩

/-- A server with a record of the vector `[0.0]`, made with these fields. -/
private def patchServer (fields : Raw) : Server FlatIndex ℚ where
  ingest :=
    (({ settings := ⟨Dict.set ∅ "docs" patchDocs, 10000⟩
        router := ⟨(InMemoryEtcd.init none).put patchShard, none⟩
        nodeId := some "node-1"
        roots := ∅
        replicator := .init ∅
        replicationStats := ∅
        shards := ∅
        idempotency := ∅ } : IngestService FlatIndex).upsert fieldwise "docs"
      [([("id", .str zeroId.text), ("vector", .arr [.float (.finite 0)]),
        ("metadata", .obj [("k", .int 1)])] ++ fields,
        patchEnv "2026-01-01T00:00:00Z")] none noBackground).1
  cache := ⟨60, ∅, none⟩
  inflight := ∅

private theorem patchServer_served (fields : Raw) : Served fieldwise (patchServer fields).ingest :=
  .upsert (.start rfl) "docs" _ none noBackground

private def patchBody : Metadata := [("k", .int 2), ("l", .null)]

/-- A record without tags and a source, patched in the instant it was made. -/
theorem patch_keeps_bare_record :
    ∃ p s', ((patchServer []).getVector fieldwise "docs" zeroId.text).2 = .ok p ∧
    (patchServer []).patchMetadata fieldwise "docs" zeroId.text patchBody
      (patchEnv "2026-01-01T00:00:00Z") noBackground =
      (s', .ok ()) ∧ PatchKeeps fieldwise s' "docs" zeroId.text p patchBody := by
  refine ⟨_, _, rfl, rfl, ?_⟩
  have h := @patch_keeps_iff FlatIndex ℚ _ fieldwise (patchServer []) _ "docs" zeroId.text patchBody
    (patchEnv "2026-01-01T00:00:00Z") noBackground _ fieldwise_lawful
      (fun _ => rfl) (patchServer_served []) rfl rfl
  refine (h.1 ⟨patchDocs, _, { patchShard with vectorCount := 1 }, _, rfl, rfl,
    ⟨rfl, ⟨_, rfl⟩, fun h => absurd h ?_, rfl, ⟨_, rfl⟩, rfl, ?_⟩⟩).mpr ⟨rfl, rfl, rfl⟩
  · decide
  · decide

/-- The tags, the source and the creation time of a record are lost. -/
theorem patch_loses_tags : ∃ p s' p',
    ((patchServer [("tags", .arr [.str "red"]), ("source_system", .str "crm")]).getVector fieldwise
      "docs" zeroId.text).2 = .ok p ∧
    (patchServer [("tags", .arr [.str "red"]), ("source_system", .str "crm")]).patchMetadata
      fieldwise "docs" zeroId.text
      patchBody (patchEnv "2026-01-02T00:00:00Z") noBackground = (s', .ok ()) ∧
    (s'.getVector fieldwise "docs" zeroId.text).2 = .ok p' ∧
    (p.tags, p.sourceSystem, p.createdAt) = (["red"], "crm", "2026-01-01T00:00:00Z") ∧
    (p'.tags, p'.sourceSystem, p'.createdAt) = ([], "unknown", "2026-01-02T00:00:00Z") ∧
    ¬ PatchKeeps fieldwise s' "docs" zeroId.text p patchBody := by
  refine ⟨_, _, _, rfl, rfl, rfl, rfl, rfl, ?_⟩
  rintro ⟨q, hq, hpatched⟩
  have htags : q.tags = ["red"] := hpatched.tags
  have hq := Except.ok.inj hq
  rw [← hq] at htags
  cases htags

end

end Vsector.Api
