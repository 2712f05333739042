import Vsector.Impl.Api.Vectors
import Vsector.Impl.Sharding.Placement
import Vsector.Proof.Ingest.Fetch
import Vsector.Proof.Models.Documents
import Vsector.Proof.Sharding.Placement

/-!
# Reads and the owners of shards

`route` and `route_for_query` never compare a shard's owner with the local
node. A fetch is answered exactly if each of its ids is, and a query if its
searches end well (`query_ok_iff`). So reads are answered by the owner exactly
if none that is answered asks for a shard of another node (`reads_local_iff`).
-/

namespace Vsector.Sharding.ShardRouter

variable {r : ShardRouter} {ns : String} {s : Shard} {localNode : Option String}

/-- The read decision on a shard is `LOCAL`. -/
def ReadsLocally (r : ShardRouter) (ns : String) (localNode : Option String) (s : Shard) : Prop :=
  ∃ d, r.decisionFor ns s localNode .read = .ok d ∧ d.routeType = .localNode

theorem readsLocally_iff :
    r.ReadsLocally ns localNode s ↔ r.Readable s ∧ s.nodeId ≠ "" ∧ localNode = some s.nodeId := by
  unfold ReadsLocally decisionFor Readable stateReason
  by_cases hreadable : s.state.isReadable = true
  · by_cases howner : s.nodeId = ""
    · simp [hreadable, howner, Except.map]
    · obtain ⟨hv, state, hr⟩ | ⟨exc, hv, -, state, reason, hr⟩ :=
        validateOwner_cases (r := r) howner
      · simp only [hreadable, howner, if_true, if_false, hr, hv, Except.map]
        by_cases hlocal : localNode = some s.nodeId
        · simp [hlocal, howner]
        · simp [hlocal, Ne.symm hlocal]
      · simp [hreadable, howner, hr, hv, Except.map]
  · simp [hreadable, Except.map]

end Vsector.Sharding.ShardRouter

namespace Vsector.Query

open Framework Models Sharding Index Ingest Infra

variable {ι σ : Type} {X : Externals} {Q : QueryEngine ι σ}

variable [LinearOrder σ]

variable (X Q) in
/-- `query` is not refused: the vector fits the namespace, and it is answered from the cache, takes
too long, or all searches of its shards end well. -/
def Answers (svc : IngestService ι) (cache : TieredCache (QueryAnswer σ)) (now : ℚ)
    (timedOut : Bool) (r : QueryRequest) :
    Prop :=
  (∃ settings, svc.settings.metadata.get? r.ns = some settings ∧
    r.vector.length = settings.dimension) ∧
    ((cache.getQuery X now r.cacheQuery).2.isSome ∧ r.includeVector = false ∨ timedOut = true ∨
      ∀ shard ∈ svc.router.routeForQuery r.ns, ∃ found, searchShard X Q svc r shard = .ok found)

variable {svc : IngestService ι} {cache : TieredCache (QueryAnswer σ)} {now : ℚ} {tookMs : Int}
  {timedOut : Bool} {r : QueryRequest}

theorem waiting_ok_iff {shards : List Shard} :
    (∃ answer, (endQuery X Q svc cache now tookMs timedOut r (.waiting shards)).2 = .ok answer) ↔
      timedOut = true ∨ ∀ shard ∈ shards, ∃ found, searchShard X Q svc r shard = .ok found := by
  unfold endQuery
  cases timedOut with
  | true => exact iff_of_true ⟨_, rfl⟩ (.inl rfl)
  | false =>
    rw [or_iff_right Bool.false_ne_true, ← ShardRouter.mapM_ok_iff]
    show _ ↔ ∃ found, fanOut X Q svc r shards = .ok found
    dsimp only
    rw [if_neg Bool.false_ne_true]
    rcases fanOut X Q svc r shards with exc | found
    · exact iff_of_false (fun ⟨_, h⟩ => by cases h) fun ⟨_, h⟩ => by cases h
    · exact iff_of_true ⟨_, rfl⟩ ⟨_, rfl⟩

theorem query_ok_iff : (∃ answer, (query X Q svc cache now tookMs timedOut r).2 = .ok answer) ↔
    Answers X Q svc cache now timedOut r := by
  unfold query beginQuery Answers
  rcases svc.settings.metadata.get? r.ns with _ | settings
  · exact iff_of_false (fun ⟨_, h⟩ => by cases h) fun ⟨⟨_, h, _⟩, _⟩ => by cases h
  · by_cases hlength : r.vector.length = settings.dimension
    · dsimp only
      rw [if_neg (not_not.mpr hlength), and_iff_right ⟨settings, rfl, hlength⟩]
      rcases svc.router.routeForQuery r.ns with _ | ⟨shard, shards⟩
      · refine iff_of_true ?_ (.inr (.inr fun shard h => absurd h List.not_mem_nil))
        rcases cache.getQuery X now r.cacheQuery with ⟨cache, _ | answer⟩
        · exact ⟨_, rfl⟩
        · cases r.includeVector <;> exact ⟨_, rfl⟩
      · rcases cache.getQuery X now r.cacheQuery with ⟨cache, _ | answer⟩
        · exact waiting_ok_iff.trans (or_iff_right fun h => by cases h.1).symm
        · cases hvector : r.includeVector with
          | true => exact waiting_ok_iff.trans (or_iff_right fun h => by cases h.2).symm
          | false => exact iff_of_true ⟨answer, rfl⟩ (.inl ⟨rfl, rfl⟩)
    · dsimp only
      rw [if_pos hlength]
      refine iff_of_false (fun ⟨_, h⟩ => by cases h) fun ⟨⟨_, h, hfits⟩, _⟩ => ?_
      cases h
      exact hlength hfits

end Vsector.Query

namespace Vsector.Api

open Framework Models Storage Sharding Index Ingest Infra Query

variable {ι σ : Type} [BaseIndex ι] [LinearOrder σ]

/-- A request, or a change of the store: by a migration, the lifecycle or the membership manager. -/
inductive NodeOp (ι : Type) where
  | upsert (ns : String) (records : List (Raw × RecordEnv ι)) (idempotencyKey : Option String)
      (background : String → FlushEnv)
  | delete (ns : String) (ids : Option (List String)) (filter : Option Filter)
      (env : String → Nat → DeliveryEnv)
  | deleteNamespace (name : String)
  | store (change : InMemoryEtcd → InMemoryEtcd)
  | fetch (ns : String) (ids : List String)
  | query (now : ℚ) (tookMs : Int) (timedOut : Bool) (request : QueryRequest)

namespace Server

variable (X : Externals) (Q : QueryEngine ι σ)

/-- The server after an operation, whether or not it raises. -/
def perform (s : Server ι σ) : NodeOp ι → Server ι σ
  | .upsert ns records key background => (s.upsertVectors X ns records key background).1
  | .delete ns ids filter env => (s.deleteVectors X ns ids filter env).1
  | .deleteNamespace name => (s.deleteNamespace name).1
  | .store change =>
    { s with ingest := { s.ingest with
      router := { s.ingest.router with etcd := change s.ingest.router.etcd } } }
  | .fetch ns ids => { s with ingest := (s.ingest.fetch X ns ids).1 }
  | .query now tookMs timedOut r =>
    { s with cache := (query X Q s.ingest s.cache now tookMs timedOut r).1 }

/-- A fetch is answered only where the read decision on each of its ids is `LOCAL`, a query only
where it is on every readable shard and no other shard is another node's. An answer without the
records of such a shard is none: only its owner can tell that they do not exist. -/
def AnsweredByOwner (s : Server ι σ) : NodeOp ι → Prop
  | .fetch ns ids => (∃ out, (s.ingest.fetch X ns ids).2 = .ok out) → ∀ id ∈ ids,
      ∃ d, s.ingest.router.routeReadDecision X ns id s.ingest.nodeId = .ok d ∧
        d.routeType = .localNode
  | .query now tookMs timedOut r =>
    (∃ answer, (query X Q s.ingest s.cache now tookMs timedOut r).2 = .ok answer) →
      ∀ shard ∈ s.ingest.router.etcd.listByNamespace r.ns,
        (shard.state.isReadable = true → s.ingest.router.ReadsLocally r.ns s.ingest.nodeId shard) ∧
        (shard.nodeId ≠ "" → s.ingest.nodeId = some shard.nodeId)
  | _ => True

/-- Where nothing refuses a read, the shards it asks are this node's, and for a query the node is a
member. -/
def AsksOwnShards (s : Server ι σ) : NodeOp ι → Prop
  | .fetch ns ids => (∀ id ∈ ids, s.ingest.Answers X ns id) → ∀ id ∈ ids, ∀ shard,
      s.ingest.router.route X ns id = .ok shard →
        shard.nodeId ≠ "" ∧ s.ingest.nodeId = some shard.nodeId
  | .query now _ timedOut r => Answers X Q s.ingest s.cache now timedOut r →
      ∀ shard ∈ s.ingest.router.etcd.listByNamespace r.ns,
        (shard.state.isReadable = true →
          shard.nodeId ≠ "" ∧ s.ingest.router.validateOwner shard = .ok ()) ∧
        (shard.nodeId ≠ "" → s.ingest.nodeId = some shard.nodeId)
  | _ => True

variable {X Q} {s : Server ι σ} {ns : String}

omit [LinearOrder σ] in
/-- The shard that a fetch is routed to is that of the read decision. -/
theorem fetch_decision_iff {id : String} (h : s.ingest.Answers X ns id) :
    (∃ d, s.ingest.router.routeReadDecision X ns id s.ingest.nodeId = .ok d ∧
      d.routeType = .localNode) ↔
      ∀ shard, s.ingest.router.route X ns id = .ok shard →
        shard.nodeId ≠ "" ∧ s.ingest.nodeId = some shard.nodeId := by
  obtain ⟨p, hp⟩ := h
  unfold IngestService.answer at hp
  rcases hroute : s.ingest.router.route X ns id with exc | shard
  · rw [hroute] at hp
    cases hp
  · obtain ⟨hselect, hreadable⟩ := ShardRouter.route_ok_iff.mp hroute
    have hdecision : s.ingest.router.routeReadDecision X ns id s.ingest.nodeId =
        s.ingest.router.decisionFor ns shard s.ingest.nodeId .read := by
      unfold ShardRouter.routeReadDecision ShardRouter.decide ShardRouter.selectOrRaise
      rw [hselect]
      rfl
    rw [hdecision]
    refine (ShardRouter.readsLocally_iff.trans (and_iff_right hreadable)).trans
      ⟨fun hown t ht => ?_, fun hown => hown shard rfl⟩
    cases ht
    exact hown

theorem answeredByOwner_iff (s : Server ι σ) (op : NodeOp ι) :
    s.AnsweredByOwner X Q op ↔ s.AsksOwnShards X Q op := by
  cases op with
  | fetch ns ids =>
    show ((∃ out, (s.ingest.fetch X ns ids).2 = .ok out) → _) ↔
      ((∀ id ∈ ids, s.ingest.Answers X ns id) → _)
    rw [IngestService.fetch_ok_iff]
    exact forall_congr' fun h => forall₂_congr fun id hid => fetch_decision_iff (h id hid)
  | query now tookMs timedOut r =>
    show ((∃ answer, (query X Q s.ingest s.cache now tookMs timedOut r).2 = .ok answer) → _) ↔
      (Answers X Q s.ingest s.cache now timedOut r → _)
    rw [query_ok_iff]
    refine forall_congr' fun _ => forall₂_congr fun shard _ => ?_
    rw [ShardRouter.readsLocally_iff]
    constructor
    · rintro ⟨hlocal, hown⟩
      exact ⟨fun hreadable => ⟨(hlocal hreadable).2.1, (hlocal hreadable).1.2⟩, hown⟩
    · rintro ⟨hmember, hown⟩
      exact ⟨fun hreadable => ⟨⟨hreadable, (hmember hreadable).2⟩, (hmember hreadable).1,
        hown (hmember hreadable).1⟩, hown⟩
  | _ => exact Iff.rfl

/-- The reads of a run are answered by the owners exactly if none that is answered asks for a shard
of another node. -/
theorem reads_local_iff (s : Server ι σ) (ops : List (NodeOp ι)) :
    Along (total (perform X Q)) (AnsweredByOwner X Q) s ops ↔
      Along (total (perform X Q)) (AsksOwnShards X Q) s ops :=
  Along.iff_of_invariant (I := fun _ => True) (C := fun _ _ => True)
    (fun s op _ _ => answeredByOwner_iff s op)
    (fun _ _ _ _ _ _ _ => trivial) trivial (Along.of_forall (fun _ _ => trivial) s ops)

/-! A record is upserted, its shard moves to another node, and the record is fetched. -/

private def singleNode : Server FlatIndex ℚ where
  ingest :=
    { settings := ⟨Dict.set ∅ "docs" ⟨"docs", 1, .cosine, .flat, 1⟩, 10000⟩
      router := ⟨(InMemoryEtcd.init none).put ⟨"docs#shard-000", "docs", "node-1", .active, 0,
        50000000, [], 1⟩, none⟩
      nodeId := some "node-1"
      roots := ∅
      replicator := .init ∅
      replicationStats := ∅
      shards := ∅
      idempotency := ∅ }
  cache := ⟨60, ∅, none⟩
  inflight := ∅

private def movedAway : List (NodeOp FlatIndex) :=
  [.upsert "docs"
      [([("id", .str zeroId.text), ("vector", .arr [.int 1])],
        ⟨"2026-01-01T00:00:00Z", oneId, ⟨1, 1, none⟩, none, ⟨0, fun _ => ⟨1, 1, none⟩⟩, none,
          ⟨"a", "b", none⟩⟩)]
      none fun _ => ⟨1, 1, none⟩,
    .store fun e => (ShardLifecycleManager.beginDrain e (.stored "docs#shard-000")).1,
    .store fun e => ((⟨false⟩ : ShardLifecycleManager).changeOwner e (.stored "docs#shard-000")
      "node-2" none).1]

private def noSearch : QueryEngine FlatIndex ℚ := ⟨fun _ _ => .ok [], noRerank⟩

theorem fetched_from_leftover :
    ¬ ∀ (X : Externals) (Q : QueryEngine FlatIndex ℚ) (s : Server FlatIndex ℚ)
    (ops : List (NodeOp FlatIndex)), Along (total (perform X Q)) (AnsweredByOwner X Q) s ops := by
  intro h
  obtain ⟨hread, -⟩ := (h fieldwise noSearch singleNode
    (movedAway ++ [.fetch "docs" [zeroId.text]])).append.2 _ (run_total _ _ _)
  have hfetched :
      ((((movedAway.foldl (perform fieldwise noSearch) singleNode).ingest.fetch fieldwise "docs"
      [zeroId.text]).2).map
      List.length).toOption = some 1 := by
    decide +kernel
  have hremote :
      (((movedAway.foldl (perform fieldwise noSearch) singleNode).ingest.router.routeReadDecision
      fieldwise "docs"
      zeroId.text (movedAway.foldl (perform fieldwise noSearch) singleNode).ingest.nodeId).map
        RoutingDecision.routeType).toOption = some .remote := by
    decide +kernel
  generalize movedAway.foldl (perform fieldwise noSearch) singleNode = s at hread hfetched hremote
  rcases hout : (s.ingest.fetch fieldwise "docs" [zeroId.text]).2 with exc | out
  · rw [hout] at hfetched
    cases hfetched
  · obtain ⟨d, hd, hlocal⟩ := hread ⟨out, hout⟩ zeroId.text (List.mem_singleton.mpr rfl)
    rw [hd] at hremote
    cases (Option.some.inj hremote).symm.trans hlocal

end Server

end Vsector.Api
