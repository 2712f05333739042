import Vsector.Proof.Api.Mediation
import Vsector.Proof.Ingest.Idempotency
import Vsector.Proof.Ingest.Isolation
import Vsector.Proof.Query.Cached
import Vsector.Proof.Query.ShardedSearch

/-!
# Namespaces are isolated

What the operations on a namespace return does not depend on those on other
namespaces: it is what they return in the run without them
(`namespaces_isolated`). Of the replication nothing is compared, nor of the
query cache, which an upsert to any namespace empties. What the namespaces do
share must be told apart by them: no id of a split's half, and no idempotency
key, is used for two of them.
-/

namespace Vsector.Query

open Framework Models Storage Sharding Index Ingest Infra Api IngestService

variable {ι σ : Type}

/-- A call on a namespace. -/
inductive NamespaceCall (ι : Type) where
  | upsert (ns : String) (records : List (Raw × RecordEnv ι)) (key : Option String)
      (background : String → FlushEnv)
  | delete (ns : String) (ids : Option (List String)) (filter : Option Filter)
      (env : String → Nat → DeliveryEnv)
  | fetch (ns : String) (ids : List String)
  | query (request : QueryRequest)

/-- What a call returns, without what is said of the replication. -/
inductive NamespaceAnswer (σ : Type) where
  | upserted (result : Except Exc (Nat × List String × List UpsertError))
  | deleted (result : Except Exc Nat)
  | fetched (result : Except Exc (List Payload))
  | found (result : Except Exc (List (Candidate σ)))

namespace NamespaceCall

def ns : NamespaceCall ι → String
  | upsert ns .. | delete ns .. | fetch ns _ => ns
  | query request => request.ns

/-- The namespace has a name, and what the call brings is told apart by namespace. -/
def Fits (home keyHome : String → String) : NamespaceCall ι → Prop
  | upsert ns records key _ => isNamespaceName ns = true ∧
      (∀ r ∈ records, home r.2.split.idA = ns ∧ home r.2.split.idB = ns) ∧ ∀ k ∈ key, keyHome k = ns
  | delete ns .. | fetch ns _ => isNamespaceName ns = true
  | query request => isNamespaceName request.ns = true

theorem Fits.name {home keyHome : String → String} {c : NamespaceCall ι} (h : c.Fits home keyHome) :
    isNamespaceName c.ns = true := by
  cases c with
  | upsert => exact h.1
  | _ => exact h

variable [BaseIndex ι] [LinearOrder σ]

/-- A query is answered by the shards, not from the cache. -/
def perform (X : Externals) (Q : QueryEngine ι σ) (svc : IngestService ι) :
    NamespaceCall ι → IngestService ι × NamespaceAnswer σ
  | upsert ns records key background =>
    let answer := svc.upsert X ns records key background
    (answer.1, .upserted (answer.2.map outcome))
  | delete ns ids filter env =>
    let answer := svc.deleteRequest X ns ids filter env
    (answer.1, .deleted (answer.2.map DeleteResult.deleted))
  | fetch ns ids =>
    let answer := svc.fetch X ns ids
    (answer.1, .fetched answer.2)
  | query request => (svc, .found (freshResults X Q svc request))

end NamespaceCall

section

variable {X : Externals} {Q : QueryEngine ι σ} {home keyHome : String → String}
  {node : Option String} {n : String} {svc svc' : IngestService ι}

variable [BaseIndex ι] [LinearOrder σ]

/-- A call on the namespace, on two services that are alike for it. -/
theorem perform_consistent {c : NamespaceCall ι} (hc : c.Fits home keyHome)
    (h : AlikeServices home keyHome node c.ns svc svc') :
    AlikeServices home keyHome node c.ns (c.perform X Q svc).1 (c.perform X Q svc').1 ∧
      (c.perform X Q svc).2 = (c.perform X Q svc').2 := by
  cases c with
  | upsert ns records key background =>
    obtain ⟨-, hids, hkey⟩ := hc
    have hup := h.upsert (X := X) records key background hids hkey
    exact ⟨hup.state, congrArg NamespaceAnswer.upserted hup.map_eq⟩
  | delete ns ids filter env =>
    have hdel := h.alike.deleteRequest (X := X) ids filter env
    exact ⟨h.of_alike hdel.state, congrArg NamespaceAnswer.deleted hdel.map_eq⟩
  | fetch ns ids =>
    have hfetch := h.alike.fetch (X := X) ids
    exact ⟨h.of_alike hfetch.state, congrArg NamespaceAnswer.fetched hfetch.result_eq⟩
  | query request =>
    refine ⟨h, congrArg NamespaceAnswer.found ?_⟩
    have hview : SameView request.ns svc svc' := ⟨h.alike.store.list, h.alike.contexts⟩
    exact hview.freshResults.symm

/-! ## Calls on another namespace -/

omit [BaseIndex ι] [LinearOrder σ] in
theorem alikeServices_refl (hhomed : InMemoryEtcd.Homed home svc.router.etcd)
    (hnode : svc.nodeId = node) (n : String) :
    AlikeServices home keyHome node n svc svc :=
  ⟨⟨rfl, rfl, rfl, ⟨rfl, rfl, hhomed, hhomed⟩, fun _ => rfl, hnode, hnode, rfl, rfl⟩,
    fun _ _ => rfl⟩

theorem perform_keepsOthers {c : NamespaceCall ι} (hc : c.Fits home keyHome)
    (hhomed : InMemoryEtcd.Homed home svc.router.etcd) :
    IngestService.KeepsOthers c.ns svc (c.perform X Q svc).1 := by
  cases c with
  | upsert ns records key background =>
    refine keepsOthers_upsert X svc ns records key background fun r hr => ?_
    obtain ⟨ha, hb⟩ := hc.2.1 r hr
    have hoa := hhomed.owned r.2.split.idA
    have hob := hhomed.owned r.2.split.idB
    rw [ha] at hoa
    rw [hb] at hob
    exact ⟨hoa, hob⟩
  | delete ns ids filter env => exact keepsOthers_deleteRequest ids filter env
  | fetch ns ids => exact (opened_fetch (X := X) svc ns ids).2
  | query request => exact .refl request.ns svc

/-- The keys of other namespaces are looked up as before. -/
theorem perform_keys {c : NamespaceCall ι} (hc : c.Fits home keyHome)
    (hhomed : InMemoryEtcd.Homed home svc.router.etcd) {k : String} (hk : keyHome k ≠ c.ns) :
    (c.perform X Q svc).1.idempotency.get? k = svc.idempotency.get? k := by
  have hrefl : AlikeServices home keyHome svc.nodeId c.ns svc svc :=
    alikeServices_refl hhomed rfl c.ns
  cases c with
  | upsert ns records key background =>
    dsimp only [NamespaceCall.perform]
    cases hold : (key.filter (· ≠ "")).bind svc.idempotency.get? with
    | some r =>
      -- the kept result is returned before anything is done
      unfold IngestService.upsert
      dsimp only
      rw [hold]
    | none =>
      obtain ⟨svc', e, hup, hkeys⟩ | ⟨svc', r, hup, -, hkeys⟩ :=
        upsert_new X svc (c := ⟨ns, records, key, background⟩) hold
      · rw [hup, hkeys]
      · rw [hup, hkeys]
        unfold UpsertCall.key
        dsimp only
        rcases hnew : key.filter (· ≠ "") with _ | k'
        · rfl
        · refine Dict.get?_set_ne _ _ fun he => hk ?_
          rw [he]
          exact hc.2.2 k' (Option.filter_eq_some_iff.mp hnew).1
  | delete ns ids filter env =>
    have hdel := hrefl.alike.deleteRequest (X := X) ids filter env
    exact congrArg (fun t => Dict.get? t k) hdel.state.idempotency
  | fetch ns ids =>
    have hfetch := hrefl.alike.fetch (X := X) ids
    exact congrArg (fun t => Dict.get? t k) hfetch.state.idempotency
  | query request => rfl

theorem perform_respects {c : NamespaceCall ι} (hc : c.Fits home keyHome)
    (hn : isNamespaceName n = true) (hne : c.ns ≠ n)
    (h : AlikeServices home keyHome node n svc svc') :
    AlikeServices home keyHome node n (c.perform X Q svc).1 svc' := by
  have hkeeps : IngestService.KeepsOthers c.ns svc (c.perform X Q svc).1 :=
    perform_keepsOthers hc h.alike.store.homed
  have hview : SameView n svc (c.perform X Q svc).1 := sameView_of_keeps hkeeps hc.name hn hne.symm
  have hrefl : AlikeServices home keyHome node c.ns svc svc :=
    alikeServices_refl h.alike.store.homed h.alike.nodeId c.ns
  have hself := (perform_consistent (X := X) (Q := Q) hc hrefl).1.alike
  refine ⟨⟨?_, ?_, ?_, ⟨?_, ?_, hself.store.homed, h.alike.store.homed'⟩, ?_, hself.nodeId,
    h.alike.nodeId', rfl, rfl⟩, ?_⟩
  · exact h.alike.settings.trans hkeeps.settings.symm
  · exact h.alike.roots.trans hkeeps.roots.symm
  · exact h.alike.membership.trans hkeeps.membership.symm
  · exact h.alike.store.list.trans hview.list.symm
  · exact h.alike.store.nodes.trans hkeeps.store.nodes.symm
  · exact fun id => (h.alike.contexts id).trans (hview.contexts id).symm
  · intro k hk
    have hkey : keyHome k ≠ c.ns := fun he => hne (he.symm.trans hk)
    rw [perform_keys hc h.alike.store.homed hkey]
    exact h.keys k hk

/-! ## Runs -/

/-- Services that are alike for a namespace with a name. -/
def SeenAlike (home keyHome : String → String) (node : Option String) (n : String)
    (svc svc' : IngestService ι) : Prop :=
  isNamespaceName n = true ∧ AlikeServices home keyHome node n svc svc'

variable (X Q home keyHome node) in
theorem unwinds_perform :
    Unwinds (fun svc c => NamespaceCall.perform X Q svc c) NamespaceCall.ns id
      (SeenAlike home keyHome node)
      (NamespaceCall.Fits (ι := ι) home keyHome) where
  respects _ _ _ _ hc hne h := ⟨h.1, perform_respects hc h.1 hne h.2⟩
  consistent _ _ _ hc h := ⟨⟨h.1, (perform_consistent hc h.2).1⟩, (perform_consistent hc h.2).2⟩

variable (X Q svc) in
/-- A namespace is answered as it would be if the others were never called upon. -/
theorem namespaces_isolated (hhomed : InMemoryEtcd.Homed home svc.router.etcd)
    (hn : isNamespaceName n = true) {calls : List (NamespaceCall ι)}
    (hc : ∀ c ∈ calls, c.Fits home keyHome) :
    seen (fun svc c => NamespaceCall.perform X Q svc c) NamespaceCall.ns id n svc calls =
      answers (fun svc c => NamespaceCall.perform X Q svc c) svc
        (calls.filter fun c => c.ns = n) := by
  have hstart : SeenAlike home keyHome svc.nodeId n svc svc := ⟨hn, alikeServices_refl hhomed rfl n⟩
  rw [((unwinds_perform X Q home keyHome svc.nodeId).seen_eq hc hstart).1]
  have hown : ∀ c ∈ calls.filter (fun c => c.ns = n), c.ns = n :=
    fun c hcn => of_decide_eq_true (List.mem_filter.mp hcn).2
  exact seen_own hown svc

end

/-! ## One id in two namespaces -/

section

private def twoIds : String → String
  | "shard-0" | "a" | "b" => "docs"
  | _ => "notes"

private def twoSettings (n : String) : Namespace := ⟨n, 1, .dotProduct, .flat, 1⟩

private def twoStart : IngestService FlatIndex where
  settings :=
    ⟨Dict.set (Dict.set ∅ "docs" (twoSettings "docs")) "notes" (twoSettings "notes"), 10000⟩
  router :=
    ⟨((InMemoryEtcd.init none).put ⟨"shard-0", "docs", "node-1", .active, 0, 50000000, [], 1⟩).put
      ⟨"shard-1", "notes", "node-1", .active, 0, 50000000, [], 1⟩, none⟩
  nodeId := some "node-1"
  roots := ∅
  replicator := .init ∅
  replicationStats := ∅
  shards := ∅
  idempotency := ∅

private theorem twoStart_homed : InMemoryEtcd.Homed twoIds twoStart.router.etcd := by
  intro id s hs
  have hmem : s ∈ twoStart.router.etcd.live.shards.values := Dict.mem_values.mpr ⟨id, hs⟩
  have hid : id = s.id := (InMemoryEtcd.shard_id hs).symm
  rw [hid]
  exact List.forall_iff_forall_mem.mp (show List.Forall (fun s : Shard => s.ns = twoIds s.id)
    [⟨"shard-0", "docs", "node-1", .active, 0, 50000000, [], 1⟩,
      ⟨"shard-1", "notes", "node-1", .active, 0, 50000000, [], 1⟩] from
    ⟨rfl, rfl⟩) s hmem

private def twoPut (ns a b : String) (x : Int) : NamespaceCall FlatIndex :=
  .upsert ns
    [([("id", .str zeroId.text), ("vector", .arr [.int x]), ("metadata", .obj []),
      ("source_system", .str "api")],
      ⟨"2026-01-01T00:00:00Z", oneId, ⟨1, 1, none⟩, none, ⟨0, fun _ => ⟨1, 1, none⟩⟩,
        none, ⟨a, b, none⟩⟩)]
    none fun _ => ⟨1, 1, none⟩

private theorem twoPut_fits {ns a b : String} {x : Int} (hn : isNamespaceName ns = true)
    (ha : twoIds a = ns) (hb : twoIds b = ns) :
    (twoPut ns a b x).Fits twoIds twoIds := by
  refine ⟨hn, fun r hr => ?_, fun k hk => nomatch hk⟩
  obtain rfl := List.mem_singleton.mp hr
  exact ⟨ha, hb⟩

/-- The record of the other namespace with the same id is neither found nor deleted. -/
theorem one_id_two_namespaces :
    let calls := [twoPut "docs" "a" "b" 1, twoPut "notes" "c" "d" 2,
      .query ⟨"docs", [.finite 1], 5, none, [], true, true, none⟩,
      .delete "notes" (some [zeroId.text]) none (fun _ _ => ⟨0, fun _ => ⟨1, 1, none⟩⟩),
        .fetch "docs" [zeroId.text]]
    seen (fun svc c => NamespaceCall.perform fieldwise (flatEngine (exactScoring inner) sortedPick)
      svc c) NamespaceCall.ns id "docs"
        twoStart calls =
      answers (fun svc c => NamespaceCall.perform fieldwise
        (flatEngine (exactScoring inner) sortedPick) svc c) twoStart
        (calls.filter fun c => c.ns = "docs") := by
  intro calls
  have hdocs : isNamespaceName "docs" = true := by decide
  have hnotes : isNamespaceName "notes" = true := by decide
  have hfits : ∀ c ∈ calls, c.Fits twoIds twoIds := by
    intro c hc
    simp only [calls, List.mem_cons, List.not_mem_nil, or_false] at hc
    rcases hc with rfl | rfl | rfl | rfl | rfl
    · exact twoPut_fits hdocs rfl rfl
    · exact twoPut_fits hnotes rfl rfl
    · exact hdocs
    · exact hnotes
    · exact hdocs
  exact namespaces_isolated fieldwise (flatEngine (exactScoring inner) sortedPick) twoStart
    twoStart_homed hdocs hfits

end

end Vsector.Query
