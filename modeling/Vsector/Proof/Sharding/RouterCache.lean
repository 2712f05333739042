import Vsector.Impl.Sharding.RouterCache
import Vsector.Proof.Api.Namespaces
import Vsector.Proof.Ingest.Elsewhere
import Vsector.Proof.Models.Documents
import Vsector.Proof.Sharding.Router

/-!
# Routing by cached shard lists

Whatever adds or removes shards invalidates the cached list of the namespace,
but for the creation of a namespace. That makes shards only where there are
none, so a cached list is the list of the store, or it is empty and the
namespace was created since (`Coherent`). In the second case every record of
the new namespace is refused, and in no other case is a record placed by
another list than the store's (`placesByStore_iff`).
-/

namespace Vsector.Sharding

open Framework Models Api

variable {X : Externals}

namespace RendezvousHash

/-- The best node has the highest score. -/
theorem score_le_best {key : String} {nodes : List String} {b : Option String} {n : String}
    (h : best X key nodes b = some n) :
    (∀ m ∈ nodes, score X key m ≤ score X key n) ∧ ∀ m ∈ b, score X key m ≤ score X key n := by
  induction nodes generalizing b with
  | nil =>
    refine ⟨fun m hm => absurd hm List.not_mem_nil, fun m hm => ?_⟩
    cases h
    cases hm
    exact le_rfl
  | cons a nodes ih =>
    cases b with
    | none =>
      obtain ⟨hnodes, hbest⟩ := ih h
      refine ⟨fun m hm => ?_, fun m hm => by cases hm⟩
      rcases List.mem_cons.mp hm with rfl | hm
      · exact hbest m rfl
      · exact hnodes m hm
    | some b =>
      obtain ⟨hnodes, hbest⟩ := ih h
      have hboth : score X key a ≤ score X key n ∧ score X key b ≤ score X key n := by
        split at hbest
        · rename_i hlt
          exact ⟨hbest a rfl, hlt.le.trans (hbest a rfl)⟩
        · rename_i hge
          exact ⟨(not_lt.mp hge).trans (hbest b rfl), hbest b rfl⟩
      refine ⟨fun m hm => ?_, fun m hm => ?_⟩
      · rcases List.mem_cons.mp hm with rfl | hm
        · exact hboth.1
        · exact hnodes m hm
      · cases hm
        exact hboth.2

end RendezvousHash

namespace CachedRouter

variable {r : CachedRouter} {ns recordId : String} {now : ℚ}

/-- The ids that a record of the namespace may be placed on. -/
def shardIds (shards : List Shard) : List String := (shards.filter fun s => s.id ≠ "").map Shard.id

/-- A record is placed on one of the shards with the highest score of all; where there is none it
is refused. -/
def PlacedBy (X : Externals) (shards : List Shard) (ns recordId : String) : Except Exc Shard → Prop
  | .ok s => s.id ∈ shardIds shards ∧ ∀ id ∈ shardIds shards,
      RendezvousHash.score X (ShardRouter.shardKey X ns recordId) id ≤
        RendezvousHash.score X (ShardRouter.shardKey X ns recordId) s.id
  | .error _ => shardIds shards = []

theorem syncHrw_mem (ids : List String) (id : String) : id ∈ (r.syncHrw ns ids).2 ↔ id ∈ ids := by
  unfold syncHrw
  rcases r.hrwCache.get? ns with _ | nodes
  · rfl
  · dsimp only
    split
    · rename_i h
      exact ⟨h.2 id, h.1 id⟩
    · rfl

/-- The selection over a list, by any nodes that are those of the list. -/
theorem placedBy_selectAmong {shards : List Shard} {nodes : List String}
    (hnodes : ∀ id, id ∈ nodes ↔ id ∈ shardIds shards) :
    PlacedBy X shards ns recordId
      (selectAmong X (shards.filter fun s => s.id ≠ "") nodes ns recordId) := by
  unfold selectAmong RendezvousHash.getNode
  rcases hbest : RendezvousHash.best X (ShardRouter.shardKey X ns recordId) nodes none with _ | id
  · have hnil : nodes = [] := by
      by_contra hne
      have hsome := @RendezvousHash.best_isSome X (ShardRouter.shardKey X ns recordId)
        nodes none (.inl hne)
      rw [hbest] at hsome
      cases hsome
    show shardIds shards = []
    refine List.eq_nil_iff_forall_not_mem.mpr fun id hid => ?_
    have hmem := (hnodes id).mpr hid
    rw [hnil] at hmem
    exact absurd hmem List.not_mem_nil
  · have hmem : id ∈ shardIds shards :=
      (hnodes id).mp ((RendezvousHash.best_mem hbest).resolve_right fun h => by cases h)
    obtain ⟨s, hs, hid⟩ := List.mem_map.mp hmem
    obtain ⟨t, ht⟩ := Option.isSome_iff_exists.mp
      (List.find?_isSome.mpr ⟨s, hs, decide_eq_true hid⟩ :
        ((shards.filter fun s => s.id ≠ "").find? fun s => s.id = id).isSome)
    have htid : t.id = id := by simpa using List.find?_some ht
    dsimp only
    rw [ht]
    refine ⟨by rw [htid]; exact hmem, fun m hm => ?_⟩
    rw [htid]
    exact (RendezvousHash.score_le_best hbest).1 m ((hnodes m).mpr hm)

theorem placedBy_congr {shards shards' : List Shard}
    (h : shards.map Shard.id = shards'.map Shard.id) (result : Except Exc Shard) :
    PlacedBy X shards ns recordId result ↔ PlacedBy X shards' ns recordId result := by
  have hids : ∀ shards : List Shard, shardIds shards = (shards.map Shard.id).filter fun id =>
      id ≠ "" := by
    intro shards
    rw [shardIds, List.filter_map]
    rfl
  have heq : shardIds shards = shardIds shards' := by rw [hids, hids, h]
  cases result with
  | ok s =>
    show _ ∧ _ ↔ _ ∧ _
    rw [heq]
  | error exc =>
    show shardIds shards = [] ↔ shardIds shards' = []
    rw [heq]

/-- A selection places by the list it uses. -/
theorem placedBy_select (r : CachedRouter) (now : ℚ) (ns recordId : String) :
    PlacedBy X (r.getShardsCached now ns).2 ns recordId (r.select X now ns recordId).2 := by
  unfold select
  rcases r.getShardsCached now ns with ⟨r', shards⟩
  dsimp only
  split
  · rename_i hnil
    rw [hnil]
    rfl
  · exact placedBy_selectAmong (syncHrw_mem _)

/-! ## Runs -/

/-- A cached list is the store's, or it is empty and the namespace was created since. -/
def Coherent (r : CachedRouter) : Prop :=
  ∀ ns ts shards, r.cache.get? ns = some (ts, shards) →
    shards.map Shard.id = (r.etcd.listByNamespace ns).map Shard.id ∨
    shards = [] ∧ ∃ id ∈ (r.etcd.listByNamespace ns).map Shard.id, id ≠ ""

/-- No id that the call puts or deletes is that of another namespace's shard. -/
def OwnIds (r : CachedRouter) : RouterCall → Prop
  | .register shard => InMemoryEtcd.Owned r.etcd shard.ns shard.id
  | .change shard => ∃ s, r.etcd.get shard.id = some s ∧ shard.ns = s.ns
  | .split shard idA idB => ∀ id ∈ [shard.id, idA, idB], InMemoryEtcd.Owned r.etcd shard.ns id
  | .create _ _ ns shardCount => ∀ i < shardCount, InMemoryEtcd.Owned r.etcd ns (shardName ns i)
  | _ => True

/-- A record is placed by the shards of the store. -/
def PlacesByStore (X : Externals) (r : CachedRouter) : RouterCall → Prop
  | .select now ns recordId =>
    PlacedBy X (r.etcd.listByNamespace ns) ns recordId (r.select X now ns recordId).2
  | _ => True

/-- A record is not looked for by an empty list that is still cached, where the namespace has
shards. -/
def CacheFits (r : CachedRouter) : RouterCall → Prop
  | .select now ns _ =>
    ∀ ts, r.cache.get? ns = some (ts, []) → now - ts < r.cacheTtl → r.etcd.listByNamespace ns = []
  | _ => True

/-- Nothing of a namespace is cached, and the other namespaces are as they were. -/
theorem Coherent.of_keeps (h : Coherent r) {r' : CachedRouter} (hcache : r'.cache = r.cache.pop ns)
    (hkeeps : InMemoryEtcd.KeepsOthers ns r.etcd r'.etcd) : Coherent r' := by
  intro n ts shards hget
  rw [hcache, Dict.get?_pop] at hget
  split at hget
  · cases hget
  · rename_i hne
    rw [hkeeps.list n hne]
    exact h n ts shards hget

theorem Coherent.getShardsCached (h : Coherent r) (now : ℚ) (ns : String) :
    Coherent (r.getShardsCached now ns).1 := by
  have hread : Coherent (r.readShards now ns).1 := by
    intro n ts shards hget
    have hget' : (r.cache.set ns (now, r.etcd.listByNamespace ns)).get? n = some (ts, shards) :=
      hget
    rw [Dict.get?_set] at hget'
    split at hget'
    · rename_i hn
      cases hget'
      rw [hn]
      exact .inl rfl
    · exact h n ts shards hget'
  unfold CachedRouter.getShardsCached
  split
  · split
    · exact h
    · exact hread
  · exact hread

theorem syncHrw_frame (r : CachedRouter) (ns : String) (ids : List String) :
    (r.syncHrw ns ids).1.cache = r.cache ∧ (r.syncHrw ns ids).1.etcd = r.etcd := by
  unfold syncHrw
  split
  · split <;> exact ⟨rfl, rfl⟩
  · exact ⟨rfl, rfl⟩

theorem Coherent.select (h : Coherent r) (now : ℚ) (ns recordId : String) :
    Coherent (r.select X now ns recordId).1 := by
  have hread := h.getShardsCached now ns
  unfold CachedRouter.select
  rcases hg : r.getShardsCached now ns with ⟨r', shards⟩
  rw [hg] at hread
  dsimp only
  split
  · exact hread
  · obtain ⟨hcache, hetcd⟩ := syncHrw_frame r' ns (shardIds shards)
    intro n ts l hget
    have hcoherent := hread n ts l (hcache ▸ hget)
    show _ = ((r'.syncHrw ns (shardIds shards)).1.etcd.listByNamespace n).map Shard.id ∨
      _ ∧ ∃ id ∈ ((r'.syncHrw ns (shardIds shards)).1.etcd.listByNamespace n).map Shard.id, id ≠ ""
    rw [hetcd]
    exact hcoherent

/-- A change of a shard keeps the ids of every namespace. -/
theorem Coherent.change (h : Coherent r) {shard s : Shard} (hs : r.etcd.get shard.id = some s)
    (hns : shard.ns = s.ns) :
    Coherent { r with etcd := r.etcd.put shard } := by
  intro n ts l hget
  have hids : ((r.etcd.put shard).listByNamespace n).map Shard.id =
      (r.etcd.listByNamespace n).map Shard.id :=
    InMemoryEtcd.ids_setShard hs hns n
  show _ = ((r.etcd.put shard).listByNamespace n).map Shard.id ∨
    _ ∧ ∃ id ∈ ((r.etcd.put shard).listByNamespace n).map Shard.id, id ≠ ""
  rw [hids]
  exact h n ts l hget

/-! ## The creation of a namespace -/

/-- What is cached of a namespace without shards is empty, and so it stays. -/
theorem Coherent.create (h : Coherent r) (lm : ShardLifecycleManager) (nodeId : String)
    {shardCount : Nat} (hown : ∀ i < shardCount, InMemoryEtcd.Owned r.etcd ns (shardName ns i)) :
    Coherent (r.createNamespace lm nodeId ns shardCount) := by
  have hkeeps := keepsOthers_ensureNamespaceShards lm nodeId hown
  intro n ts shards hget
  have hcached := h n ts shards hget
  show _ = ((ensureNamespaceShards lm nodeId r.etcd ns shardCount).1.listByNamespace n).map
    Shard.id ∨
    _ ∧ ∃ id ∈ ((ensureNamespaceShards lm nodeId r.etcd ns shardCount).1.listByNamespace n).map
      Shard.id, id ≠ ""
  by_cases hn : n = ns
  · subst hn
    by_cases hlist : r.etcd.listByNamespace n = []
    · have hempty : shards = [] := by
        rw [hlist] at hcached
        rcases hcached with hcached | ⟨hcached, -⟩
        · exact List.map_eq_nil_iff.mp hcached
        · exact hcached
      rcases hnew : (ensureNamespaceShards lm nodeId r.etcd n shardCount).1.listByNamespace
        n with _ | ⟨s, rest⟩
      · exact .inl (by rw [hempty])
      · refine .inr ⟨hempty, s.id, List.mem_cons_self, fun hid => ?_⟩
        have hmem : s ∈ (ensureNamespaceShards lm nodeId r.etcd n shardCount).1.listByNamespace
            n := by
          rw [hnew]
          exact List.mem_cons_self
        obtain ⟨hget', hns⟩ := InMemoryEtcd.mem_listByNamespace.mp hmem
        rw [get_ensureNamespaceShards lm nodeId fun _ i _ =>
          by rw [hid]; exact shardName_ne_empty n i] at hget'
        have hold : s ∈ r.etcd.listByNamespace n :=
          InMemoryEtcd.mem_listByNamespace.mpr ⟨hget', hns⟩
        rw [hlist] at hold
        cases hold
    · have hsame : (ensureNamespaceShards lm nodeId r.etcd n shardCount).1 = r.etcd := by
        rw [ensureNamespaceShards, if_pos hlist]
      rw [hsame]
      exact hcached
  · rw [hkeeps.list n hn]
    exact hcached

theorem coherent_call (h : Coherent r) {call : RouterCall} (hown : r.OwnIds call) :
    Coherent (r.call X call) := by
  cases call with
  | select now ns recordId => exact h.select now ns recordId
  | list now ns => exact h.getShardsCached now ns
  | invalidate ns => exact h.of_keeps rfl (.refl ns r.etcd)
  | register shard => exact h.of_keeps rfl (InMemoryEtcd.keepsOthers_put rfl hown)
  | change shard =>
    obtain ⟨s, hs, hns⟩ := hown
    exact h.change hs hns
  | split shard idA idB =>
    show Coherent (r.maybeSplit shard idA idB)
    unfold maybeSplit
    split
    · exact h.of_keeps rfl (ShardRouter.keepsOthers_maybeSplit ⟨r.etcd, none⟩ shard
        ⟨idA, idB, none⟩ rfl
        (hown _ (by simp)) (hown _ (by simp)) (hown _ (by simp)))
    · exact h
  | create lm nodeId ns shardCount => exact h.create lm nodeId hown
  | delete ns => exact h.of_keeps rfl (keepsOthers_deleteShards r.etcd ns)

/-- The list that is used is the store's, or it is cached and has not expired. -/
theorem getShardsCached_cases (r : CachedRouter) (now : ℚ) (ns : String) :
    (∃ ts, r.cache.get? ns = some (ts, (r.getShardsCached now ns).2) ∧ now - ts < r.cacheTtl) ∨
      (r.getShardsCached now ns).2 = r.etcd.listByNamespace ns ∧
        ∀ ts shards, r.cache.get? ns = some (ts, shards) → ¬ now - ts < r.cacheTtl := by
  unfold getShardsCached
  rcases hget : r.cache.get? ns with _ | ⟨ts, shards⟩
  · exact .inr ⟨rfl, fun ts shards h => by cases h⟩
  · by_cases hfresh : now - ts < r.cacheTtl
    · dsimp only
      rw [if_pos hfresh]
      exact .inl ⟨ts, rfl, hfresh⟩
    · dsimp only
      rw [if_neg hfresh]
      refine .inr ⟨rfl, fun ts' shards' h => ?_⟩
      cases h
      exact hfresh

/-- A record is placed by the store exactly if it is not looked for by an empty list of before. -/
theorem placesByStore_iff (h : Coherent r) (call : RouterCall) :
    r.PlacesByStore X call ↔ r.CacheFits call := by
  cases call with
  | select now ns recordId =>
    have hplaced := placedBy_select (X := X) r now ns recordId
    show PlacedBy X (r.etcd.listByNamespace ns) ns recordId (r.select X now ns recordId).2 ↔
      ∀ ts, r.cache.get? ns = some (ts, []) → now - ts < r.cacheTtl → r.etcd.listByNamespace ns = []
    obtain ⟨ts, hget, hfresh⟩ | ⟨hlist, hstale⟩ := getShardsCached_cases r now ns
    · rcases h ns ts _ hget with hids | ⟨hempty, id, hid, hne⟩
      · refine iff_of_true ((placedBy_congr hids _).mp hplaced) fun ts' hget' _ => ?_
        have hused : (r.getShardsCached now ns).2 = [] :=
          (Prod.mk.inj (Option.some.inj (hget.symm.trans hget'))).2
        rw [hused] at hids
        exact List.map_eq_nil_iff.mp hids.symm
      · rw [hempty] at hget
        -- the store has a shard that is not in the empty list
        refine iff_of_false (fun hstore => ?_) fun hfits => ?_
        · have hresult : ∃ exc, (r.select X now ns recordId).2 = .error exc := by
            rw [hempty] at hplaced
            rcases hr : (r.select X now ns recordId).2 with exc | s
            · exact ⟨exc, rfl⟩
            · rw [hr] at hplaced
              exact absurd hplaced.1 List.not_mem_nil
          obtain ⟨exc, hexc⟩ := hresult
          rw [hexc] at hstore
          obtain ⟨s, hs, rfl⟩ := List.mem_map.mp hid
          have hmem : s.id ∈ shardIds (r.etcd.listByNamespace ns) :=
            List.mem_map.mpr ⟨s, List.mem_filter.mpr ⟨hs, decide_eq_true hne⟩, rfl⟩
          rw [show shardIds (r.etcd.listByNamespace ns) = [] from hstore] at hmem
          cases hmem
        · rw [hfits ts hget hfresh] at hid
          cases hid
    · rw [hlist] at hplaced
      exact iff_of_true hplaced fun ts hget hfresh => absurd hfresh (hstale ts [] hget)
  | _ => exact Iff.rfl

/-- Every record is placed by the shards of the store exactly if none is looked for by an empty
list that was cached before its namespace was created. -/
theorem routing_follows_store_iff (hcache : r.cache = ∅) {calls : List RouterCall}
    (hown : Along (total (call X)) OwnIds r calls) :
    Along (total (call X)) (PlacesByStore X) r calls ↔
      Along (total (call X)) CacheFits r calls := by
  have hstart : Coherent r := by
    intro ns ts shards hget
    rw [hcache] at hget
    cases hget
  refine Along.iff_of_invariant (I := Coherent) (fun r c hr _ => placesByStore_iff hr c)
    (fun r c t hr hc _ ht => ?_) hstart hown
  cases ht
  exact coherent_call hr hc

/-! A record that is looked for before its namespace is created, and a second later. -/

private def emptyRouter : CachedRouter where
  etcd := ⟨{ (∅ : EtcdData) with
    nodes := Dict.set ∅ "node-1" ⟨"node-1", "vsector-cluster-default", .active, 2⟩ }, none⟩
  cacheTtl := 5
  cache := ∅
  hrwCache := ∅

private def createDocs : RouterCall := .create ⟨true⟩ "node-1" "docs" 1

private theorem ownIds_create {r : CachedRouter} (h : r.etcd.live.shards = ∅) :
    r.OwnIds createDocs := by
  intro i _ s hs
  rw [InMemoryEtcd.get, h] at hs
  cases hs

theorem created_then_selected : Along (total (call fieldwise)) (PlacesByStore fieldwise) emptyRouter
    [createDocs, .select 1 "docs" "a"] ↔ Along (total (call fieldwise)) CacheFits emptyRouter
    [createDocs, .select 1 "docs" "a"] :=
  routing_follows_store_iff rfl ⟨ownIds_create rfl, fun _ _ => ⟨trivial, fun _ _ => trivial⟩⟩

theorem selected_before_creation :
    ¬ ∀ (X : Externals) (r : CachedRouter) (calls : List RouterCall), r.cache = ∅ →
    Along (total (call X)) OwnIds r calls → Along (total (call X)) (PlacesByStore X) r calls := by
  intro h
  obtain ⟨-, hrest⟩ := h fieldwise emptyRouter [.select 0 "docs" "a", createDocs,
    .select 1 "docs" "a"] rfl
    ⟨trivial, fun t ht => by cases ht; exact ⟨ownIds_create rfl,
      fun _ _ => ⟨trivial, fun _ _ => trivial⟩⟩⟩
  obtain ⟨-, hrest⟩ := hrest _ rfl
  obtain ⟨hplaced, -⟩ := hrest _ rfl
  have hids : shardIds (((emptyRouter.call fieldwise (.select 0 "docs" "a")).call fieldwise
      createDocs).etcd.listByNamespace
      "docs") = ["docs#shard-000"] := by
    decide +kernel
  have herror : ∃ exc, (((emptyRouter.call fieldwise (.select 0 "docs" "a")).call fieldwise
      createDocs).select fieldwise
      1 "docs" "a").2 = .error exc := by
    refine ⟨.keyError "no shards for namespace 'docs'", ?_⟩
    decide +kernel
  obtain ⟨exc, hexc⟩ := herror
  have hnone : PlacedBy fieldwise _ "docs" "a" (select fieldwise _ 1 "docs" "a").2 := hplaced
  rw [hexc] at hnone
  cases hids.symm.trans (show shardIds _ = [] from hnone)

end CachedRouter

end Vsector.Sharding
