import Vsector.Proof.Ingest.Elsewhere
import Vsector.Proof.Models.Documents
import Vsector.Proof.Sharding.HashRing

/-!
# What a split leaves of a namespace

`maybe_split` puts two new shards in the place of one and copies nothing: the
records of the parent are in a context that no shard leads to any more, and
the halves are owned by nodes of their own names. An id of another shard stays
with it unless a half has a higher score for it (`Outscored`), and an id of
the parent goes to the shard that is next for it, or to a half. `SplitSpares`
says by these scores when the split loses nothing (`split_keeps_iff`). A
record that the parent alone holds is lost (`split_loses`).
-/

namespace Vsector.Sharding

open Framework Models Cluster

namespace ShardRouter

open InMemoryEtcd

variable {X : Externals} {r : ShardRouter} {ns recordId : String} {node : Option String}
  {shard s t : Shard} {env : SplitEnv}

/-- The owner of the shard is a known member of the cluster. -/
def OwnerKnown (r : ShardRouter) (s : Shard) : Prop :=
  ClusterMembershipManager.validateNode r.etcd s.nodeId = .ok ()

/-! ## Scores of shards -/

/-- The score of a shard of this id. -/
def scoreOf (X : Externals) (ns recordId id : String) : Nat :=
  RendezvousHash.score X (shardKey X ns recordId) id

/-- Of these shards, the first of the highest score. -/
def Preferred (X : Externals) (shards : List Shard) (ns recordId : String) (s : Shard) : Prop :=
  FirstMax (fun s => scoreOf X ns recordId s.id) (shards.filter fun s => s.id ≠ "") s

theorem Preferred.mem {shards : List Shard} (h : Preferred X shards ns recordId s) : s ∈ shards :=
  (List.mem_filter.mp (FirstMax.mem h)).1

theorem selectFrom_of_preferred {shards : List Shard}
    (hunique : ∀ s ∈ shards, ∀ t ∈ shards, s.id = t.id → s = t)
    (h : Preferred X shards ns recordId s) : selectFrom X shards ns recordId = .ok s := by
  have hnode := RendezvousHash.getNode_ok_iff.mpr (FirstMax.map h)
  have hfind : (shards.filter fun s => s.id ≠ "").find? (fun t => t.id = s.id) = some s := by
    obtain ⟨t, ht⟩ := Option.isSome_iff_exists.mp
      (List.find?_isSome (p := fun t : Shard => Decidable.decide (t.id = s.id)).mpr
        ⟨s, FirstMax.mem h, decide_eq_true rfl⟩)
    have hmem := (List.mem_filter.mp (List.mem_of_find?_eq_some ht)).1
    have hid : Decidable.decide (t.id = s.id) = true :=
      List.find?_some (p := fun t : Shard => Decidable.decide (t.id = s.id)) ht
    rw [ht, hunique t hmem s h.mem (of_decide_eq_true hid)]
  rw [selectFrom, if_neg (List.ne_nil_of_mem h.mem)]
  dsimp only
  rw [hnode]
  dsimp only
  rw [hfind]

theorem select_eq_iff_preferred : r.select X ns recordId = .ok s ↔
    Preferred X (r.etcd.listByNamespace ns) ns recordId s := by
  have hunique : ∀ s ∈ r.etcd.listByNamespace ns, ∀ t ∈ r.etcd.listByNamespace ns,
      s.id = t.id → s = t := by
    intro s hs t ht he
    have hget := (mem_listByNamespace.mp hs).1
    rw [he, (mem_listByNamespace.mp ht).1] at hget
    exact (Option.some.inj hget).symm
  refine ⟨fun h => ?_, selectFrom_of_preferred hunique⟩
  by_cases hne : (r.etcd.listByNamespace ns).filter (fun s => s.id ≠ "") = []
  · have hselect : selectFrom X (r.etcd.listByNamespace ns) ns recordId = .ok s := h
    rw [selectFrom, if_neg (List.ne_nil_of_mem (select_mem h))] at hselect
    dsimp only at hselect
    rw [hne] at hselect
    cases hselect
  · obtain ⟨t, ht⟩ := exists_firstMax (fun s => scoreOf X ns recordId s.id) hne
    have hselect : r.select X ns recordId = .ok t := selectFrom_of_preferred hunique ht
    rw [h] at hselect
    cases hselect
    exact ht

/-! ## The shards after a split -/

/-- A half of a shard. -/
def half (shard : Shard) (id suffix : String) (count : Nat) : Shard :=
  ⟨id, shard.ns, shard.nodeId ++ suffix, .active, count, shard.maxVectors, [], 1⟩

def halves (shard : Shard) (env : SplitEnv) : List Shard :=
  [half shard env.idA "-a" (shard.vectorCount / 2),
    half shard env.idB "-b" (shard.vectorCount - shard.vectorCount / 2)]

/-- The other shards of the namespace. -/
def others (r : ShardRouter) (shard : Shard) : List Shard :=
  (r.etcd.listByNamespace shard.ns).filter fun s => s.id ≠ shard.id

/-- The store does not raise, and the identities of the halves are new ones of `uuid4`. -/
structure Splits (r : ShardRouter) (shard : Shard) (env : SplitEnv) : Prop where
  mem : shard ∈ r.etcd.listByNamespace shard.ns
  full : shard.shouldSplit = true
  fault : env.fault = none
  newA : r.etcd.get env.idA = none
  newB : r.etcd.get env.idB = none
  namedA : env.idA ≠ ""
  namedB : env.idB ≠ ""
  ne : env.idA ≠ env.idB

theorem Splits.eq (h : r.Splits shard env) : (r.maybeSplit shard env).1 =
    { r with
      etcd := ((r.etcd.put (half shard env.idA "-a" (shard.vectorCount / 2))).put
        (half shard env.idB "-b" (shard.vectorCount - shard.vectorCount / 2))).delete shard.id } := by
  unfold maybeSplit
  rw [if_neg (not_not.mpr h.full), h.fault]
  rfl

theorem Splits.list (h : r.Splits shard env) :
    (r.maybeSplit shard env).1.etcd.listByNamespace shard.ns = r.others shard ++
      halves shard env := by
  have hget := (mem_listByNamespace.mp h.mem).1
  have hneA : env.idA ≠ shard.id := fun he => by rw [← he, h.newA] at hget; cases hget
  have hneB : env.idB ≠ shard.id := fun he => by rw [← he, h.newB] at hget; cases hget
  let a := half shard env.idA "-a" (shard.vectorCount / 2)
  let b := half shard env.idB "-b" (shard.vectorCount - shard.vectorCount / 2)
  have hnewB : (r.etcd.put a).get b.id = none := by
    have hne : b.id ≠ a.id := h.ne.symm
    exact (Dict.get?_set_ne r.etcd.live.shards a hne).trans h.newB
  have hlist : ((r.etcd.put a).put b).listByNamespace shard.ns = r.etcd.listByNamespace shard.ns ++
      [a] ++ [b] := by
    have ha : (r.etcd.put a).listByNamespace shard.ns = _ := listByNamespace_put h.newA
    have hb : ((r.etcd.put a).put b).listByNamespace shard.ns = _ := listByNamespace_put hnewB
    rw [hb, show (r.etcd.put a).listByNamespace b.ns = _ from ha]
    rfl
  have hkept : [a, b].filter (fun s => s.id ≠ shard.id) = [a, b] :=
    List.filter_eq_self.mpr fun t ht => by
    rcases List.mem_cons.mp ht with rfl | ht
    · exact decide_eq_true hneA
    · rw [List.mem_singleton.mp ht]
      exact decide_eq_true hneB
  rw [h.eq, listByNamespace_delete, hlist, List.append_assoc, List.filter_append,
    List.singleton_append, hkept]
  rfl

/-- A half has a higher score for the id than this shard. -/
def Outscored (X : Externals) (env : SplitEnv) (ns recordId : String) (s : Shard) : Prop :=
  scoreOf X ns recordId s.id < scoreOf X ns recordId env.idA ∨
    scoreOf X ns recordId s.id < scoreOf X ns recordId env.idB

/-- The half of the higher score for the id. -/
def higherHalf (X : Externals) (shard : Shard) (env : SplitEnv) (recordId : String) : Shard :=
  if scoreOf X shard.ns recordId env.idA < scoreOf X shard.ns recordId env.idB then
    half shard env.idB "-b" (shard.vectorCount - shard.vectorCount / 2)
  else half shard env.idA "-a" (shard.vectorCount / 2)

theorem higherHalf_mem : higherHalf X shard env recordId ∈ halves shard env := by
  unfold higherHalf
  split
  · exact List.mem_cons_of_mem _ List.mem_cons_self
  · exact List.mem_cons_self

theorem Splits.filter_named (h : r.Splits shard env) (shards : List Shard) :
    (shards ++ halves shard env).filter (fun s => s.id ≠ "") =
      (shards.filter fun s => s.id ≠ "") ++ halves shard env := by
  rw [List.filter_append]
  congr 1
  refine List.filter_eq_self.mpr fun s hs => decide_eq_true ?_
  rcases List.mem_cons.mp hs with rfl | hs
  · exact h.namedA
  · rw [List.mem_singleton.mp hs]
    exact h.namedB

/-- The halves stand behind the other shards, so one of them is preferred only with a higher
score. -/
theorem Splits.preferred_of_next (h : r.Splits shard env)
    (ht : Preferred X (r.others shard) shard.ns recordId t) :
    (Outscored X env shard.ns recordId t ∧
      Preferred X (r.others shard ++ halves shard env) shard.ns recordId
        (higherHalf X shard env recordId)) ∨
    (¬ Outscored X env shard.ns recordId t ∧
      Preferred X (r.others shard ++ halves shard env) shard.ns recordId t) := by
  let a := half shard env.idA "-a" (shard.vectorCount / 2)
  let b := half shard env.idB "-b" (shard.vectorCount - shard.vectorCount / 2)
  have happend : (r.others shard ++ halves shard env).filter (fun s => s.id ≠ "") =
      ((r.others shard).filter fun s => s.id ≠ "") ++ [a] ++ [b] := by
    rw [h.filter_named, List.append_assoc]
    rfl
  unfold Preferred
  rw [happend]
  by_cases hA : scoreOf X shard.ns recordId t.id < scoreOf X shard.ns recordId env.idA
  · refine .inl ⟨.inl hA, ?_⟩
    have ha := FirstMax.snoc_of_lt ht (b := a) hA
    unfold higherHalf
    split
    · rename_i hB
      exact ha.snoc_of_lt hB
    · rename_i hB
      exact ha.snoc_of_not_lt hB
  · have ha := FirstMax.snoc_of_not_lt ht (b := a) hA
    by_cases hB : scoreOf X shard.ns recordId t.id < scoreOf X shard.ns recordId env.idB
    · refine .inl ⟨.inr hB, ?_⟩
      rw [higherHalf, if_pos ((not_lt.mp hA).trans_lt hB)]
      exact ha.snoc_of_lt hB
    · exact .inr ⟨not_or.mpr ⟨hA, hB⟩, ha.snoc_of_not_lt hB⟩

theorem Splits.preferred_of_alone (h : r.Splits shard env)
    (hnone : (r.others shard).filter (fun s => s.id ≠ "") = []) :
    Preferred X (r.others shard ++ halves shard env) shard.ns recordId
      (higherHalf X shard env recordId) := by
  unfold Preferred
  rw [h.filter_named, hnone]
  have ha := firstMax_singleton (fun s => scoreOf X shard.ns recordId s.id)
    (half shard env.idA "-a" (shard.vectorCount / 2))
  unfold higherHalf
  split
  · rename_i hB
    exact ha.snoc_of_lt hB
  · rename_i hB
    exact ha.snoc_of_not_lt hB

/-- An id goes to a half only where that has a higher score than every other shard. -/
theorem Splits.preferred_iff (h : r.Splits shard env) :
    Preferred X (r.others shard ++ halves shard env) shard.ns recordId s ↔
      (Preferred X (r.others shard) shard.ns recordId s ∧ ¬ Outscored X env shard.ns recordId s) ∨
      (∀ t, Preferred X (r.others shard) shard.ns recordId t →
        Outscored X env shard.ns recordId t) ∧ s = higherHalf X shard env recordId := by
  by_cases hnone : (r.others shard).filter (fun s => s.id ≠ "") = []
  · have hnext : ∀ t, ¬ Preferred X (r.others shard) shard.ns recordId t := fun t ht => by
      have hmem := FirstMax.mem ht
      rw [hnone] at hmem
      cases hmem
    have halone : Preferred X (r.others shard ++ halves shard env) shard.ns recordId _ :=
      h.preferred_of_alone hnone
    refine ⟨fun hs => .inr ⟨fun t ht => absurd ht (hnext t), FirstMax.unique hs halone⟩, ?_⟩
    rintro (⟨hs, -⟩ | ⟨-, rfl⟩)
    · exact absurd hs (hnext s)
    · exact halone
  · obtain ⟨t, ht⟩ := exists_firstMax (fun s => scoreOf X shard.ns recordId s.id) hnone
    have hnext : ∀ t', Preferred X (r.others shard) shard.ns recordId t' → t' = t := fun t' ht' =>
      FirstMax.unique ht' ht
    rcases h.preferred_of_next ht with ⟨hout, hhalf⟩ | ⟨hout, hstays⟩
    · refine ⟨fun hs => .inr ⟨fun t' ht' => hnext t' ht' ▸ hout, FirstMax.unique hs hhalf⟩, ?_⟩
      rintro (⟨hs, hnot⟩ | ⟨-, rfl⟩)
      · exact absurd (hnext s hs ▸ hout) hnot
      · exact hhalf
    · refine ⟨fun hs => ?_, ?_⟩
      · have hst : s = t := FirstMax.unique hs hstays
        exact .inl (hst ▸ ⟨ht, hout⟩)
      · rintro (⟨hs, -⟩ | ⟨hall, -⟩)
        · rw [hnext s hs]
          exact hstays
        · exact absurd (hall t ht) hout

/-- An id of another shard has that for its next one. -/
theorem Splits.next (h : r.Splits shard env) (hselect : r.select X shard.ns recordId = .ok s)
    (hne : s ≠ shard) : Preferred X (r.others shard) shard.ns recordId s := by
  have hs := select_eq_iff_preferred.mp hselect
  have hid : s.id ≠ shard.id := fun he => by
    have hget := (mem_listByNamespace.mp hs.mem).1
    rw [he, (mem_listByNamespace.mp h.mem).1] at hget
    exact hne (Option.some.inj hget).symm
  unfold Preferred others
  rw [List.filter_comm]
  exact FirstMax.filter hs (decide_eq_true hid)

theorem Splits.select_iff (h : r.Splits shard env) :
    (r.maybeSplit shard env).1.select X shard.ns recordId = .ok s ↔
      (Preferred X (r.others shard) shard.ns recordId s ∧ ¬ Outscored X env shard.ns recordId s) ∨
      (∀ t, Preferred X (r.others shard) shard.ns recordId t →
        Outscored X env shard.ns recordId t) ∧ s = higherHalf X shard env recordId := by
  rw [select_eq_iff_preferred, h.list, h.preferred_iff]

/-- The members of the cluster stay the same. -/
theorem Splits.ownerKnown (h : r.Splits shard env) (s : Shard) :
    (r.maybeSplit shard env).1.OwnerKnown s ↔ r.OwnerKnown s := by
  rw [h.eq]
  rfl

theorem Splits.readable (h : r.Splits shard env) (s : Shard) :
    (r.maybeSplit shard env).1.Readable s ↔ r.Readable s := by
  rw [h.eq]
  rfl

theorem Splits.writable (h : r.Splits shard env) (ns : String) (node : Option String) (s : Shard) :
    (r.maybeSplit shard env).1.Writable ns node s ↔ r.Writable ns node s := by
  rw [h.eq]
  rfl

theorem Splits.route_iff (h : r.Splits shard env) :
    (r.maybeSplit shard env).1.route X shard.ns recordId = .ok s ↔
      ((Preferred X (r.others shard) shard.ns recordId s ∧
          ¬ Outscored X env shard.ns recordId s) ∨
        (∀ t, Preferred X (r.others shard) shard.ns recordId t →
          Outscored X env shard.ns recordId t) ∧ s = higherHalf X shard env recordId) ∧
      r.Readable s := by
  rw [route_ok_iff, h.select_iff, h.readable]

theorem Splits.routeWrite_iff (h : r.Splits shard env) :
    (r.maybeSplit shard env).1.routeWrite X shard.ns recordId node = .ok s ↔
      ((Preferred X (r.others shard) shard.ns recordId s ∧
          ¬ Outscored X env shard.ns recordId s) ∨
        (∀ t, Preferred X (r.others shard) shard.ns recordId t →
          Outscored X env shard.ns recordId t) ∧ s = higherHalf X shard env recordId) ∧
      r.Writable shard.ns node s := by
  rw [routeWrite_ok_iff, h.select_iff, h.writable]

/-! The halves are active, and have an owner. -/

theorem requireOwner_half (hs : s ∈ halves shard env) :
    s.state = .active ∧ s.requireOwner = .ok s.nodeId := by
  have hsuffix : ∀ suffix, suffix ≠ "" → shard.nodeId ++ suffix ≠ "" := fun suffix h he =>
    h (String.append_eq_empty_iff.mp he).2
  rcases List.mem_cons.mp hs with rfl | hs
  · exact ⟨rfl, if_neg (hsuffix "-a" (by decide))⟩
  · rw [List.mem_singleton.mp hs]
    exact ⟨rfl, if_neg (hsuffix "-b" (by decide))⟩

theorem validateOwner_half (hs : s ∈ halves shard env) (hknown : r.OwnerKnown s) :
    r.validateOwner s = .ok () := by
  unfold validateOwner
  rw [(requireOwner_half hs).2]
  cases r.membership with
  | none => rfl
  | some _ => exact hknown

theorem readable_half (hs : s ∈ halves shard env) (hknown : r.OwnerKnown s) : r.Readable s :=
  ⟨by rw [(requireOwner_half hs).1]; rfl, validateOwner_half hs hknown⟩

theorem writable_half_iff (hs : s ∈ halves shard env) (hknown : r.OwnerKnown s) :
    r.Writable ns node s ↔ ∀ n, node = some n → s.nodeId = n := by
  have hcheck : checkOwner ns s node = .ok () ↔ ∀ n, node = some n → s.nodeId = n := by
    unfold checkOwner
    rw [(requireOwner_half hs).2]
    rcases node with _ | n
    · simp
    · by_cases hn : s.nodeId = n <;> simp [hn]
  rw [← hcheck]
  exact ⟨fun h => h.2.2, fun h => ⟨(requireOwner_half hs).1, validateOwner_half hs hknown, h⟩⟩

end ShardRouter

end Vsector.Sharding

namespace Vsector.Ingest

open Framework Models Storage Sharding Index ShardRouter

namespace IngestService

variable {ι : Type} [BaseIndex ι] {X : Externals} {svc svc' : IngestService ι} {ns id : String}
  {shard s : Shard} {env : SplitEnv}

/-- What the service finds of a record on a shard. -/
def holds (X : Externals) (svc : IngestService ι) (ns : String) (s : Shard) (id : String) :
    Option Payload :=
  match svc.getOrCreateCtx X ns s with
  | .error _ => none
  | .ok (_, ctx) => (ctx.fetch X id).toOption.join

/-- `fetch` of one id returns this. -/
def Fetches (X : Externals) (svc : IngestService ι) (ns id : String) (p : Payload) : Prop :=
  (svc.fetch X ns [id]).2.toOption = some [p]

theorem fetches_iff {p : Payload} :
    svc.Fetches X ns id p ↔ ∃ s, svc.router.route X ns id = .ok s ∧
      svc.holds X ns s id = some p := by
  unfold Fetches fetch holds forEach fetchOne
  dsimp only
  rcases svc.router.route X ns id with exc | s
  · constructor
    · intro h
      cases h
    · rintro ⟨_, h, _⟩
      cases h
  · dsimp only
    rcases hc : svc.getOrCreateCtx X ns s with exc | ⟨svc', ctx⟩
    · constructor
      · intro h
        cases h
      · rintro ⟨t, ht, h⟩
        cases ht
        rw [hc] at h
        cases h
    · dsimp only
      rcases hf : ctx.fetch X id with exc | payload
      · constructor
        · intro h
          cases h
        · rintro ⟨t, ht, h⟩
          cases ht
          rw [hc] at h
          dsimp only at h
          rw [hf] at h
          cases h
      · constructor
        · intro h
          have hlist : payload.toList = [p] := Option.some.inj h
          refine ⟨s, rfl, ?_⟩
          rw [hc]
          dsimp only
          rw [hf]
          rcases payload with _ | q
          · cases hlist
          · exact congrArg some (List.cons.inj hlist).1
        · rintro ⟨t, ht, h⟩
          cases ht
          rw [hc] at h
          dsimp only at h
          rw [hf] at h
          have hpayload : payload = some p := h
          rw [hpayload]
          rfl

/-- What is found on a shard does not depend on the router. -/
theorem holds_congr (hsettings : svc'.settings = svc.settings) (hroots : svc'.roots = svc.roots)
    (hshards : svc'.shards = svc.shards) : svc'.holds X ns s id = svc.holds X ns s id := by
  unfold holds getOrCreateCtx
  rw [hsettings, hroots, hshards]
  rcases svc.shards.get? (ctxKey ns s.id) with _ | ctx
  · dsimp only
    rcases svc.settings.metadata.get? ns with _ | settings
    · rfl
    · dsimp only
      rcases ShardContext.init X s settings svc.settings.memtableThreshold
        ((svc.roots.get? s.id).getD ∅) with exc | ctx
      · rfl
      · rfl
  · rfl

/-- The service after a split. -/
def split (svc : IngestService ι) (shard : Shard) (env : SplitEnv) : IngestService ι :=
  { svc with router := (svc.router.maybeSplit shard env).1 }

/-- The identities of the halves are new to the service too. -/
structure NewHalves (svc : IngestService ι) (shard : Shard) (env : SplitEnv) : Prop where
  splits : svc.router.Splits shard env
  contexts : ∀ id ∈ [env.idA, env.idB], svc.shards.get? (ctxKey shard.ns id) = none
  roots : ∀ id ∈ [env.idA, env.idB], svc.roots.get? id = none

theorem NewHalves.holds_half (h : svc.NewHalves shard env) (hs : s ∈ halves shard env) :
    svc.holds X shard.ns s id = none := by
  have hid : s.id ∈ [env.idA, env.idB] := by
    rcases List.mem_cons.mp hs with rfl | hs
    · exact List.mem_cons_self
    · rw [List.mem_singleton.mp hs]
      exact List.mem_cons_of_mem _ List.mem_cons_self
  unfold holds getOrCreateCtx
  rw [h.contexts _ hid, h.roots _ hid]
  dsimp only
  rcases svc.settings.metadata.get? shard.ns with _ | settings
  · rfl
  · rfl

/-- Every record that could be fetched can be, and every id that led to a shard with a known owner
does. -/
structure SplitKeeps (X : Externals) (svc svc' : IngestService ι) (ns : String) : Prop where
  fetches : ∀ id p, svc.Fetches X ns id p → svc'.Fetches X ns id p
  route : ∀ id, (∃ s, svc.router.route X ns id = .ok s ∧ svc.router.OwnerKnown s) →
    ∃ s, svc'.router.route X ns id = .ok s ∧ svc'.router.OwnerKnown s
  routeWrite : ∀ id, (∃ s, svc.router.routeWrite X ns id svc.nodeId = .ok s ∧
    svc.router.OwnerKnown s) →
    ∃ s, svc'.router.routeWrite X ns id svc'.nodeId = .ok s ∧ svc'.router.OwnerKnown s

/-- By the scores of the shards for an id, and what was on them before the split. -/
structure SplitSpares (X : Externals) (svc : IngestService ι) (shard : Shard) (env : SplitEnv) :
    Prop where
  /-- A record of another shard: no half has a higher score for it. -/
  stays : ∀ id s p, svc.router.route X shard.ns id = .ok s → svc.holds X shard.ns s id = some p →
    s ≠ shard → ¬ Outscored X env shard.ns id s
  /-- A record of the shard itself: the next one for it has it too. -/
  copied : ∀ id p, svc.router.route X shard.ns id = .ok shard →
    svc.holds X shard.ns shard id = some p →
      ∃ t, Preferred X (svc.router.others shard) shard.ns id t ∧
      ¬ Outscored X env shard.ns id t ∧ svc.router.Readable t ∧ svc.holds X shard.ns t id = some p
  /-- An id that a half takes from another shard: the node of the half is known. -/
  taken : ∀ id s, svc.router.route X shard.ns id = .ok s → svc.router.OwnerKnown s → s ≠ shard →
    Outscored X env shard.ns id s → svc.router.OwnerKnown (higherHalf X shard env id)
  /-- An id of the shard itself: the next one for it is readable, or a half takes it. -/
  inherited : ∀ id, svc.router.route X shard.ns id = .ok shard → svc.router.OwnerKnown shard →
    (∃ t, Preferred X (svc.router.others shard) shard.ns id t ∧ ¬ Outscored X env shard.ns id t ∧
      svc.router.Readable t ∧ svc.router.OwnerKnown t) ∨
    (∀ t, Preferred X (svc.router.others shard) shard.ns id t → Outscored X env shard.ns id t) ∧
      svc.router.OwnerKnown (higherHalf X shard env id)
  /-- As `taken`, for writes: the node of the half is the local one. -/
  takenWrite : ∀ id s, svc.router.routeWrite X shard.ns id svc.nodeId = .ok s →
    svc.router.OwnerKnown s → s ≠ shard → Outscored X env shard.ns id s →
    svc.router.OwnerKnown (higherHalf X shard env id) ∧
      ∀ n, svc.nodeId = some n → (higherHalf X shard env id).nodeId = n
  /-- As `inherited`, for writes. -/
  inheritedWrite : ∀ id, svc.router.routeWrite X shard.ns id svc.nodeId = .ok shard →
    svc.router.OwnerKnown shard →
    (∃ t, Preferred X (svc.router.others shard) shard.ns id t ∧ ¬ Outscored X env shard.ns id t ∧
      svc.router.Writable shard.ns svc.nodeId t ∧ svc.router.OwnerKnown t) ∨
    (∀ t, Preferred X (svc.router.others shard) shard.ns id t → Outscored X env shard.ns id t) ∧
      svc.router.OwnerKnown (higherHalf X shard env id) ∧
      ∀ n, svc.nodeId = some n → (higherHalf X shard env id).nodeId = n

/-- The halves hold nothing, so a record is found on the next shard or not at all. -/
theorem NewHalves.fetches_iff (h : svc.NewHalves shard env) {p : Payload} :
    (svc.split shard env).Fetches X shard.ns id p ↔
      ∃ t, Preferred X (svc.router.others shard) shard.ns id t ∧ ¬ Outscored X env shard.ns id t ∧
        svc.router.Readable t ∧ svc.holds X shard.ns t id = some p := by
  have hholds : ∀ s, (svc.split shard env).holds X shard.ns s id = svc.holds X shard.ns s id :=
    fun _ => holds_congr rfl rfl rfl
  rw [IngestService.fetches_iff]
  refine exists_congr fun t => ?_
  rw [hholds, split, h.splits.route_iff]
  constructor
  · rintro ⟨⟨⟨hnext, hout⟩ | ⟨-, rfl⟩, hreadable⟩, hp⟩
    · exact ⟨hnext, hout, hreadable, hp⟩
    · rw [h.holds_half higherHalf_mem] at hp
      cases hp
  · rintro ⟨hnext, hout, hreadable, hp⟩
    exact ⟨⟨.inl ⟨hnext, hout⟩, hreadable⟩, hp⟩

/-- A record is lost that no other shard of the namespace holds. -/
theorem split_loses (h : svc.NewHalves shard env) {p : Payload} (hp : svc.Fetches X shard.ns id p)
    (hothers : ∀ s ∈ svc.router.others shard, svc.holds X shard.ns s id ≠ some p) :
    ¬ SplitKeeps X svc (svc.split shard env) shard.ns := fun hkeeps => by
  obtain ⟨s, hs, -, -, hholds⟩ := h.fetches_iff.mp (hkeeps.fetches id p hp)
  exact hothers s hs.mem hholds

theorem NewHalves.spares (h : svc.NewHalves shard env)
    (hkeeps : SplitKeeps X svc (svc.split shard env) shard.ns) : SplitSpares X svc shard env where
  stays id s p hroute hp hne hout := by
    obtain ⟨t, hnext, hnot, -⟩ := h.fetches_iff.mp
      (hkeeps.fetches id p (IngestService.fetches_iff.mpr ⟨s, hroute, hp⟩))
    rw [FirstMax.unique hnext (h.splits.next (route_ok_iff.mp hroute).1 hne)] at hnot
    exact hnot hout
  copied id p hroute hp :=
    h.fetches_iff.mp (hkeeps.fetches id p (IngestService.fetches_iff.mpr ⟨shard, hroute, hp⟩))
  taken id s hroute hknown hne hout := by
    obtain ⟨t, ht, hknown'⟩ := hkeeps.route id ⟨s, hroute, hknown⟩
    rcases (h.splits.route_iff.mp ht).1 with ⟨hnext, hnot⟩ | ⟨-, rfl⟩
    · rw [FirstMax.unique hnext (h.splits.next (route_ok_iff.mp hroute).1 hne)] at hnot
      exact absurd hout hnot
    · exact (h.splits.ownerKnown _).mp hknown'
  inherited id hroute hknown := by
    obtain ⟨t, ht, hknown'⟩ := hkeeps.route id ⟨shard, hroute, hknown⟩
    have hown := (h.splits.ownerKnown t).mp hknown'
    obtain ⟨⟨hnext, hnot⟩ | ⟨hall, rfl⟩, hreadable⟩ := h.splits.route_iff.mp ht
    · exact .inl ⟨t, hnext, hnot, hreadable, hown⟩
    · exact .inr ⟨hall, hown⟩
  takenWrite id s hroute hknown hne hout := by
    obtain ⟨t, ht, hknown'⟩ := hkeeps.routeWrite id ⟨s, hroute, hknown⟩
    have hown := (h.splits.ownerKnown t).mp hknown'
    obtain ⟨⟨hnext, hnot⟩ | ⟨-, rfl⟩, hwritable⟩ := h.splits.routeWrite_iff.mp ht
    · rw [FirstMax.unique hnext (h.splits.next (routeWrite_ok_iff.mp hroute).1 hne)] at hnot
      exact absurd hout hnot
    · exact ⟨hown, (writable_half_iff higherHalf_mem hown).mp hwritable⟩
  inheritedWrite id hroute hknown := by
    obtain ⟨t, ht, hknown'⟩ := hkeeps.routeWrite id ⟨shard, hroute, hknown⟩
    have hown := (h.splits.ownerKnown t).mp hknown'
    obtain ⟨⟨hnext, hnot⟩ | ⟨hall, rfl⟩, hwritable⟩ := h.splits.routeWrite_iff.mp ht
    · exact .inl ⟨t, hnext, hnot, hwritable, hown⟩
    · exact .inr ⟨hall, hown, (writable_half_iff higherHalf_mem hown).mp hwritable⟩

theorem SplitSpares.keeps (hspares : SplitSpares X svc shard env) (h : svc.NewHalves shard env) :
    SplitKeeps X svc (svc.split shard env) shard.ns where
  fetches id p hp := by
    obtain ⟨s, hroute, hholds⟩ := IngestService.fetches_iff.mp hp
    obtain ⟨hselect, hreadable⟩ := route_ok_iff.mp hroute
    refine h.fetches_iff.mpr ?_
    by_cases hs : s = shard
    · exact hspares.copied id p (hs ▸ hroute) (hs ▸ hholds)
    · exact ⟨s, h.splits.next hselect hs, hspares.stays id s p hroute hholds hs, hreadable, hholds⟩
  route id := by
    rintro ⟨s, hroute, hknown⟩
    obtain ⟨hselect, hreadable⟩ := route_ok_iff.mp hroute
    have hhalf : svc.router.OwnerKnown (higherHalf X shard env id) →
        (∀ t, Preferred X (svc.router.others shard) shard.ns id t →
          Outscored X env shard.ns id t) →
        ∃ t, (svc.split shard env).router.route X shard.ns id = .ok t ∧
          (svc.split shard env).router.OwnerKnown t := fun hown hall =>
      ⟨_, h.splits.route_iff.mpr ⟨.inr ⟨hall, rfl⟩, readable_half higherHalf_mem hown⟩,
        (h.splits.ownerKnown _).mpr hown⟩
    by_cases hs : s = shard
    · rcases hspares.inherited id (hs ▸ hroute) (hs ▸ hknown) with
        ⟨t, hnext, hnot, hread, hown⟩ | ⟨hall, hown⟩
      · exact ⟨t, h.splits.route_iff.mpr ⟨.inl ⟨hnext, hnot⟩, hread⟩,
          (h.splits.ownerKnown t).mpr hown⟩
      · exact hhalf hown hall
    have hnext := h.splits.next hselect hs
    by_cases hout : Outscored X env shard.ns id s
    · exact hhalf (hspares.taken id s hroute hknown hs hout) fun t ht =>
        FirstMax.unique hnext ht ▸ hout
    · exact ⟨s, h.splits.route_iff.mpr ⟨.inl ⟨hnext, hout⟩, hreadable⟩,
        (h.splits.ownerKnown s).mpr hknown⟩
  routeWrite id := by
    rintro ⟨s, hroute, hknown⟩
    obtain ⟨hselect, hwritable⟩ := routeWrite_ok_iff.mp hroute
    have hhalf : (svc.router.OwnerKnown (higherHalf X shard env id) ∧
          ∀ n, svc.nodeId = some n → (higherHalf X shard env id).nodeId = n) →
        (∀ t, Preferred X (svc.router.others shard) shard.ns id t →
          Outscored X env shard.ns id t) →
        ∃ t, (svc.split shard env).router.routeWrite X shard.ns id svc.nodeId = .ok t ∧
          (svc.split shard env).router.OwnerKnown t := fun ⟨hown, hlocal⟩ hall =>
      ⟨_, h.splits.routeWrite_iff.mpr ⟨.inr ⟨hall, rfl⟩,
        (writable_half_iff higherHalf_mem hown).mpr hlocal⟩, (h.splits.ownerKnown _).mpr hown⟩
    by_cases hs : s = shard
    · rcases hspares.inheritedWrite id (hs ▸ hroute) (hs ▸ hknown) with
        ⟨t, hnext, hnot, hwrite, hown⟩ | ⟨hall, hown⟩
      · exact ⟨t, h.splits.routeWrite_iff.mpr ⟨.inl ⟨hnext, hnot⟩, hwrite⟩,
          (h.splits.ownerKnown t).mpr hown⟩
      · exact hhalf hown hall
    have hnext := h.splits.next hselect hs
    by_cases hout : Outscored X env shard.ns id s
    · exact hhalf (hspares.takenWrite id s hroute hknown hs hout) fun t ht =>
        FirstMax.unique hnext ht ▸ hout
    · exact ⟨s, h.splits.routeWrite_iff.mpr ⟨.inl ⟨hnext, hout⟩, hwritable⟩,
        (h.splits.ownerKnown s).mpr hknown⟩

/-- A split loses nothing exactly under `SplitSpares`, and never where a record is on the parent
alone. -/
theorem split_keeps_iff (X : Externals) (h : svc.NewHalves shard env) :
    (SplitKeeps X svc (svc.split shard env) shard.ns ↔ SplitSpares X svc shard env) ∧
      ∀ id p, svc.Fetches X shard.ns id p →
        (∀ s ∈ svc.router.others shard, svc.holds X shard.ns s id ≠ some p) →
        ¬ SplitKeeps X svc (svc.split shard env) shard.ns :=
  ⟨⟨h.spares, fun hspares => hspares.keeps h⟩, fun _ _ hp hothers => split_loses h hp hothers⟩

/-- `upsert` of a record that nothing raises for ends with a split of its shard, as it is counted
then, perhaps one that does not fire. -/
theorem upsertRecord_split {settings : Namespace} {st : UpsertState ι} {raw : Raw}
    {env : RecordEnv ι} {rec : VectorRecord} {ctx ctx' : ShardContext ι}
    (hp : parseRecord X ns settings raw env.now env.uuid4 = .ok rec)
    (hw : st.svc.router.routeWrite X ns rec.id.text st.svc.nodeId = .ok shard)
    (hg : st.svc.getOrCreateCtx X ns shard = .ok (svc, ctx))
    (ha : ctx.applyUpsert X rec (some (X.modelDumpJson rec)) env.flush env.index = (ctx', .ok ()))
    (hb : env.bookkeeping = none) (hf : env.split.fault = none) : ∃ replicator stats,
      let counted := { shard with vectorCount := ctx'.shard.vectorCount }
      let mid := { svc.setCtx (ctxKey ns shard.id) ctx' with
        router := { svc.router with etcd := svc.router.etcd.setShard counted }
        replicator := replicator
        replicationStats := stats }
      (upsertRecord X ns settings st raw env).svc = mid.split counted env.split ∧
        counted ∈ mid.router.etcd.listByNamespace shard.ns := by
  have hmem : ({ shard with vectorCount := ctx'.shard.vectorCount } : Shard) ∈
      (svc.router.etcd.setShard { shard with
        vectorCount := ctx'.shard.vectorCount }).listByNamespace shard.ns :=
    InMemoryEtcd.mem_listByNamespace.mpr ⟨Dict.get?_set_self _ _ _, rfl⟩
  by_cases hfull : ({ shard with vectorCount := ctx'.shard.vectorCount } : Shard).shouldSplit = true
  · simp only [upsertRecord, split, hp, hw, hg, ha, hb, hf, ShardRouter.maybeSplit, hfull,
      not_true_eq_false, if_false]
    exact ⟨_, _, rfl, hmem⟩
  · simp only [upsertRecord, split, hp, hw, hg, ha, hb, ShardRouter.maybeSplit, hfull,
      Bool.false_eq_true, not_false_eq_true, if_true]
    exact ⟨_, _, rfl, hmem⟩

section

private def fullShard : Shard := ⟨"shard-0", "docs", "node-1", .active, 1, 0, [], 1⟩

private def fullNamespace : Namespace := ⟨"docs", 1, .cosine, .flat, 1⟩

/-- The context of the shard after the write of one record. -/
private def fullCtx : ShardContext FlatIndex :=
  ((ShardContext.fresh { fullShard with vectorCount := 0 } fullNamespace 10000 : ShardContext
    FlatIndex).applyUpsert fieldwise
    (unitRecord zeroId []) (some (fieldwise.modelDumpJson (unitRecord zeroId [])))
      ⟨1, 1, none⟩ none).1

private def fullService : IngestService FlatIndex where
  settings := ⟨Dict.set ∅ "docs" fullNamespace, 10000⟩
  router := ⟨(InMemoryEtcd.init none).put fullShard, none⟩
  nodeId := some "node-1"
  roots := ∅
  replicator := .init ∅
  replicationStats := ∅
  shards := Dict.set ∅ (ctxKey "docs" "shard-0") fullCtx
  idempotency := ∅

private theorem full_newHalves : fullService.NewHalves fullShard ⟨"a", "b", none⟩ where
  splits := ⟨List.mem_singleton.mpr rfl, rfl, rfl, rfl, rfl, by decide, by decide, by decide⟩
  contexts := by decide +kernel
  roots := by decide

/-- Another shard of the namespace, whose longer id scores higher. -/
private def otherShard : Shard := ⟨"shard-10", "docs", "node-1", .active, 1, 10, [], 1⟩

private def otherCtx : ShardContext FlatIndex :=
  ((ShardContext.fresh otherShard fullNamespace 10000 : ShardContext FlatIndex).applyUpsert
    fieldwise (unitRecord zeroId []) (some (fieldwise.modelDumpJson (unitRecord zeroId [])))
    ⟨1, 1, none⟩ none).1

private def knownNode : InMemoryEtcd :=
  ⟨{ (∅ : EtcdData) with nodes := Dict.set ∅ "node-1" ⟨"node-1", "main", .active, 1⟩ }, none⟩

private def keptService : IngestService FlatIndex :=
  { fullService with
    router := ⟨(knownNode.put fullShard).put otherShard, some ⟨"main"⟩⟩
    shards := Dict.set ∅ (ctxKey "docs" "shard-10") otherCtx }

private theorem kept_newHalves : keptService.NewHalves fullShard ⟨"a", "b", none⟩ where
  splits := ⟨by decide +kernel, rfl, rfl, rfl, rfl, by decide, by decide, by decide⟩
  contexts := by decide +kernel
  roots := by decide

private theorem scoreOf_fieldwise (recordId id : String) :
    scoreOf fieldwise "docs" recordId id = recordId.length + 6 + id.length := by
  have hlength : ("docs" ++ ":" ++ recordId ++ "#" ++ id).length =
      recordId.length + 6 + id.length := by
    simp only [String.length_append, show "docs".length = 4 from rfl, show ":".length = 1 from rfl,
      show "#".length = 1 from rfl]
    omega
  exact hlength

private theorem kept_select {id : String} {s : Shard}
    (h : keptService.router.select fieldwise "docs" id = .ok s) : s = otherShard := by
  have hlist : keptService.router.etcd.listByNamespace "docs" = [fullShard, otherShard] := by
    decide +kernel
  have hpreferred := select_eq_iff_preferred.mp h
  rw [hlist] at hpreferred
  rcases List.mem_cons.mp hpreferred.mem with rfl | hs
  · have hle := FirstMax.le hpreferred (b := otherShard) (by decide)
    simp only [scoreOf_fieldwise] at hle
    exact absurd (Nat.le_of_add_le_add_left hle) (by decide)
  · exact List.mem_singleton.mp hs

private theorem kept_not_outscored (id : String) :
    ¬ Outscored fieldwise ⟨"a", "b", none⟩ "docs" id otherShard := by
  simp only [Outscored, scoreOf_fieldwise, Nat.add_lt_add_iff_left]
  decide

/-- Where another shard outscores the halves for every id, and nothing is on the one that is
split. -/
theorem split_keeps_full :
    keptService.Fetches fieldwise "docs" zeroId.text (unitRecord zeroId []).toPayload ∧
    SplitKeeps fieldwise keptService (keptService.split fullShard ⟨"a", "b", none⟩) "docs" := by
  have hne : fullShard ≠ otherShard := by decide
  refine ⟨rfl, (split_keeps_iff fieldwise kept_newHalves).1.mpr ⟨fun id s p hroute _ _ => ?_,
    fun id p hroute => ?_, fun id s hroute _ _ hout => ?_, fun id hroute => ?_,
    fun id s hroute _ _ hout => ?_, fun id hroute => ?_⟩⟩
  · rw [kept_select (route_ok_iff.mp hroute).1]
    exact kept_not_outscored id
  · exact absurd (kept_select (route_ok_iff.mp hroute).1) hne
  · rw [kept_select (route_ok_iff.mp hroute).1] at hout
    exact absurd hout (kept_not_outscored id)
  · exact absurd (kept_select (route_ok_iff.mp hroute).1) hne
  · rw [kept_select (routeWrite_ok_iff.mp hroute).1] at hout
    exact absurd hout (kept_not_outscored id)
  · exact absurd (kept_select (routeWrite_ok_iff.mp hroute).1) hne

/-- The write that takes a shard over its limit is lost with the shard. -/
theorem split_loses_the_write :
    ¬ ∀ X (svc : IngestService FlatIndex) shard env, svc.NewHalves shard env →
    SplitKeeps X svc (svc.split shard env) shard.ns := by
  intro h
  have hfetches : fullService.Fetches fieldwise fullShard.ns zeroId.text
      (unitRecord zeroId []).toPayload := rfl
  have hothers : fullService.router.others fullShard = [] := by decide +kernel
  refine split_loses full_newHalves hfetches
    (fun s hs => ?_) (h fieldwise fullService fullShard _ full_newHalves)
  rw [hothers] at hs
  exact absurd hs List.not_mem_nil

end

end IngestService

end Vsector.Ingest
