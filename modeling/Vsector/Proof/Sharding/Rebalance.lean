import Vsector.Framework.Balance
import Vsector.Framework.Run
import Vsector.Impl.Sharding.Rebalance

/-!
# Following recommendations

`rebalance_terminates_iff`: the recommendations can be followed to an end, each
of them making the shards' distribution more even, exactly where the shards of
every namespace can be spread evenly over the members. Where they cannot, two
members that differ by one shard hand it to each other for ever
(`rebalance_swings`).
-/

namespace Vsector.Sharding

open Framework Cluster

namespace Rebalance

variable {store t : InMemoryEtcd} {ns : String} {r : Recommendation}

/-- The known members, as a set. -/
def members (store : InMemoryEtcd) : Finset String := (known store).toFinset

/-- How many shards of a namespace the members hold that may be moved. -/
def total (store : InMemoryEtcd) (ns : String) : Nat := ∑ o ∈ members store, count store ns o

/-- The sum of the squares of the members' counts. -/
def sumSquares (store : InMemoryEtcd) (ns : String) : Nat :=
  ∑ o ∈ members store, count store ns o ^ 2

theorem mem_members {o : String} : o ∈ members store ↔ o ∈ known store := List.mem_toFinset

/-- The shards that are counted for an owner. -/
def counted (ns owner : String) (s : Shard) : Bool :=
  s.ns = ns ∧ s.state.isMigratable ∧ s.nodeId = owner

theorem mem_ownerShards {owner : String} {s : Shard} :
    s ∈ ownerShards store ns owner ↔
      store.get s.id = some s ∧ s.ns = ns ∧ s.state.isMigratable = true ∧ s.nodeId = owner := by
  simp only [ownerShards, migratable, InMemoryEtcd.listByNamespace, InMemoryEtcd.get,
    List.mem_filter, Dict.mem_values, decide_eq_true_eq, and_assoc]
  refine and_congr_left fun _ => ⟨fun ⟨k, hk⟩ => ?_, fun h => ⟨_, h⟩⟩
  rwa [store.live.shards_keyed k s hk]

theorem count_eq_countP (store : InMemoryEtcd) (ns owner : String) :
    count store ns owner = store.all.countP (counted ns owner) := by
  rw [count, ownerShards, migratable, InMemoryEtcd.listByNamespace, List.filter_filter,
    List.filter_filter, ← List.countP_eq_length_filter]
  refine List.countP_congr fun s _ => ?_
  simp only [counted, Bool.and_eq_true, decide_eq_true_eq]
  tauto

theorem mem_owners {o : String} : o ∈ owners store ns ↔ o ∈ known store ∧ 0 < count store ns o := by
  simp only [owners, List.mem_dedup, List.mem_filter, List.mem_map, decide_eq_true_eq, count,
    List.length_pos_iff_exists_mem, ownerShards]
  constructor
  · rintro ⟨⟨s, hs, rfl⟩, ho⟩
    exact ⟨ho, s, hs, rfl⟩
  · rintro ⟨ho, s, hs, rfl⟩
    exact ⟨⟨s, hs, rfl⟩, ho⟩

theorem mem_namespaces : ns ∈ namespaces store ↔ ∃ s ∈ store.all, s.ns = ns := by
  simp [namespaces]

/-- The source has the most shards of all members. -/
theorem sourceOwner_most {source : String} (h : sourceOwner store ns = some source) :
    source ∈ known store ∧ 0 < count store ns source ∧
    ∀ o ∈ known store, count store ns o ≤ count store ns source := by
  have hmem := mem_owners.mp (List.argmin_mem h)
  refine ⟨hmem.1, hmem.2, fun o ho => ?_⟩
  by_cases hpos : 0 < count store ns o
  · have hle := List.le_of_mem_argmin (mem_owners.mpr ⟨ho, hpos⟩) h
    rcases Prod.Lex.toLex_le_toLex.mp hle with hlt | ⟨heq, -⟩
    · exact le_of_lt hlt
    · exact le_of_eq (OrderDual.toDual_inj.mp heq).symm
  · omega

/-- The target has the fewest shards of the other members. -/
theorem target_least {source target : String} (h : Rebalance.target store ns source = some target) :
    target ∈ known store ∧ target ≠ source ∧ ∀ o ∈ known store, o ≠ source →
      count store ns target ≤ count store ns o := by
  have hmem := List.mem_filter.mp (List.argmin_mem h)
  refine ⟨hmem.1, of_decide_eq_true hmem.2, fun o ho hne => ?_⟩
  have hle := List.le_of_mem_argmin (List.mem_filter.mpr ⟨ho, decide_eq_true hne⟩) h
  rcases Prod.Lex.toLex_le_toLex.mp hle with hlt | ⟨heq, -⟩
  · exact le_of_lt hlt
  · exact le_of_eq heq

/-- What a recommendation is of: a shard of the member that has the most of its namespace, and of
the others the one that has the fewest. -/
structure Justified (store : InMemoryEtcd) (r : Recommendation) (shard : Shard) : Prop where
  found : store.get r.shardId = some shard
  ns : shard.ns = r.ns
  migratable : shard.state.isMigratable = true
  owner : shard.nodeId = r.currentOwner
  extremes : Extremes (members store) (count store r.ns) r.currentOwner r.recommendedTarget
  two : 2 ≤ count store r.ns r.currentOwner
  more : count store r.ns r.recommendedTarget < count store r.ns r.currentOwner

theorem recommendFor_eq_some (h : recommendFor store ns = some r) :
    r.ns = ns ∧ ∃ shard, Justified store r shard := by
  unfold recommendFor at h
  split at h
  · cases h
  · rename_i source hsource
    split at h
    · cases h
    · rename_i htwo
      split at h
      · cases h
      · rename_i target htarget
        split at h
        · cases h
        · rename_i hmore
          obtain ⟨shard, hcandidate, rfl⟩ := Option.map_eq_some_iff.mp h
          obtain ⟨hs, -, hmost⟩ := sourceOwner_most hsource
          obtain ⟨ht, hne, hleast⟩ := target_least htarget
          obtain ⟨hget, hns, hmig, howner⟩ := mem_ownerShards.mp
            ((List.mem_insertionSort _).mp (List.mem_of_mem_head? hcandidate))
          refine ⟨rfl, shard, hget, hns, hmig, howner,
            ⟨mem_members.mpr hs, mem_members.mpr ht, hne, ?_, ?_⟩, ?_, ?_⟩
          · exact fun o ho => hmost o (mem_members.mp ho)
          · exact fun o ho => hleast o (mem_members.mp ho)
          · exact not_le.mp htwo
          · exact not_le.mp hmore

theorem mem_recommendRebalance :
    r ∈ recommendRebalance store ↔ ∃ ns ∈ namespaces store, recommendFor store ns = some r :=
  List.mem_filterMap

theorem justified_of_mem (h : r ∈ recommendRebalance store) : ∃ shard, Justified store r shard := by
  obtain ⟨ns, -, hr⟩ := mem_recommendRebalance.mp h
  exact (recommendFor_eq_some hr).2

/-! ## Following a recommendation -/

theorem members_put (s : Shard) : members (store.put s) = members store := rfl

theorem members_applied : members (r.applied store) = members store := by
  unfold Recommendation.applied
  split
  · rfl
  · exact members_put _

theorem Justified.applied_eq {shard : Shard} (h : Justified store r shard) :
    r.applied store = store.put (ShardMigrationManager.moveShard shard r.recommendedTarget) := by
  simp only [Recommendation.applied, h.found]

/-- The shard that is moved is the one found under its id. -/
theorem Justified.get_moved {shard : Shard} (h : Justified store r shard) :
    store.live.shards.get? (ShardMigrationManager.moveShard shard r.recommendedTarget).id =
      some shard := by
  have hid : shard.id = r.shardId := store.live.shards_keyed _ _ h.found
  show store.live.shards.get? shard.id = some shard
  rw [hid]
  exact h.found

/-- The counts of the namespace change as by one unit moved, and those of the others do not. -/
theorem Justified.count_applied {shard : Shard} (h : Justified store r shard) (ns owner : String) :
    count (r.applied store) ns owner =
      if ns = r.ns then moved (count store r.ns) r.currentOwner r.recommendedTarget owner
        else count store ns owner := by
  obtain ⟨before, after, hold, hnew⟩ := Dict.values_set_of_some h.get_moved
  have hall : store.all = before ++ shard :: after := hold
  have hall' : (r.applied store).all = before ++ ShardMigrationManager.moveShard shard
      r.recommendedTarget :: after := by
    rw [h.applied_eq]
    exact hnew
  have hpos : 0 < count store r.ns r.currentOwner := by have := h.two; omega
  have hne := h.extremes.ne
  have hcount : counted ns owner shard = decide (ns = r.ns ∧ owner = r.currentOwner) := by
    simp only [counted, h.ns, h.migratable, h.owner, true_and]
    exact decide_eq_decide.mpr (and_congr eq_comm eq_comm)
  have hcount' : counted ns owner (ShardMigrationManager.moveShard shard r.recommendedTarget) =
      decide (ns = r.ns ∧ owner = r.recommendedTarget) := by
    simp only [counted, ShardMigrationManager.moveShard, h.ns, h.migratable, true_and]
    exact decide_eq_decide.mpr (and_congr eq_comm eq_comm)
  have hbefore : count store ns owner =
      before.countP (counted ns owner) + after.countP (counted ns owner) +
        if ns = r.ns ∧ owner = r.currentOwner then 1 else 0 := by
    rw [count_eq_countP, hall, List.countP_append, List.countP_cons, hcount]
    simp only [decide_eq_true_eq]
    omega
  have hafter : count (r.applied store) ns owner =
      before.countP (counted ns owner) + after.countP (counted ns owner) +
        if ns = r.ns ∧ owner = r.recommendedTarget then 1 else 0 := by
    rw [count_eq_countP, hall', List.countP_append, List.countP_cons, hcount']
    simp only [decide_eq_true_eq]
    omega
  by_cases hns : ns = r.ns
  · subst hns
    simp only [true_and] at hbefore hafter
    simp only [↓reduceIte, moved]
    by_cases hsource : owner = r.currentOwner
    · subst hsource
      simp only [↓reduceIte, Ne.symm hne] at hbefore hafter ⊢
      omega
    · by_cases htarget : owner = r.recommendedTarget
      · subst htarget
        simp only [↓reduceIte, hsource] at hbefore hafter ⊢
        omega
      · simp only [hsource, htarget, ↓reduceIte] at hbefore hafter ⊢
        omega
  · simp only [hns, false_and, ↓reduceIte] at hbefore hafter ⊢
    omega

theorem Justified.total_applied {shard : Shard} (h : Justified store r shard) (ns : String) :
    total (r.applied store) ns = total store ns := by
  unfold total
  rw [members_applied]
  simp only [h.count_applied]
  split
  · rename_i hns
    subst hns
    exact sum_moved_eq h.extremes.source h.extremes.target h.extremes.ne (by have := h.two; omega)
  · rfl

theorem Justified.sumSquares_applied {shard : Shard} (h : Justified store r shard) (ns : String) :
    sumSquares (r.applied store) ns = if ns = r.ns then
      ∑ o ∈ members store, moved (count store r.ns) r.currentOwner r.recommendedTarget o ^ 2
        else sumSquares store ns := by
  unfold sumSquares
  rw [members_applied]
  simp only [h.count_applied]
  split <;> rfl

/-- Following a recommendation makes the distribution more even exactly if the two members differ
by two shards or more. -/
theorem Justified.sumSquares_lt_iff {shard : Shard} (h : Justified store r shard) :
    sumSquares (r.applied store) r.ns < sumSquares store r.ns ↔
      count store r.ns r.recommendedTarget + 2 ≤ count store r.ns r.currentOwner := by
  rw [h.sumSquares_applied, if_pos rfl]
  exact sum_sq_moved_lt_iff h.extremes.source h.extremes.target h.extremes.ne
    (by have := h.two; omega)

/-! ## Following them all -/

/-- The namespace can be spread evenly over the members. -/
def Evens (store : InMemoryEtcd) (ns : String) : Prop :=
  Spreads (total store ns) (members store).card

/-- Members that differ by one shard only are not met where the shards can be spread. -/
theorem Justified.two_of_evens {shard : Shard} (h : Justified store r shard)
    (he : Evens store r.ns) :
    count store r.ns r.recommendedTarget + 2 ≤ count store r.ns r.currentOwner := by
  by_contra hlt
  have hmore := h.more
  exact not_spreads_of_one h.extremes (by omega) h.two he

theorem exists_mem_of_total_pos (store : InMemoryEtcd) (ns : String) (h : 0 < total store ns) :
    ∃ o ∈ known store, 0 < count store ns o := by
  by_contra hnone
  push Not at hnone
  have : total store ns = 0 := Finset.sum_eq_zero fun o ho => by
    have := hnone o (mem_members.mp ho)
    omega
  omega

/-- Where the shards of a namespace cannot be spread, there is a recommendation for it. -/
theorem exists_recommendation (h : ¬ Evens store ns) :
    ∃ r ∈ recommendRebalance store, r.ns = ns := by
  have hspread := h
  simp only [Evens, Spreads, not_or, not_le] at hspread
  obtain ⟨hcard, htotal, -⟩ := hspread
  obtain ⟨o, ho, hpos⟩ := exists_mem_of_total_pos store ns (by omega)
  obtain ⟨source, hsource⟩ : ∃ source, sourceOwner store ns = some source :=
    Option.ne_none_iff_exists'.mp fun hnone =>
      absurd (List.argmin_eq_none.mp hnone) (List.ne_nil_of_mem (mem_owners.mpr ⟨ho, hpos⟩))
  obtain ⟨hs, hspos, hmost⟩ := sourceOwner_most hsource
  obtain ⟨other, hother, hne⟩ := Finset.exists_mem_ne hcard source
  obtain ⟨target, htarget⟩ : ∃ target, Rebalance.target store ns source = some target :=
    Option.ne_none_iff_exists'.mp fun hnone =>
      absurd (List.argmin_eq_none.mp hnone)
        (List.ne_nil_of_mem (List.mem_filter.mpr ⟨mem_members.mp hother, decide_eq_true hne⟩))
  obtain ⟨ht, htne, hleast⟩ := target_least htarget
  have hextremes : Extremes (members store) (count store ns) source target :=
    ⟨mem_members.mpr hs, mem_members.mpr ht, htne, fun o ho => hmost o (mem_members.mp ho),
      fun o ho => hleast o (mem_members.mp ho)⟩
  obtain ⟨htwo, hmore⟩ := exists_more_of_not_spreads hextremes h
  obtain ⟨shard, hshard⟩ := List.length_pos_iff_exists_mem.mp hspos
  obtain ⟨first, hfirst⟩ : ∃ first, candidate store ns source = some first := by
    have hmem := (List.mem_insertionSort fun a b : Shard => a.id ≤ b.id).mpr hshard
    unfold candidate
    cases hsorted : (ownerShards store ns source).insertionSort fun a b => a.id ≤ b.id with
    | nil =>
      rw [hsorted] at hmem
      cases hmem
    | cons first rest => exact ⟨first, rfl⟩
  have hrec : recommendFor store ns = some ⟨ns, first.id, source, target,
      reason store ns source target⟩ := by
    simp only [recommendFor, hsource, htarget, if_neg (show ¬ count store ns source ≤ 1 by omega),
      if_neg (show ¬ count store ns source ≤ count store ns target by omega),
        hfirst, Option.map_some]
  obtain ⟨hget, hns, -⟩ := mem_ownerShards.mp hshard
  have hmem : ns ∈ namespaces store :=
    mem_namespaces.mpr ⟨shard, Dict.mem_values.mpr ⟨_, hget⟩, hns⟩
  exact ⟨_, mem_recommendRebalance.mpr ⟨ns, hmem, hrec⟩, rfl⟩

theorem follow_eq_some :
    Recommendation.follow store r = some t ↔
      r ∈ recommendRebalance store ∧ t = r.applied store := by
  unfold Recommendation.follow
  split
  · rename_i h
    simp [h, eq_comm]
  · rename_i h
    simp [h]

/-- Neither the members nor what they hold together changes. -/
theorem evens_follow (h : Recommendation.follow store r = some t) (ns : String) :
    Evens t ns ↔ Evens store ns := by
  obtain ⟨hr, rfl⟩ := follow_eq_some.mp h
  obtain ⟨shard, hj⟩ := justified_of_mem hr
  rw [Evens, Evens, hj.total_applied, members_applied]

theorem evens_run {rs : List Recommendation} (h : run Recommendation.follow store rs = some t)
    (ns : String) :
    Evens t ns ↔ Evens store ns := by
  induction rs generalizing store with
  | nil =>
    cases h
    exact Iff.rfl
  | cons r rs ih =>
    obtain ⟨u, hu, hrun⟩ := run_cons_eq_some.mp h
    exact (ih hrun).trans (evens_follow hu ns)

/-- What is left to be evened out, over all namespaces. -/
def unevenness (store : InMemoryEtcd) : Nat :=
  ∑ ns ∈ (namespaces store).toFinset, sumSquares store ns

/-- A shard stays in its namespace. -/
theorem Justified.namespaces_applied {shard : Shard} (h : Justified store r shard) :
    (namespaces (r.applied store)).toFinset = (namespaces store).toFinset := by
  have hns : (r.applied store).all.map Shard.ns = store.all.map Shard.ns := by
    rw [h.applied_eq]
    exact Dict.map_values_set h.get_moved rfl
  rw [namespaces, namespaces, hns]

theorem Justified.mem_namespaces {shard : Shard} (h : Justified store r shard) :
    r.ns ∈ namespaces store :=
  Rebalance.mem_namespaces.mpr ⟨shard, Dict.mem_values.mpr ⟨_, h.found⟩, h.ns⟩

theorem unevenness_follow (h : Recommendation.follow store r = some t) (he : ∀ ns, Evens store ns) :
    unevenness t < unevenness store := by
  obtain ⟨hr, rfl⟩ := follow_eq_some.mp h
  obtain ⟨shard, hj⟩ := justified_of_mem hr
  have hlt := hj.sumSquares_lt_iff.mpr (hj.two_of_evens (he r.ns))
  rw [unevenness, hj.namespaces_applied]
  refine Finset.sum_lt_sum (fun ns _ => ?_) ⟨r.ns, List.mem_toFinset.mpr hj.mem_namespaces, hlt⟩
  by_cases hns : ns = r.ns
  · subst hns
    exact hlt.le
  · rw [hj.sumSquares_applied, if_neg hns]

/-- A run of recommendations that are followed is no longer than what there is to be evened out. -/
theorem length_le_unevenness {rs : List Recommendation}
    (h : run Recommendation.follow store rs = some t) (he : ∀ ns, Evens store ns) :
    rs.length ≤ unevenness store := by
  induction rs generalizing store with
  | nil => exact Nat.zero_le _
  | cons r rs ih =>
    obtain ⟨u, hu, hrun⟩ := run_cons_eq_some.mp h
    have hlt := unevenness_follow hu he
    have := ih hrun fun ns => (evens_follow hu ns).mpr (he ns)
    rw [List.length_cons]
    omega

/-- Where a namespace cannot be spread, there are runs of any length. -/
theorem exists_run_of_not_evens (h : ¬ Evens store ns) (n : Nat) :
    ∃ rs t, run Recommendation.follow store rs = some t ∧ rs.length = n := by
  induction n generalizing store with
  | zero => exact ⟨[], store, rfl, rfl⟩
  | succ n ih =>
    obtain ⟨r, hr, -⟩ := exists_recommendation h
    have hfollow : Recommendation.follow store r = some (r.applied store) :=
      follow_eq_some.mpr ⟨hr, rfl⟩
    obtain ⟨rs, t, hrun, hlen⟩ := ih (mt (evens_follow hfollow ns).mp h)
    exact ⟨r :: rs, t, run_cons_eq_some.mpr ⟨_, hfollow, hrun⟩, by rw [List.length_cons, hlen]⟩

/-- Every recommendation, wherever following them leads, makes the distribution more even, and they
can be followed for a number of times only. -/
def Terminates (store : InMemoryEtcd) : Prop :=
  (∀ rs t, run Recommendation.follow store rs = some t →
    ∀ r ∈ recommendRebalance t, sumSquares (r.applied t) r.ns < sumSquares t r.ns) ∧
  ∃ n, ∀ rs t, run Recommendation.follow store rs = some t → rs.length ≤ n

/-- Following recommendations terminates exactly where every namespace can be spread evenly. -/
theorem rebalance_terminates_iff (store : InMemoryEtcd) :
    Terminates store ↔ ∀ ns, Evens store ns := by
  constructor
  · rintro ⟨-, n, hn⟩ ns
    by_contra hns
    obtain ⟨rs, t, hrun, hlen⟩ := exists_run_of_not_evens hns (n + 1)
    have := hn rs t hrun
    omega
  · intro he
    refine ⟨fun rs t hrun r hr => ?_, unevenness store, fun rs t hrun =>
      length_le_unevenness hrun he⟩
    obtain ⟨shard, hj⟩ := justified_of_mem hr
    exact hj.sumSquares_lt_iff.mpr (hj.two_of_evens ((evens_run hrun r.ns).mpr (he r.ns)))

/-! Two shards on one of two members, and one on the other. -/

private def twoMembers : EtcdData :=
  { (∅ : EtcdData) with
    nodes := ((∅ : Dict String ClusterNode).set "n0" ⟨"n0", "c", .active, 2⟩).set "n1"
      ⟨"n1", "c", .active, 2⟩ }

private def shardOn (id node : String) : Shard := ⟨id, "ns", node, .active, 0, 10, [], 1⟩

private def twoAndOne : InMemoryEtcd :=
  ⟨((twoMembers.setShard (shardOn "a" "n0")).setShard (shardOn "b" "n0")).setShard
    (shardOn "c" "n1"), none⟩

/-- The shard that is moved first is moved back, and so on. -/
theorem rebalance_swings :
    (∃ r ∈ recommendRebalance twoAndOne,
      ¬ sumSquares (r.applied twoAndOne) r.ns < sumSquares twoAndOne r.ns) ∧
    ¬ Terminates twoAndOne := by
  have hswings : ∃ r ∈ recommendRebalance twoAndOne,
      ¬ sumSquares (r.applied twoAndOne) r.ns < sumSquares twoAndOne r.ns := by
    decide +kernel
  refine ⟨hswings, fun h => ?_⟩
  obtain ⟨r, hr, hnot⟩ := hswings
  exact hnot (h.1 [] twoAndOne rfl r hr)

end Rebalance

end Vsector.Sharding
