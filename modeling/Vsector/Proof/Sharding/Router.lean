import Vsector.Impl.Sharding.Router
import Vsector.Proof.Sharding.Etcd

/-!
# Where records go

Over shards that are all active and owned by the local node (`Local`), a
record is routed to one shard, which depends on the ids of the shards only
(`home`), for writing and for reading (`Local.routeWrite`, `Local.route`). A
change of a vector count changes no routing (`Local.setCount`).
-/

namespace Vsector.Sharding

open Framework Models Cluster

variable {X : Externals}

namespace RendezvousHash

theorem best_mem {key : String} {nodes : List String} {b : Option String} {n : String}
    (h : best X key nodes b = some n) : n ∈ nodes ∨ b = some n := by
  induction nodes generalizing b with
  | nil => exact .inr h
  | cons a nodes ih =>
    cases b with
    | none =>
      rcases ih h with hm | hm
      · exact .inl (List.mem_cons_of_mem _ hm)
      · cases hm; exact .inl List.mem_cons_self
    | some b =>
      rcases ih h with hm | hm
      · exact .inl (List.mem_cons_of_mem _ hm)
      · split at hm
        · cases hm; exact .inl List.mem_cons_self
        · exact .inr hm

theorem best_isSome {key : String} {nodes : List String} {b : Option String}
    (h : nodes ≠ [] ∨ b.isSome) :
    (best X key nodes b).isSome := by
  induction nodes generalizing b with
  | nil => exact h.resolve_left fun h => h rfl
  | cons a nodes ih =>
    cases b with
    | none => exact ih (.inr rfl)
    | some b =>
      refine ih (.inr ?_)
      split <;> rfl

end RendezvousHash

namespace ShardRouter

variable {r : ShardRouter} {ns : String} {node : Option String} {ids : List String}

/-! ## What the gates require -/

section

variable {X : Externals} {recordId : String} {s : Shard}

theorem select_mem (h : r.select X ns recordId = .ok s) : s ∈ r.etcd.listByNamespace ns := by
  unfold select at h
  dsimp only at h
  split at h
  · cases h
  · split at h
    · cases h
    · split at h
      · rename_i t ht
        cases h
        exact (List.mem_filter.mp (List.mem_of_find?_eq_some ht)).1
      · split at h
        · rename_i t ts ht
          cases h
          have hmem : s ∈ (r.etcd.listByNamespace ns).filter fun s => s.id ≠ "" := by
            rw [ht]; exact List.mem_cons_self
          exact (List.mem_filter.mp hmem).1
        · cases h

/-- What `route` requires of the shard it selects. -/
def Readable (r : ShardRouter) (s : Shard) : Prop :=
  s.state.isReadable = true ∧ r.validateOwner s = .ok ()

/-- What `route_write` requires. -/
def Writable (r : ShardRouter) (ns : String) (node : Option String) (s : Shard) : Prop :=
  s.state = .active ∧ r.validateOwner s = .ok () ∧ checkOwner ns s node = .ok ()

theorem route_ok_iff :
    r.route X ns recordId = .ok s ↔ r.select X ns recordId = .ok s ∧ r.Readable s := by
  unfold route Readable
  rcases r.select X ns recordId with exc | t
  · exact ⟨fun h => (by cases h), fun h => (by cases h.1)⟩
  · dsimp only
    constructor
    · intro h
      split at h
      · cases h
      · rename_i hreadable
        rcases hv : r.validateOwner t with exc | ⟨⟩
        · rw [hv] at h
          cases h
        · rw [hv] at h
          cases h
          exact ⟨rfl, not_not.mp hreadable, hv⟩
    · rintro ⟨ht, hreadable, hv⟩
      cases ht
      rw [if_neg (not_not.mpr hreadable), hv]
      rfl

theorem routeWrite_ok_iff :
    r.routeWrite X ns recordId node = .ok s ↔
      r.select X ns recordId = .ok s ∧ r.Writable ns node s := by
  unfold routeWrite Writable
  rcases r.select X ns recordId with exc | t
  · exact ⟨fun h => (by cases h), fun h => (by cases h.1)⟩
  · dsimp only
    constructor
    · intro h
      split at h
      · cases h
      · rename_i hactive
        rcases hv : r.validateOwner t with exc | ⟨⟩
        · rw [hv] at h
          cases h
        · rw [hv] at h
          rcases hc : checkOwner ns t node with exc | ⟨⟩
          · rw [hc] at h
            cases h
          · rw [hc] at h
            cases h
            exact ⟨rfl, not_not.mp hactive, hv, hc⟩
    · rintro ⟨ht, hactive, hv, hc⟩
      cases ht
      rw [if_neg (not_not.mpr hactive), hv]
      dsimp only
      rw [hc]
      rfl

theorem routeWrite_mem (h : r.routeWrite X ns recordId node = .ok s) :
    s ∈ r.etcd.listByNamespace ns :=
  select_mem (routeWrite_ok_iff.mp h).1

theorem writable_eq {shards : List Shard} (h : r.writable ns node = .ok shards) :
    shards = r.etcd.listByNamespace ns := by
  unfold writable at h
  generalize r.etcd.listByNamespace ns = l at h
  induction l generalizing shards with
  | nil => cases h; rfl
  | cons s l ih =>
    rw [List.mapM_cons] at h
    by_cases hs : s.state ≠ .active
    · simp only [if_pos hs] at h
      cases h
    · simp only [if_neg hs] at h
      rcases hc : checkOwner ns s node with e | ⟨⟩
      · rw [hc] at h
        cases h
      · rw [hc] at h
        rcases hl : l.mapM (fun shard => if shard.state ≠ .active then .error (stateError shard)
            else (checkOwner ns shard node).map fun _ => shard) with e | rest
        · rw [hl] at h
          cases h
        · rw [hl] at h
          cases h
          rw [← ih hl]

end

/-! ## The counts of shards -/

section

variable {X : Externals} {r' : ShardRouter} {s : Shard}

/-- `select`, over the shards of a namespace. -/
def selectFrom (X : Externals) (shards : List Shard) (ns recordId : String) : Except Exc Shard :=
  if shards = [] then .error (.keyError s!"no shards for namespace {pyRepr ns}")
  else
    let active := shards.filter fun s => s.id ≠ ""
    match RendezvousHash.getNode X (active.map Shard.id) (shardKey X ns recordId) with
    | .error e => .error e
    | .ok id =>
      match active.find? fun s => s.id = id with
      | some s => .ok s
      | none =>
        match active with
        | s :: _ => .ok s
        | [] => .error (.other "IndexError" "list index out of range")

theorem map_selectFrom (shards : List Shard) (recordId : String) :
    (selectFrom X shards ns recordId).map uncounted = selectFrom X (shards.map uncounted)
      ns recordId := by
  have hids : ((shards.filter fun s => s.id ≠ "").map uncounted).map Shard.id =
      (shards.filter fun s => s.id ≠ "").map Shard.id := List.map_map
  have hactive : (shards.map uncounted).filter (fun s => s.id ≠ "") =
      (shards.filter fun s => s.id ≠ "").map uncounted := List.filter_map
  unfold selectFrom
  by_cases hnil : shards = []
  · rw [if_pos hnil, if_pos (List.map_eq_nil_iff.mpr hnil)]
    rfl
  · rw [if_neg hnil, if_neg (mt List.map_eq_nil_iff.mp hnil)]
    dsimp only
    rw [hactive, hids]
    rcases RendezvousHash.getNode X _ (shardKey X ns recordId) with exc | id
    · rfl
    · generalize (shards.filter fun s => s.id ≠ "") = active
      have hfind : (active.map uncounted).find? (fun s => s.id = id) =
          (active.find? fun s => s.id = id).map uncounted := List.find?_map
      dsimp only
      rw [hfind]
      generalize active.find? (fun s => s.id = id) = found
      rcases found with _ | s
      · rcases active with _ | ⟨s, rest⟩ <;> rfl
      · rfl

/-- Routers that differ in the counts of a namespace's shards. -/
structure SameShards (ns : String) (r r' : ShardRouter) : Prop where
  shards : (r'.etcd.listByNamespace ns).map uncounted = (r.etcd.listByNamespace ns).map uncounted
  nodes : r'.etcd.live.nodes = r.etcd.live.nodes
  membership : r'.membership = r.membership

theorem SameShards.refl (ns : String) (r : ShardRouter) : SameShards ns r r := ⟨rfl, rfl, rfl⟩

theorem SameShards.setCount (h : SameShards ns r r') (hs : s ∈ r'.etcd.listByNamespace ns)
    (n : Nat) :
    SameShards ns r { r' with etcd := r'.etcd.setShard { s with vectorCount := n } } where
  shards := (@InMemoryEtcd.map_setShard _ uncounted _ s { s with vectorCount := n }
    (InMemoryEtcd.mem_listByNamespace.mp hs).1
    rfl rfl ns).trans h.shards
  nodes := h.nodes
  membership := h.membership

theorem SameShards.validateOwner (h : SameShards ns r r') (s : Shard) :
    r'.validateOwner s = r.validateOwner s := by
  unfold ShardRouter.validateOwner ClusterMembershipManager.validateNode InMemoryEtcd.getNode
  rw [h.nodes, h.membership]

theorem SameShards.select (h : SameShards ns r r') (recordId : String) :
    (r'.select X ns recordId).map uncounted = (r.select X ns recordId).map uncounted := by
  show (selectFrom X _ ns recordId).map uncounted = (selectFrom X _ ns recordId).map uncounted
  rw [map_selectFrom, map_selectFrom, h.shards]

/-- No route sees the counts. -/
theorem SameShards.route (h : SameShards ns r r') (recordId : String) :
    (r'.route X ns recordId).map uncounted = (r.route X ns recordId).map uncounted := by
  have hroute : ∀ r : ShardRouter, (r.route X ns recordId).map uncounted =
      ((r.select X ns recordId).map uncounted).bind fun s =>
        if ¬ s.state.isReadable then .error (stateError s)
          else (r.validateOwner s).map fun _ => s := by
    intro r
    unfold ShardRouter.route
    rcases r.select X ns recordId with exc | s
    · rfl
    · show Except.map uncounted (if ¬ s.state.isReadable then _ else _) =
        if ¬ s.state.isReadable then Except.error (stateError s)
          else (r.validateOwner s).map fun _ => uncounted s
      split
      · rfl
      · rcases r.validateOwner s with exc | ⟨⟩ <;> rfl
  rw [hroute, hroute, h.select]
  simp only [h.validateOwner]

theorem SameShards.routeWrite (h : SameShards ns r r') (recordId : String) (node : Option String) :
    (r'.routeWrite X ns recordId node).map uncounted =
      (r.routeWrite X ns recordId node).map uncounted := by
  have hroute : ∀ r : ShardRouter, (r.routeWrite X ns recordId node).map uncounted =
      ((r.select X ns recordId).map uncounted).bind fun s =>
        if s.state ≠ .active then .error (stateError s)
        else (r.validateOwner s).bind fun _ => (checkOwner ns s node).map fun _ => s := by
    intro r
    unfold ShardRouter.routeWrite
    rcases r.select X ns recordId with exc | s
    · rfl
    · show Except.map uncounted (if s.state ≠ .active then _ else _) =
        if s.state ≠ .active then Except.error (stateError s)
        else (r.validateOwner s).bind fun _ => (checkOwner ns s node).map fun _ => uncounted s
      split
      · rfl
      · rcases r.validateOwner s with exc | ⟨⟩
        · rfl
        · show Except.map uncounted ((checkOwner ns s node).map fun _ => s) = _
          rcases checkOwner ns s node with exc | ⟨⟩ <;> rfl
  rw [hroute, hroute, h.select]
  simp only [h.validateOwner]

end

/-! ## Shards of the local node -/

/-- The id of the shard a record goes to. -/
def home (X : Externals) (ids : List String) (ns recordId : String) : String :=
  (RendezvousHash.best X (shardKey X ns recordId) ids none).getD ""

/-- The shards of the namespace, with the ids `ids`, are active and owned by the local node. -/
structure Local (r : ShardRouter) (ns : String) (node : Option String) (ids : List String) :
    Prop where
  ids_eq : (r.etcd.listByNamespace ns).map Shard.id = ids
  ids_ne : ids ≠ []
  named : "" ∉ ids
  active : ∀ s ∈ r.etcd.listByNamespace ns, s.state = .active
  owned : ∀ s ∈ r.etcd.listByNamespace ns, s.nodeId ≠ "" ∧ ∀ n, node = some n → s.nodeId = n
  members : ∀ s ∈ r.etcd.listByNamespace ns, r.validateOwner s = .ok ()

theorem Local.select (h : Local r ns node ids) (recordId : String) :
    ∃ s ∈ r.etcd.listByNamespace ns, r.select X ns recordId = .ok s ∧
      s.id = home X ids ns recordId := by
  have hne : r.etcd.listByNamespace ns ≠ [] := fun he => h.ids_ne (by rw [← h.ids_eq, he]; rfl)
  have hactive : (r.etcd.listByNamespace ns).filter (fun s => s.id ≠ "") =
      r.etcd.listByNamespace ns :=
    List.filter_eq_self.mpr fun s hs => decide_eq_true fun he =>
      h.named (by rw [← h.ids_eq, ← he]; exact List.mem_map_of_mem hs)
  obtain ⟨n, hn⟩ := Option.isSome_iff_exists.mp
    (@RendezvousHash.best_isSome X (shardKey X ns recordId) _ none (.inl h.ids_ne))
  have hmem : n ∈ (r.etcd.listByNamespace ns).map Shard.id := by
    rw [h.ids_eq]
    exact (RendezvousHash.best_mem hn).resolve_right fun h => by cases h
  obtain ⟨s₀, hs₀, hid₀⟩ := List.mem_map.mp hmem
  have hfind : ((r.etcd.listByNamespace ns).find? fun s => s.id = n).isSome :=
    List.find?_isSome.mpr ⟨s₀, hs₀, decide_eq_true hid₀⟩
  obtain ⟨s, hs⟩ := Option.isSome_iff_exists.mp hfind
  refine ⟨s, List.mem_of_find?_eq_some hs, ?_, ?_⟩
  · simp only [ShardRouter.select, if_neg hne, hactive, RendezvousHash.getNode, h.ids_eq, hn, hs]
  · rw [home, hn]
    simpa using List.find?_some hs

theorem Local.requireOwner (h : Local r ns node ids) {s : Shard}
    (hs : s ∈ r.etcd.listByNamespace ns) :
    s.requireOwner = .ok s.nodeId := if_neg (h.owned s hs).1

theorem Local.checkOwner (h : Local r ns node ids) {s : Shard}
    (hs : s ∈ r.etcd.listByNamespace ns) :
    checkOwner ns s node = .ok () := by
  cases node with
  | none => simp only [ShardRouter.checkOwner, h.requireOwner hs]
  | some n => simp [ShardRouter.checkOwner, h.requireOwner hs, (h.owned s hs).2 n rfl]

theorem Local.routeWrite (h : Local r ns node ids) (recordId : String) :
    ∃ s ∈ r.etcd.listByNamespace ns, r.routeWrite X ns recordId node = .ok s ∧
      s.id = home X ids ns recordId := by
  obtain ⟨s, hs, hsel, hid⟩ := h.select (X := X) recordId
  refine ⟨s, hs, ?_, hid⟩
  simp only [ShardRouter.routeWrite, hsel, h.active s hs, ne_eq, not_true_eq_false,
    if_false, h.members s hs, h.checkOwner hs]
  rfl

theorem Local.route (h : Local r ns node ids) (recordId : String) :
    ∃ s ∈ r.etcd.listByNamespace ns, r.route X ns recordId = .ok s ∧
      s.id = home X ids ns recordId := by
  obtain ⟨s, hs, hsel, hid⟩ := h.select (X := X) recordId
  refine ⟨s, hs, ?_, hid⟩
  simp only [ShardRouter.route, hsel, h.active s hs, ShardState.isReadable, h.members s hs]
  rfl

theorem mapM_ok {α β : Type} {f : α → Except Exc β} {g : α → β} {l : List α}
    (h : ∀ a ∈ l, f a = .ok (g a)) :
    l.mapM f = .ok (l.map g) := by
  induction l with
  | nil => rfl
  | cons a l ih =>
    rw [List.mapM_cons, h a List.mem_cons_self, ih fun b hb => h b (List.mem_cons_of_mem _ hb)]
    rfl

theorem mapM_ok_iff {α β ε : Type} {f : α → Except ε β} {l : List α} :
    (∃ bs, l.mapM f = .ok bs) ↔ ∀ a ∈ l, ∃ b, f a = .ok b := by
  induction l with
  | nil => exact iff_of_true ⟨[], rfl⟩ fun a ha => absurd ha List.not_mem_nil
  | cons a l ih =>
    rw [List.forall_mem_cons, ← ih, List.mapM_cons]
    rcases f a with exc | b
    · exact iff_of_false (fun ⟨_, h⟩ => by cases h) fun ⟨⟨_, h⟩, _⟩ => by cases h
    · rcases l.mapM f with exc | bs
      · exact iff_of_false (fun ⟨_, h⟩ => by cases h) fun ⟨_, _, h⟩ => by cases h
      · exact iff_of_true ⟨_, rfl⟩ ⟨⟨b, rfl⟩, bs, rfl⟩

theorem Local.writable (h : Local r ns node ids) :
    r.writable ns node = .ok (r.etcd.listByNamespace ns) := by
  rw [ShardRouter.writable, mapM_ok (g := id), List.map_id]
  intro s hs
  simp only [h.active s hs, ne_eq, not_true_eq_false, if_false, h.checkOwner hs]
  rfl

/-- A change of a vector count. -/
theorem Local.setCount (h : Local r ns node ids) {s : Shard} (hs : s ∈ r.etcd.listByNamespace ns)
    (n : Nat) :
    Local { r with etcd := r.etcd.setShard { s with vectorCount := n } } ns node ids := by
  have hget := (InMemoryEtcd.mem_listByNamespace.mp hs).1
  have hall : ∀ P : Shard → Prop, (∀ a ∈ r.etcd.listByNamespace ns, P a) →
      P { s with vectorCount := n } →
      ∀ a ∈ (r.etcd.setShard { s with vectorCount := n }).listByNamespace ns, P a := by
    intro P hP hn a ha
    rcases InMemoryEtcd.mem_setShard ha with rfl | ⟨-, ha⟩
    · exact hn
    · exact hP a ha
  refine ⟨?_, h.ids_ne, h.named, ?_, ?_, ?_⟩
  · have hids : ((r.etcd.setShard { s with vectorCount := n }).listByNamespace ns).map Shard.id =
        (r.etcd.listByNamespace ns).map Shard.id :=
          @InMemoryEtcd.ids_setShard r.etcd s { s with vectorCount := n } hget rfl ns
    exact hids.trans h.ids_eq
  · exact hall _ h.active (h.active s hs)
  · exact hall (fun s => s.nodeId ≠ "" ∧ ∀ n, node = some n → s.nodeId = n) h.owned (h.owned s hs)
  · exact hall (fun s => r.validateOwner s = .ok ()) h.members (h.members s hs)

end ShardRouter

end Vsector.Sharding
