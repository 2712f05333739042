import Vsector.Impl.Sharding.Etcd

/-!
# The shards of a namespace in the store

Which shards `list_by_namespace` lists, and in what order, after a shard is
put, changed or deleted. An operation on one namespace keeps the lists of the
others (`KeepsOthers`), where the ids it puts are not theirs (`Owned`).
-/

namespace Vsector.Sharding

open Framework

/-- A shard without its vector count, which the file may be behind with. -/
def uncounted (s : Shard) : Shard := { s with vectorCount := 0 }

namespace InMemoryEtcd

section

variable {e : InMemoryEtcd} {m : ShardMigration} {s : Shard} {id : String}

@[simp] theorem get_putMigration : (e.putMigration m).get id = e.get id := rfl
@[simp] theorem get_setMigration : (e.setMigration m).get id = e.get id := rfl

theorem get_setShard : (e.setShard s).get id = if id = s.id then some s else e.get id :=
  Dict.get?_set _ _ _ _

theorem get_put : (e.put s).get id = if id = s.id then some s else e.get id := get_setShard

@[simp] theorem getMigration_setShard : (e.setShard s).getMigration id = e.getMigration id := rfl
@[simp] theorem getMigration_put : (e.put s).getMigration id = e.getMigration id := rfl

theorem getMigration_setMigration :
    (e.setMigration m).getMigration id = if id = m.migrationId then some m else e.getMigration id :=
  Dict.get?_set _ _ _ _

theorem getMigration_putMigration :
    (e.putMigration m).getMigration id = if id = m.migrationId then some m else e.getMigration id :=
  getMigration_setMigration

theorem shard_id (h : e.get id = some s) : s.id = id := e.live.shards_keyed id s h

theorem migration_id (h : e.getMigration id = some m) : m.migrationId = id :=
  e.live.migrations_keyed id m h

end

theorem mem_listByNamespace {e : InMemoryEtcd} {ns : String} {s : Shard} :
    s ∈ e.listByNamespace ns ↔ e.get s.id = some s ∧ s.ns = ns := by
  simp only [listByNamespace, List.mem_filter, Dict.mem_values, decide_eq_true_eq, get]
  refine and_congr_left fun _ => ⟨fun ⟨k, hk⟩ => ?_, fun h => ⟨_, h⟩⟩
  rw [e.live.shards_keyed k s hk]
  exact hk

theorem nodup_ids (e : InMemoryEtcd) (ns : String) :
    ((e.listByNamespace ns).map Shard.id).Nodup := by
  have hkeys : e.live.shards.values.map Shard.id = e.live.shards.keys := by
    rw [Dict.values, Dict.keys, List.map_map]
    exact List.map_congr_left fun p hp => e.live.shards_keyed _ _ (Dict.mem_entries.mp hp)
  have hn : (e.live.shards.values.map Shard.id).Nodup := hkeys ▸ e.live.shards.nodup_keys
  exact hn.sublist (List.filter_sublist.map _)

/-- A change of a shard that keeps its id and namespace is not seen in what it keeps. -/
theorem map_setShard {α : Type} {f : Shard → α} {e : InMemoryEtcd} {s s' : Shard}
    (h : e.get s'.id = some s) (hns : s'.ns = s.ns) (hf : f s' = f s) (ns : String) :
    ((e.setShard s').listByNamespace ns).map f = (e.listByNamespace ns).map f := by
  have hmap : ∀ l : List Shard, (l.filter fun s => s.ns = ns).map f =
      (l.map fun s => if s.ns = ns then some (f s) else none).filterMap id := by
    intro l
    induction l with
    | nil => rfl
    | cons a l ih =>
      by_cases ha : a.ns = ns <;> simp [ha, ih]
  rw [listByNamespace, listByNamespace, hmap, hmap]
  congr 1
  exact Dict.map_values_set h (by rw [hns, hf])

theorem ids_setShard {e : InMemoryEtcd} {s s' : Shard} (h : e.get s'.id = some s)
    (hns : s'.ns = s.ns) (ns : String) :
    ((e.setShard s').listByNamespace ns).map Shard.id = (e.listByNamespace ns).map Shard.id :=
  map_setShard h hns (shard_id h).symm ns

theorem mem_setShard {e : InMemoryEtcd} {s a : Shard} {ns : String}
    (h : a ∈ (e.setShard s).listByNamespace ns) :
    a = s ∨ (a.id ≠ s.id ∧ a ∈ e.listByNamespace ns) := by
  rw [mem_listByNamespace] at h
  have hg : (e.live.shards.set s.id s).get? a.id = some a := h.1
  rw [Dict.get?_set] at hg
  split at hg
  · exact .inl (Option.some.inj hg).symm
  · rename_i hne
    exact .inr ⟨hne, mem_listByNamespace.mpr ⟨hg, h.2⟩⟩

theorem listByNamespace_put {e : InMemoryEtcd} {s : Shard} (h : e.get s.id = none) :
    (e.put s).listByNamespace s.ns = e.listByNamespace s.ns ++ [s] := by
  have hvalues : (e.live.shards.set s.id s).values = e.live.shards.values ++ [s] :=
    Dict.values_set_of_none h
  show (e.live.shards.set s.id s).values.filter _ = _
  have hself : [s].filter (fun t => t.ns = s.ns) = [s] := List.filter_eq_self.mpr fun t ht => by
    rw [List.mem_singleton.mp ht, decide_eq_true_iff]
  rw [hvalues, List.filter_append, hself]
  rfl

theorem listByNamespace_delete (e : InMemoryEtcd) (id ns : String) :
    (e.delete id).listByNamespace ns = (e.listByNamespace ns).filter fun s => s.id ≠ id := by
  have hvalues : (e.live.shards.pop id).values = e.live.shards.values.filter fun s =>
      s.id ≠ id := by
    rw [Dict.values, Dict.values, Dict.pop, List.filter_map]
    congr 1
    refine List.filter_congr fun p hp => ?_
    have hkey : p.2.id = p.1 := e.live.shards_keyed _ _ (Dict.mem_entries.mp hp)
    rw [Function.comp_apply, hkey]
  show (e.live.shards.pop id).values.filter _ = _
  rw [hvalues, List.filter_filter, listByNamespace, List.filter_filter]
  exact List.filter_congr fun s _ => Bool.and_comm _ _

/-! ## The other namespaces -/

variable {e e' e'' : InMemoryEtcd} {ns id : String} {s : Shard}

/-- No shard of another namespace has the id. -/
def Owned (e : InMemoryEtcd) (ns id : String) : Prop := ∀ s, e.get id = some s → s.ns = ns

theorem owned_of_none (h : e.get id = none) : Owned e ns id := fun s hs => by rw [h] at hs; cases hs

theorem owned_of_mem (h : s ∈ e.listByNamespace ns) : Owned e ns s.id := by
  obtain ⟨hs, hns⟩ := mem_listByNamespace.mp h
  intro t ht
  rw [hs] at ht
  cases ht
  exact hns

/-- The store after an operation on a namespace. -/
structure KeepsOthers (ns : String) (e e' : InMemoryEtcd) : Prop where
  list : ∀ n, n ≠ ns → e'.listByNamespace n = e.listByNamespace n
  owned : ∀ id, Owned e ns id → Owned e' ns id
  nodes : e'.live.nodes = e.live.nodes

theorem KeepsOthers.refl (ns : String) (e : InMemoryEtcd) : KeepsOthers ns e e :=
  ⟨fun _ _ => rfl, fun _ h => h, rfl⟩

theorem KeepsOthers.trans (h : KeepsOthers ns e e') (h' : KeepsOthers ns e' e'') :
    KeepsOthers ns e e'' :=
  ⟨fun n hn => (h'.list n hn).trans (h.list n hn), fun id hid => h'.owned id (h.owned id hid),
    h'.nodes.trans h.nodes⟩

theorem keepsOthers_setShard (hs : s.ns = ns) (h : Owned e ns s.id) :
    KeepsOthers ns e (e.setShard s) where
  list n hn := by
    have hne : ∀ t : Shard, t.ns = ns → decide (t.ns = n) = false := fun t ht =>
      decide_eq_false fun he => hn (he.symm.trans ht)
    exact Dict.filter_values_set (hne s hs) fun t ht => hne t (h t ht)
  owned id hid t ht := by
    have hget : (e.live.shards.set s.id s).get? id = some t := ht
    rw [Dict.get?_set] at hget
    split at hget
    · cases hget
      exact hs
    · exact hid t hget
  nodes := rfl

theorem keepsOthers_put (hs : s.ns = ns) (h : Owned e ns s.id) : KeepsOthers ns e (e.put s) :=
  ⟨(keepsOthers_setShard hs h).list, (keepsOthers_setShard hs h).owned, rfl⟩

theorem keepsOthers_delete (h : Owned e ns id) : KeepsOthers ns e (e.delete id) where
  list n hn := Dict.filter_values_pop fun t ht => decide_eq_false fun he =>
    hn (he.symm.trans (h t ht))
  owned a ha t ht := by
    have hget : (e.live.shards.pop id).get? a = some t := ht
    rw [Dict.get?_pop] at hget
    split at hget
    · cases hget
    · exact ha t hget
  nodes := rfl

end InMemoryEtcd

end Vsector.Sharding
