import Vsector.Impl.Sharding.EtcdFile
import Vsector.Impl.Sharding.MetadataOps
import Vsector.Proof.Models.JsonRoundTrip

/-!
# What the metadata store's file says

The file that `_persist` writes is read back as the data it was written from
(`loadText_persistText`), and as no data at all where it is cut short
(`loadText_cut`).
-/

namespace Vsector.Sharding

open Framework Models Json Cluster

/-! ## Records -/

theorem mapM_strs (l : List String) : ((l.map str).mapM fun j => match j with
    | str s => some s
    | _ => none) = some l := by
  induction l with
  | nil => rfl
  | cons s l ih =>
    rw [List.map_cons, List.mapM_cons, ih]
    rfl

theorem shardFromDict_toDict (s : Shard) : shardFromDict s.toDict = some s := by
  obtain ⟨id, ns, nodeId, state, vectorCount, maxVectors, replicas, version⟩ := s
  set v := Shard.toDict ⟨id, ns, nodeId, state, vectorCount, maxVectors, replicas, version⟩ with hv
  have hid : getId v = some id := rfl
  have hns : getStr "" "namespace" v = some ns := rfl
  have howner : getOwner v = some nodeId := ite_self (c := nodeId = "") (some nodeId)
  have hcount : getNat 0 "vector_count" v = some vectorCount := rfl
  have hmax : getNat 50000000000 "max_vectors" v = some maxVectors := rfl
  have hreplicas : getStrs "replicas" v = some replicas := mapM_strs replicas
  have hversion : getNat 1 "version" v = some version := rfl
  have hstate : getState ShardState.ofValue? .active "state" v = state := by cases state <;> rfl
  rw [shardFromDict, if_pos (show v.isObj = true from rfl), hid, hns, howner, hcount, hmax,
    hreplicas, hversion, hstate]
  rfl

theorem nodeFromDict_toDict (n : ClusterNode) : nodeFromDict n.toDict = some n := by
  obtain ⟨nodeId, clusterId, state, version⟩ := n
  cases state <;> rfl

variable {X : Externals}

theorem migrationFromDict_toDict (hX : X.FloatReads) (m : ShardMigration) (times : Times) :
    migrationFromDict X (m.toDict times) = some (m, times) := by
  obtain ⟨migrationId, ns, shardId, sourceNodeId, targetNodeId, state, sourceVersion,
      clusterId, error, version,
    sourceDigest, targetDigest, finalized⟩ := m
  set v := ShardMigration.toDict ⟨migrationId, ns, shardId, sourceNodeId, targetNodeId, state,
    sourceVersion, clusterId, error, version, sourceDigest, targetDigest, finalized⟩ times with hv
  have hid : getStr "" "migration_id" v = some migrationId := rfl
  have hns : getStr "" "namespace" v = some ns := rfl
  have hshard : getStr "" "shard_id" v = some shardId := rfl
  have hsource : getStr "" "source_node_id" v = some sourceNodeId := rfl
  have htarget : getStr "" "target_node_id" v = some targetNodeId := rfl
  have hsourceVersion : getNat 1 "source_version" v = some sourceVersion := rfl
  have hcluster : getStr "vsector-cluster-default" "cluster_id" v = some clusterId := rfl
  have hversion : getNat 1 "version" v = some version := rfl
  have hfinalized : getBool false "finalized" v = some finalized := rfl
  have herror : getStrOrNull "error" v = some error := by cases error <;> rfl
  have hsourceDigest : getStrOrNull "source_digest" v = some sourceDigest := by
    cases sourceDigest <;> rfl
  have htargetDigest : getStrOrNull "target_digest" v = some targetDigest := by
    cases targetDigest <;> rfl
  have hstate : getState MigrationState.ofValue? .pending "state" v = state := by
    cases state <;> rfl
  have hcreated : getTime X "created_at" v = some times.1 := by
    rw [getTime, show (v.get? "created_at").getD (float (.finite 0)) =
      float (.finite times.1) from rfl, hX.self]
  have hupdated : getTime X "updated_at" v = some times.2 := by
    rw [getTime, show (v.get? "updated_at").getD (float (.finite 0)) =
      float (.finite times.2) from rfl, hX.self]
  rw [migrationFromDict, if_pos (show v.isObj = true from rfl), hid, hns, hshard, hsource,
    htarget, hsourceVersion,
    hcluster, hcreated, hupdated, herror, hversion, hsourceDigest, htargetDigest,
      hfinalized, hstate]
  rfl

/-! ## Keys of the records -/

theorem itemsNodup_strs (l : List String) : ItemsNodup (l.map str) := by
  induction l with
  | nil => trivial
  | cons s l ih => exact ⟨trivial, ih⟩

theorem strOrNull_keysNodup (s : Option String) : (strOrNull s).KeysNodup := by
  cases s <;> trivial

theorem fieldsNodup_of_forall {fields : List (String × Json)} (h : ∀ p ∈ fields, p.2.KeysNodup) :
    FieldsNodup fields := by
  induction fields with
  | nil => trivial
  | cons p fields ih =>
    exact ⟨h p List.mem_cons_self, ih fun q hq => h q (List.mem_cons_of_mem _ hq)⟩

theorem Shard.toDict_keysNodup (s : Shard) : s.toDict.KeysNodup := by
  have hkeys : ["id", "namespace", "node_id", "primary_owner", "state", "vector_count",
      "max_vectors", "replicas",
    "version"].Nodup := by decide
  exact ⟨hkeys, trivial, trivial, trivial, trivial, trivial, trivial, trivial,
    itemsNodup_strs s.replicas, trivial, trivial⟩

theorem nodeDict_keysNodup (n : ClusterNode) : n.toDict.KeysNodup := by
  have hkeys : ["node_id", "cluster_id", "membership_state", "version"].Nodup := by decide
  exact ⟨hkeys, trivial, trivial, trivial, trivial, trivial⟩

theorem ShardMigration.toDict_keysNodup (m : ShardMigration) (times : Times) :
    (m.toDict times).KeysNodup := by
  have hkeys : ["migration_id", "namespace", "shard_id", "source_node_id", "target_node_id",
      "state", "source_version",
    "cluster_id", "created_at", "updated_at", "error", "version", "source_digest", "target_digest",
    "finalized"].Nodup := by decide
  exact ⟨hkeys, trivial, trivial, trivial, trivial, trivial, trivial, trivial, trivial,
    trivial, trivial,
    strOrNull_keysNodup _, trivial, strOrNull_keysNodup _, strOrNull_keysNodup _, trivial, trivial⟩

/-! ## Keys -/

theorem stripKey_append (keyPrefix id : String) :
    stripKey keyPrefix (keyPrefix ++ id) = some id := by
  rw [stripKey, String.toList_append, if_pos (List.prefix_append _ _), List.drop_left,
    String.ofList_toList]

theorem stripKey_cluster (id : String) :
    stripKey migrationKeyPrefix (clusterKeyPrefix ++ id) = none := by
  rw [stripKey, String.toList_append, if_neg]
  intro h
  have hhead := (List.cons_prefix_cons.mp h).1
  exact absurd hhead (by decide)

theorem cluster_inj {a b : String} (h : clusterKeyPrefix ++ a = clusterKeyPrefix ++ b) : a = b := by
  have hstrip := congrArg (stripKey clusterKeyPrefix) h
  rw [stripKey_append, stripKey_append] at hstrip
  exact Option.some.inj hstrip

theorem migration_inj {a b : String} (h : migrationKeyPrefix ++ a = migrationKeyPrefix ++ b) :
    a = b := by
  have hstrip := congrArg (stripKey migrationKeyPrefix) h
  rw [stripKey_append, stripKey_append] at hstrip
  exact Option.some.inj hstrip

/-- Whether a shard's id begins with no reserved prefix. -/
def Unreserved (id : String) : Prop :=
  stripKey migrationKeyPrefix id = none ∧ stripKey clusterKeyPrefix id = none

/-- Nodes are kept by their ids, and no shard is kept with a reserved prefix. -/
structure EtcdData.Storable (d : EtcdData) : Prop where
  nodes_keyed : ∀ id n, d.nodes.get? id = some n → n.nodeId = id
  unreserved : ∀ id s, d.shards.get? id = some s → Unreserved id

/-- Whether a shard that a mutation puts has an id without a reserved prefix. -/
def MetadataOp.Storable : MetadataOp → Prop
  | put shard => Unreserved shard.id
  | _ => True

theorem storable_empty : (∅ : EtcdData).Storable :=
  ⟨fun _ _ h => (nomatch h), fun _ _ h => (nomatch h)⟩

theorem EtcdData.Storable.apply {d : EtcdData} (hd : d.Storable) {op : MetadataOp}
    (hop : op.Storable) :
    (d.apply op).Storable := by
  obtain ⟨hnodes, hshards⟩ := hd
  cases op with
  | put shard =>
    refine ⟨hnodes, fun id s h => ?_⟩
    rw [show (d.apply (.put shard)).shards = d.shards.set shard.id shard from rfl,
      Dict.get?_set] at h
    split at h
    · rename_i hid
      rw [hid]
      exact hop
    · exact hshards id s h
  | delete shardId =>
    refine ⟨hnodes, fun id s h => ?_⟩
    rw [show (d.apply (.delete shardId)).shards = d.shards.pop shardId from rfl, Dict.get?_pop] at h
    split at h
    · cases h
    · exact hshards id s h
  | putNode node =>
    refine ⟨fun id n h => ?_, hshards⟩
    rw [show (d.apply (.putNode node)).nodes = d.nodes.set node.nodeId node from rfl,
      Dict.get?_set] at h
    split at h
    · rename_i hid
      cases h
      exact hid.symm
    · exact hnodes id n h
  | deleteNode nodeId =>
    refine ⟨fun id n h => ?_, hshards⟩
    rw [show (d.apply (.deleteNode nodeId)).nodes = d.nodes.pop nodeId from rfl, Dict.get?_pop] at h
    split at h
    · cases h
    · exact hnodes id n h
  | putMigration migration => exact ⟨hnodes, hshards⟩
  | deleteMigration migrationId => exact ⟨hnodes, hshards⟩

/-! ## The document -/

namespace EtcdData

variable (d : EtcdData) (times : String → Times)

def shardFields : List (String × Json) := d.shards.entries.map fun p => (p.1, p.2.toDict)
def nodeFields : List (String × Json) :=
  d.nodes.values.map fun n => (clusterKeyPrefix ++ n.nodeId, n.toDict)

def migrationFields : List (String × Json) :=
  d.migrations.values.map fun m =>
    (migrationKeyPrefix ++ m.migrationId, m.toDict (times m.migrationId))

/-- The data as `_load` would fill it in. -/
def loaded : LoadedData :=
  { shards := d.shards
    nodes := d.nodes
    migrations := ⟨d.migrations.entries.map fun p => (p.1, p.2, times p.1), by
      rw [List.map_map]
      exact d.migrations.nodup⟩ }

variable {d}

theorem nodeIds_eq (hd : d.Storable) : d.nodes.values.map ClusterNode.nodeId = d.nodes.keys := by
  rw [Dict.values, Dict.keys, List.map_map]
  exact List.map_congr_left fun p hp => hd.nodes_keyed p.1 p.2 (Dict.mem_entries.mp hp)

theorem migrationIds_eq :
    d.migrations.values.map ShardMigration.migrationId = d.migrations.keys := by
  rw [Dict.values, Dict.keys, List.map_map]
  exact List.map_congr_left fun p hp => d.migrations_keyed p.1 p.2 (Dict.mem_entries.mp hp)

/-- The keys of the document are distinct. -/
theorem fields_nodup (hd : d.Storable) :
    ((d.shardFields ++ (d.nodeFields ++ d.migrationFields times)).map Prod.fst).Nodup := by
  have hshards : d.shardFields.map Prod.fst = d.shards.keys := by
    rw [shardFields, List.map_map]
    rfl
  have hnodes : d.nodeFields.map Prod.fst = d.nodes.keys.map (clusterKeyPrefix ++ ·) := by
    rw [nodeFields, List.map_map, ← nodeIds_eq hd, List.map_map]
    rfl
  have hmigrations : (d.migrationFields times).map Prod.fst =
      d.migrations.keys.map (migrationKeyPrefix ++ ·) := by
    rw [migrationFields, List.map_map, ← migrationIds_eq, List.map_map]
    rfl
  rw [List.map_append, List.map_append, hshards, hnodes, hmigrations]
  refine List.nodup_append'.mpr ⟨d.shards.nodup, List.nodup_append'.mpr ⟨?_, ?_, ?_⟩, ?_⟩
  · exact d.nodes.nodup.map fun _ _ => cluster_inj
  · exact d.migrations.nodup.map fun _ _ => migration_inj
  · intro k hk hk'
    obtain ⟨a, -, rfl⟩ := List.mem_map.mp hk
    obtain ⟨b, -, hb⟩ := List.mem_map.mp hk'
    have hstrip := stripKey_cluster a
    rw [← hb, stripKey_append] at hstrip
    cases hstrip
  · intro k hk hk'
    obtain ⟨s, hs⟩ := Option.isSome_iff_exists.mp (Dict.mem_keys.mp hk)
    obtain ⟨hmigration, hcluster⟩ := hd.unreserved k s hs
    rcases List.mem_append.mp hk' with hk' | hk'
    · obtain ⟨a, -, rfl⟩ := List.mem_map.mp hk'
      rw [stripKey_append] at hcluster
      cases hcluster
    · obtain ⟨a, -, rfl⟩ := List.mem_map.mp hk'
      rw [stripKey_append] at hmigration
      cases hmigration

/-- No key of the document takes the place of another. -/
theorem persistDict_entries (hd : d.Storable) :
    (d.persistDict times).entries = d.shardFields ++ (d.nodeFields ++ d.migrationFields times) := by
  have hfold : d.persistDict times =
      (d.shardFields ++ (d.nodeFields ++ d.migrationFields times)).foldl
      (fun data p => data.set p.1 p.2) (∅ : Dict String Json) := by
    rw [List.foldl_append, List.foldl_append, shardFields, nodeFields, migrationFields,
      List.foldl_map, List.foldl_map, List.foldl_map]
    rfl
  rw [hfold]
  exact Dict.entries_foldl_set (d := ∅) (fields_nodup times hd)

theorem persistDict_keysNodup (hd : d.Storable) :
    (obj (d.persistDict times).entries).KeysNodup := by
  refine ⟨(d.persistDict times).nodup, fieldsNodup_of_forall fun p hp => ?_⟩
  rw [persistDict_entries times hd] at hp
  rcases List.mem_append.mp hp with hp | hp
  · obtain ⟨q, -, rfl⟩ := List.mem_map.mp hp
    exact q.2.toDict_keysNodup
  · rcases List.mem_append.mp hp with hp | hp
    · obtain ⟨n, -, rfl⟩ := List.mem_map.mp hp
      exact nodeDict_keysNodup n
    · obtain ⟨m, -, rfl⟩ := List.mem_map.mp hp
      exact m.toDict_keysNodup _

end EtcdData

/-! ## Reading it back -/

/-- Entries that are all read, one after the other, each a `step` of what `put` makes the data
of. -/
theorem loadEntries_append {A E : Type} (f : A → String × Json) (put : E → LoadedData)
    (step : E → A → E) (l : List A)
    (h : ∀ a ∈ l, ∀ e, loadEntry X (put e) (f a).1 (f a).2 = some (put (step e a))) (e : E)
    (rest : List (String × Json)) :
    loadEntries X (put e) (l.map f ++ rest) = loadEntries X (put (l.foldl step e)) rest := by
  induction l generalizing e with
  | nil => rfl
  | cons a l ih =>
    rw [List.map_cons, List.cons_append, List.foldl_cons, loadEntries, h a List.mem_cons_self]
    exact ih (fun b hb => h b (List.mem_cons_of_mem _ hb)) _

/-- Binding the bindings of a dictionary again, each under the key `key` makes for it. -/
theorem foldl_set_entries {A V : Type} (l : List A) (key : A → String) (value : A → V)
    (d : Dict String V) (h : l.map (fun a => (key a, value a)) = d.entries) :
    l.foldl (fun e a => e.set (key a) (value a)) (∅ : Dict String V) = d := by
  apply Dict.eq_of_entries
  have hfold : (l.map fun a => (key a, value a)).foldl
      (fun (e : Dict String V) p => e.set p.1 p.2) ∅ =
      l.foldl (fun e a => e.set (key a) (value a)) ∅ := List.foldl_map
  rw [← hfold, h]
  exact Dict.entries_foldl_set (d := ∅) d.nodup

theorem loadEntry_shard {k : String} (hk : Unreserved k) (s : Shard) (data : LoadedData) :
    loadEntry X data k s.toDict = some { data with shards := data.shards.set k s } := by
  rw [loadEntry, hk.1]
  dsimp only
  rw [hk.2]
  dsimp only
  rw [shardFromDict_toDict]
  rfl

theorem loadEntry_node (n : ClusterNode) (data : LoadedData) :
    loadEntry X data (clusterKeyPrefix ++ n.nodeId) n.toDict =
      some { data with nodes := data.nodes.set n.nodeId n } := by
  rw [loadEntry, stripKey_cluster, stripKey_append]
  dsimp only
  rw [nodeFromDict_toDict]
  rfl

theorem loadEntry_migration (hX : X.FloatReads) (m : ShardMigration) (times : Times)
    (data : LoadedData) :
    loadEntry X data (migrationKeyPrefix ++ m.migrationId) (m.toDict times) =
      some { data with migrations := data.migrations.set m.migrationId (m, times) } := by
  rw [loadEntry, stripKey_append]
  dsimp only
  rw [migrationFromDict_toDict hX]
  rfl

/-- The entries of the document fill in the data it was made of. -/
theorem loadEntries_fields (hX : X.FloatReads) {d : EtcdData} (hd : d.Storable)
    (times : String → Times) :
    loadEntries X ∅ (d.shardFields ++ (d.nodeFields ++ (d.migrationFields times ++ []))) =
      d.loaded times := by
  have hshards : d.shards.entries.foldl (fun (e : Dict String Shard) p => e.set p.1 p.2)
      ∅ = d.shards :=
    foldl_set_entries _ _ _ _ (List.map_id _)
  have hnodes : d.nodes.values.foldl (fun (e : Dict String ClusterNode) n => e.set n.nodeId n)
      ∅ = d.nodes := by
    apply foldl_set_entries
    rw [Dict.values, List.map_map]
    refine (List.map_congr_left fun p hp => ?_).trans (List.map_id _)
    exact Prod.ext (hd.nodes_keyed p.1 p.2 (Dict.mem_entries.mp hp)) rfl
  have hmigrations : d.migrations.values.foldl (fun (e : Dict String (ShardMigration × Times)) m =>
      e.set m.migrationId (m, times m.migrationId)) ∅ = (d.loaded times).migrations := by
    apply foldl_set_entries
    rw [Dict.values, List.map_map]
    refine List.map_congr_left fun p hp => ?_
    have hid := d.migrations_keyed p.1 p.2 (Dict.mem_entries.mp hp)
    exact Prod.ext hid (Prod.ext rfl (congrArg times hid))
  calc loadEntries X ∅ (d.shardFields ++ (d.nodeFields ++ (d.migrationFields times ++ [])))
      = loadEntries X ⟨d.shards, ∅, ∅⟩ (d.nodeFields ++ (d.migrationFields times ++ [])) := by
        have h := loadEntries_append (X := X) (fun p : String × Shard => (p.1, p.2.toDict))
          (fun e => ⟨e, ∅, ∅⟩)
          (fun e p => e.set p.1 p.2) d.shards.entries
          (fun p hp e => loadEntry_shard (hd.unreserved p.1 p.2 (Dict.mem_entries.mp hp)) p.2 _) ∅
        rw [hshards] at h
        exact h _
    _ = loadEntries X ⟨d.shards, d.nodes, ∅⟩ (d.migrationFields times ++ []) := by
        have h := loadEntries_append (X := X) (fun n : ClusterNode =>
          (clusterKeyPrefix ++ n.nodeId, n.toDict))
          (fun e => ⟨d.shards, e, ∅⟩) (fun e n => e.set n.nodeId n) d.nodes.values
            (fun n _ e => loadEntry_node n _) ∅
        rw [hnodes] at h
        exact h _
    _ = d.loaded times := by
        have h := loadEntries_append (X := X)
          (fun m : ShardMigration => (migrationKeyPrefix ++ m.migrationId,
            m.toDict (times m.migrationId)))
          (fun e => ⟨d.shards, d.nodes, e⟩)
            (fun e m => e.set m.migrationId (m, times m.migrationId)) d.migrations.values
          (fun m _ e => loadEntry_migration hX m _ _) ∅
        rw [hmigrations] at h
        exact h []

/-- A whole file. -/
theorem loadText_persistText (hX : X.FloatReads) {d : EtcdData} (hd : d.Storable)
    (times : String → Times) :
    loadText X (d.persistText X times) = d.loaded times := by
  rw [loadText, EtcdData.persistText, loads_pretty hX (EtcdData.persistDict_keysNodup times hd)]
  dsimp only
  rw [EtcdData.persistDict_entries times hd, ← loadEntries_fields hX hd times, List.append_nil]

/-- A file cut short. -/
theorem loadText_cut (hX : X.FloatReads) {d : EtcdData} (hd : d.Storable) (times : String → Times)
    {k : Nat} (hk : k < (d.persistText X times).length) :
    loadText X ((d.persistText X times).take k) = ∅ := by
  have hrest : (d.persistText X times).drop k ≠ [] := by
    rw [ne_eq, List.drop_eq_nil_iff]
    omega
  have hcut : loads X ((d.persistText X times).take k) = none :=
    loads_cut hX (EtcdData.persistDict_keysNodup times hd) (List.take_append_drop k _) hrest
  rw [loadText, hcut]

end Vsector.Sharding
