import Vsector.Framework.Keyspace
import Vsector.Framework.Refinement
import Vsector.Impl.Sharding.Etcd3
import Vsector.Proof.Cluster.MembershipHistory
import Vsector.Proof.Models.JsonCompact

/-!
# Two stores, one interface

`InMemoryEtcd` keeps the shards and nodes in two dictionaries, and perhaps in
a file; `Etcd3Store` keeps them as texts in the key space of an etcd, under
two prefixes. What is put is read back but for its `created_at`, which is the
time of the reading then. In that, and in the order of a list, the answers of
the two differ, and in nothing else over any run of calls (`stores_agree`). A
process may be started again at any time, where its store is not only in
memory.
-/

namespace Vsector.Sharding

open Framework Models Cluster

variable {X : Externals} {C : EtcdClient} {e : InMemoryEtcd} {m : InMemoryObjects} {e3 : Etcd3Store}

/-- What is documented of `get_prefix`; the order is left open. -/
def EtcdClient.Lawful (C : EtcdClient) : Prop :=
  ∀ kv p, (C.getPrefix kv p).Perm (valuesUnder p kv)

/-- The shard, as it is made of its text at that time. -/
def Shard.readAt (clock : String → ℚ) (s : Shard) : ShardObject := ⟨s, clock s.id⟩

/-- The object, as it is made of its shard's text at that time. -/
def ShardObject.readAt (clock : String → ℚ) (o : ShardObject) : ShardObject := o.shard.readAt clock

namespace Etcd3Store

theorem prefixes_apart : Apart shardsPrefix nodesPrefix := by decide

theorem loads_shardText (hX : X.FloatReads) (s : Shard) :
    Json.loads X (shardText X s) = some s.toDict := Json.loads_text hX s.toDict_keysNodup

theorem loads_nodeText (hX : X.FloatReads) (n : ClusterNode) :
    Json.loads X (nodeText X n) = some n.toDict := Json.loads_text hX (nodeDict_keysNodup n)

/-- No text of a shard has a creation time. -/
theorem createdAtOf_toDict (now : ℚ) (s : Shard) : createdAtOf now s.toDict = some now := rfl

theorem objectFromDict_toDict (clock : String → ℚ) (s : Shard) :
    objectFromDict clock s.toDict = some (s.readAt clock) := by
  rw [objectFromDict, shardFromDict_toDict, Option.bind_eq_bind, Option.bind_some,
    createdAtOf_toDict]
  rfl

/-! ## Reading -/

section

variable {α β : Type} {toDict : α → Json} {fromDict : Json → Option β} {k : α → β} {p : String}
  {d : Dict String α}

/-- A value that was put is read back. -/
theorem readValue_text
    (hread : ∀ a, Json.loads X (Json.text X .default (toDict a)) = some (toDict a))
    (hfrom : ∀ a, fromDict (toDict a) = some (k a)) (v : Option α) :
    readValue X fromDict (v.map fun a => Json.text X .default (toDict a)) = some (v.map k) := by
  cases v with
  | none => rfl
  | some a =>
    have hne : Json.text X .default (toDict a) ≠ [] := by
      intro h
      have hr := hread a
      rw [h] at hr
      cases hr
    rw [Option.map_some, readValue, if_neg hne, hread, Option.bind_some, hfrom]
    rfl

theorem mapM_map {γ : Type} {f : α → β} {g : β → Option γ} {k : α → γ}
    (h : ∀ a, g (f a) = some (k a)) (l : List α) : (l.map f).mapM g = some (l.map k) := by
  induction l with
  | nil => rfl
  | cons a l ih =>
    rw [List.map_cons, List.mapM_cons, h, ih]
    rfl

/-- What is listed under a prefix is what was put there. -/
theorem listRead_perm (hC : C.Lawful)
    (hread : ∀ a, Json.loads X (Json.text X .default (toDict a)) = some (toDict a))
    (hfrom : ∀ a, fromDict (toDict a) = some (k a))
    (h : HoldsUnder p (fun a => Json.text X .default (toDict a)) e3.kv d) :
    ∃ l : List α, listRead X C fromDict p e3 = some (l.map k) ∧ l.Perm d.values := by
  have hvalues := (hC e3.kv p).trans h.perm_values
  obtain ⟨l, hl, hperm⟩ := (congrFun₂ (List.eq_map_comp_perm _) _ _).mpr hvalues
  refine ⟨l, ?_, hperm⟩
  have hdicts : (C.getPrefix e3.kv p).mapM (Json.loads X) = some (l.map toDict) := by
    rw [hl]
    exact mapM_map hread l
  have hall : (l.map toDict).mapM fromDict = some (l.map k) := mapM_map hfrom l
  rw [listRead, hdicts]
  exact hall

end

end Etcd3Store

/-! ## Runs -/

/-- A call of the process, or a new start of it. Shards are read at the times of `clock`;
`createdAt` is that of the object which is put, where the call puts a shard. -/
inductive StoreEvent where
  | call (call : StoreCall) (createdAt : ℚ) (clock : String → ℚ)
  | restart (clock : String → ℚ)

namespace StoreEvent

def clock : StoreEvent → String → ℚ
  | call _ _ clock => clock
  | restart clock => clock

/-- Where the store has a file, no shard is put with a reserved prefix; a process is only started
again where it has. -/
def Fits (hasPath : Bool) : StoreEvent → Prop
  | call (.put shard) _ _ => hasPath = true → Unreserved shard.id
  | restart _ => hasPath = true
  | _ => True

/-- With the store in memory, which reads its file when it starts; the file has no creation times
either. -/
def inMemory (X : Externals) (times : String → Times) (m : InMemoryObjects) :
    StoreEvent → InMemoryObjects × StoreAnswer
  | call c createdAt _ => m.call createdAt c
  | restart clock => (⟨(reloaded X times m.etcd).getD (.init none), clock⟩, .done)

/-- With the store over etcd. -/
def overEtcd (X : Externals) (C : EtcdClient) (e : Etcd3Store) :
    StoreEvent → Etcd3Store × Option StoreAnswer
  | call c _ clock => (e.after X c, e.answer X C clock c)
  | restart _ => (e, some .done)

end StoreEvent

/-- The same answer, but for the order of a list and the creation times, which are those of the
reading. -/
def StoreAnswer.Agree (clock : String → ℚ) : StoreAnswer → Option StoreAnswer → Prop
  | shard o, a' => a' = some (shard (o.map (ShardObject.readAt clock)))
  | shards l, some (shards l') => l'.Perm (l.map (ShardObject.readAt clock))
  | nodes l, some (nodes l') => l'.Perm l
  | a, a' => a' = some a

/-- The two stores keep the same shards and nodes, and the first has them in its file, where it has
one. -/
structure SameData (X : Externals) (hasPath : Bool) (e : InMemoryEtcd) (e3 : Etcd3Store) :
    Prop where
  shards : HoldsUnder Etcd3Store.shardsPrefix (Etcd3Store.shardText X) e3.kv e.live.shards
  nodes : HoldsUnder Etcd3Store.nodesPrefix (Etcd3Store.nodeText X) e3.kv e.live.nodes
  file : e.file = if hasPath then some e.live else none
  storable : hasPath = true → e.live.Storable

namespace SameData

variable {hasPath : Bool}

/-- Two new stores. -/
theorem init (X : Externals) (hasPath : Bool) :
    SameData X hasPath (.init (if hasPath then some ∅ else none)) ⟨∅⟩ := by
  cases hasPath with
  | true => exact ⟨fun _ => rfl, fun _ => rfl, rfl, fun _ => storable_empty⟩
  | false => exact ⟨fun _ => rfl, fun _ => rfl, rfl, fun h => nomatch h⟩

/-- A mutation of one store, and what it is for the other. -/
theorem mutate (h : SameData X hasPath e e3) (op : MetadataOp) {kv : EtcdKv}
    (hop : hasPath = true → op.Storable)
    (hshards : HoldsUnder Etcd3Store.shardsPrefix (Etcd3Store.shardText X) kv
      (e.live.apply op).shards)
    (hnodes : HoldsUnder Etcd3Store.nodesPrefix (Etcd3Store.nodeText X) kv
      (e.live.apply op).nodes) :
    SameData X hasPath (e.mutate op) ⟨kv⟩ := by
  refine ⟨hshards, hnodes, ?_, fun hp => (h.storable hp).apply (hop hp)⟩
  show e.file.map (fun _ => e.live.apply op) = _
  rw [h.file]
  cases hasPath <;> rfl

theorem reloaded_eq (hX : X.FloatReads) (times : String → Times) (h : SameData X true e e3) :
    Cluster.reloaded X times e = some e := reloaded_self hX times (h.storable rfl) h.file

/-- The stores answer one event alike, and keep the same data. -/
theorem step (hX : X.FloatReads) (hC : C.Lawful) (times : String → Times)
    (h : SameData X hasPath m.etcd e3) (event : StoreEvent) (hfits : event.Fits hasPath) :
    (event.inMemory X times m).2.Agree event.clock (event.overEtcd X C e3).2 ∧
      SameData X hasPath (event.inMemory X times m).1.etcd (event.overEtcd X C e3).1 := by
  have hapart := Etcd3Store.prefixes_apart
  have hlist := fun clock => Etcd3Store.listRead_perm hC (Etcd3Store.loads_shardText hX)
    (Etcd3Store.objectFromDict_toDict clock) h.shards
  obtain ⟨ln, hln, hlnperm⟩ := Etcd3Store.listRead_perm (k := id) hC
    (Etcd3Store.loads_nodeText hX) nodeFromDict_toDict h.nodes
  rw [List.map_id] at hln
  cases event with
  | restart clock =>
    obtain rfl : hasPath = true := hfits
    refine ⟨rfl, ?_⟩
    show SameData X true ((Cluster.reloaded X times m.etcd).getD (.init none)) e3
    rw [h.reloaded_eq hX times]
    exact h
  | call c createdAt clock =>
    cases c with
    | put shard =>
      exact ⟨rfl, h.mutate (.put shard) hfits (h.shards.set shard.id shard)
        (h.nodes.set_apart hapart.symm shard.id (Etcd3Store.shardText X shard))⟩
    | delete shardId =>
      exact ⟨rfl, h.mutate (.delete shardId) (fun _ => trivial) (h.shards.pop shardId)
        (h.nodes.pop_apart hapart.symm shardId)⟩
    | putNode node =>
      exact ⟨rfl, h.mutate (.putNode node) (fun _ => trivial)
        (h.shards.set_apart hapart node.nodeId (Etcd3Store.nodeText X node))
        (h.nodes.set node.nodeId node)⟩
    | deleteNode nodeId =>
      exact ⟨rfl, h.mutate (.deleteNode nodeId) (fun _ => trivial)
        (h.shards.pop_apart hapart nodeId) (h.nodes.pop nodeId)⟩
    | get shardId =>
      refine ⟨?_, h⟩
      have hget := Etcd3Store.readValue_text (Etcd3Store.loads_shardText hX)
        (Etcd3Store.objectFromDict_toDict clock) (m.etcd.live.shards.get? shardId)
      have hkey := h.shards shardId
      show (Etcd3Store.get X clock e3 shardId).map StoreAnswer.shard =
        some (.shard (((m.etcd.live.shards.get? shardId).map m.object).map _))
      rw [Etcd3Store.get, Etcd3Store.key, hkey, Option.map_map]
      exact congrArg (Option.map StoreAnswer.shard) hget
    | getNode nodeId =>
      refine ⟨?_, h⟩
      have hget := Etcd3Store.readValue_text (k := id) (Etcd3Store.loads_nodeText hX)
        nodeFromDict_toDict (m.etcd.live.nodes.get? nodeId)
      have hkey := h.nodes nodeId
      show (Etcd3Store.getNode X e3 nodeId).map StoreAnswer.node =
        some (.node (m.etcd.live.nodes.get? nodeId))
      rw [Etcd3Store.getNode, Etcd3Store.nodeKey, hkey]
      rw [Option.map_id] at hget
      exact congrArg (Option.map StoreAnswer.node) hget
    | all =>
      obtain ⟨ls, hls, hlsperm⟩ := hlist clock
      refine ⟨?_, h⟩
      show StoreAnswer.Agree clock (.shards (m.etcd.live.shards.values.map m.object))
        ((Etcd3Store.allObjects X C clock e3).map StoreAnswer.shards)
      rw [Etcd3Store.allObjects, hls, Option.map_some, StoreAnswer.Agree, List.map_map]
      exact hlsperm.map _
    | listByNamespace ns =>
      obtain ⟨ls, hls, hlsperm⟩ := hlist clock
      refine ⟨?_, h⟩
      show StoreAnswer.Agree clock
        (.shards ((m.etcd.live.shards.values.filter fun s => s.ns = ns).map m.object))
        ((Etcd3Store.objectsByNamespace X C clock e3 ns).map StoreAnswer.shards)
      rw [Etcd3Store.objectsByNamespace, Etcd3Store.allObjects, hls, Option.map_some,
        Option.map_some, StoreAnswer.Agree, List.map_map, List.filter_map]
      exact (hlsperm.filter _).map _
    | listNodes =>
      refine ⟨?_, h⟩
      show StoreAnswer.Agree clock (.nodes m.etcd.live.nodes.values)
        ((Etcd3Store.listNodes X C e3).map StoreAnswer.nodes)
      rw [Etcd3Store.listNodes, hln]
      exact hlnperm

end SameData

/-- Two stores with the same data answer every run of calls and restarts alike, but for the order
of a list and for the creation times, where the store over etcd answers the time of the reading. -/
theorem stores_agree (hX : X.FloatReads) (hC : C.Lawful) (times : String → Times) (hasPath : Bool)
    (events : List StoreEvent) (h : SameData X hasPath m.etcd e3)
    (hfits : ∀ event ∈ events, event.Fits hasPath) :
    (∀ (i : ℕ) (event : StoreEvent) (a : StoreAnswer) (a' : Option StoreAnswer),
        events[i]? = some event → (answers (StoreEvent.inMemory X times) m events)[i]? = some a →
        (answers (StoreEvent.overEtcd X C) e3 events)[i]? = some a' → a.Agree event.clock a') ∧
      SameData X hasPath (afterCalls (StoreEvent.inMemory X times) m events).etcd
        (afterCalls (StoreEvent.overEtcd X C) e3 events) :=
  answers_related (R := fun m e3 => SameData X hasPath m.etcd e3) (C := StoreEvent.Fits hasPath)
    (A := fun event a a' => StoreAnswer.Agree event.clock a a')
    (StoreEvent.inMemory X times) (StoreEvent.overEtcd X C) events
    (fun _ _ event hc hs => hs.step hX hC times event hc) h hfits

/-- An etcd that lists its keys in the order in which they were first put. -/
def listingClient : EtcdClient := ⟨fun kv p => valuesUnder p kv⟩

theorem listingClient_lawful : listingClient.Lawful := fun _ _ => .refl _

section

private def storedShard : Shard :=
  ⟨"docs#shard-000", "docs", "node-0", .active, 12, 50000000000, ["node-1"], 3⟩

/-- A shard of the time 5 is put, and a node; it is got at 8, and listed at 20 after a restart at
15. -/
private def storeEvents : List StoreEvent :=
  [.call (.put storedShard) 5 fun _ => 6,
    .call (.putNode ⟨"node-0", "vsector-cluster-default", .active, 2⟩) 0 fun _ => 7,
    .call (.get "docs#shard-000") 0 fun _ => 8, .restart fun _ => 15,
    .call (.listByNamespace "docs") 0 fun _ => 20]

/-- The shard got is of the time 5 in one store and of 8 in the other, the one listed of 15 and of
20. -/
theorem stores_agree_after_restart :
    let m : InMemoryObjects := ⟨.init (some ∅), fun _ => 0⟩
    let kept := answers (StoreEvent.inMemory readable fun _ => (0, 0)) m storeEvents
    let read := answers (StoreEvent.overEtcd readable listingClient) ⟨∅⟩ storeEvents
    ((∀ (i : ℕ) (event : StoreEvent) (a : StoreAnswer) (a' : Option StoreAnswer),
        storeEvents[i]? = some event → kept[i]? = some a → read[i]? = some a' →
          a.Agree event.clock a') ∧
      SameData readable true
        (afterCalls (StoreEvent.inMemory readable fun _ => (0, 0)) m storeEvents).etcd
        (afterCalls (StoreEvent.overEtcd readable listingClient) ⟨∅⟩ storeEvents)) ∧
      (kept[2]? = some (.shard (some ⟨storedShard, 5⟩)) ∧
        read[2]? = some (some (.shard (some ⟨storedShard, 8⟩)))) ∧
      kept[4]? = some (.shards [⟨storedShard, 15⟩]) ∧
        read[4]? = some (some (.shards [⟨storedShard, 20⟩])) := by
  intro m kept read
  have hfits : ∀ event ∈ storeEvents, event.Fits true := by
    refine List.forall_mem_cons.mpr ⟨fun _ => ⟨by decide, by decide⟩, ?_⟩
    refine List.forall_mem_cons.mpr ⟨trivial, List.forall_mem_cons.mpr ⟨trivial, ?_⟩⟩
    exact List.forall_mem_cons.mpr ⟨rfl, List.forall_mem_cons.mpr ⟨trivial, List.forall_mem_nil _⟩⟩
  refine ⟨stores_agree (m := m) readable_floatReads listingClient_lawful (fun _ => (0, 0)) true
    storeEvents (SameData.init readable true) hfits, ⟨?_, ?_⟩, ?_, ?_⟩
  all_goals decide +kernel

end

end Vsector.Sharding
