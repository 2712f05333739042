import Vsector.Proof.Ingest.IndexMirror
import Vsector.Proof.Ingest.LastWrite

/-!
# The rows of a service's indexes

`FlatIndex.add` appends a row, whatever rows there are. So what the indexes of
a service have of an id is every record of it that was written since it was
deleted last (`versions`), each on the shard that the id is routed to
(`indexed_step`). Where no id is written that is shown already, these are the
records that are shown (`versions_of_fresh`).
-/

namespace Vsector.Ingest

open Framework Models Storage Sharding Index ShardContext IngestService ShardRouter

variable {X : Externals} {ns : String} {settings : Namespace} {ids : List String}

/-! ## Versions -/

/-- Of every id, the records written since it was deleted last. -/
def versions (writes : List (String × Option VectorRecord)) : List VectorRecord :=
  writes.foldl (fun vs w =>
    match w.2 with
    | some v => vs ++ [v]
    | none => vs.filter fun v => idOf v ≠ w.1) []

/-- Records are written under their own ids. -/
def Keyed (writes : List (String × Option VectorRecord)) : Prop :=
  ∀ w ∈ writes, ∀ v, w.2 = some v → w.1 = idOf v

/-- No id is written while a record of it is shown. -/
def Fresh (writes : List (String × Option VectorRecord)) : Prop :=
  ∀ i (h : i < writes.length), writes[i].2.isSome → (lastOf (writes.take i) writes[i].1).isNone

instance (writes : List (String × Option VectorRecord)) : Decidable (Fresh writes) :=
  inferInstanceAs (Decidable (∀ i (h : i < writes.length), writes[i].2.isSome →
    (lastOf (writes.take i) writes[i].1).isNone))

variable {writes : List (String × Option VectorRecord)}

theorem versions_upsert (writes : List (String × Option VectorRecord)) (id : String)
    (v : VectorRecord) :
    versions (writes ++ [(id, some v)]) = versions writes ++ [v] := by
  rw [versions, List.foldl_append]
  rfl

theorem versions_delete (writes : List (String × Option VectorRecord)) (id : String) :
    versions (writes ++ [(id, none)]) = (versions writes).filter fun v => idOf v ≠ id := by
  rw [versions, List.foldl_append]
  rfl

theorem versions_deletions (writes : List (String × Option VectorRecord)) (gone : List String) :
    versions (writes ++ gone.map fun id => (id, none)) = (versions writes).filter fun v =>
      idOf v ∉ gone := by
  induction gone using List.reverseRecOn with
  | nil => simp
  | append_singleton gone id ih =>
    rw [List.map_append, ← List.append_assoc, List.map_singleton, versions_delete, ih,
      List.filter_filter]
    refine List.filter_congr fun v _ => ?_
    simp only [List.mem_append, List.mem_singleton, not_or, ← Bool.decide_and, and_comm]

theorem Keyed.of_append {w : String × Option VectorRecord} (h : Keyed (writes ++ [w])) :
    Keyed writes ∧ ∀ v, w.2 = some v → w.1 = idOf v :=
  ⟨fun w' hw' => h w' (List.mem_append_left _ hw'),
    h w (List.mem_append_right _ List.mem_cons_self)⟩

/-- An id that has versions is shown. -/
theorem lastOf_of_mem_versions (hkeyed : Keyed writes) {v : VectorRecord}
    (hv : v ∈ versions writes) :
    (lastOf writes (idOf v)).isSome := by
  induction writes using List.reverseRecOn with
  | nil => cases hv
  | append_singleton writes w ih =>
    obtain ⟨hk, hw⟩ := hkeyed.of_append
    obtain ⟨id, op⟩ := w
    rw [lastOf_snoc]
    cases op with
    | some v' =>
      split
      · rfl
      · rename_i hne
        rw [versions_upsert, List.mem_append, List.mem_singleton] at hv
        rcases hv with hv | rfl
        · exact ih hk hv
        · exact absurd (hw v rfl).symm hne
    | none =>
      rw [versions_delete, List.mem_filter, decide_eq_true_iff] at hv
      rw [if_neg hv.2]
      exact ih hk hv.1

theorem Fresh.of_append {w : String × Option VectorRecord} (h : Fresh (writes ++ [w])) :
    Fresh writes ∧ (w.2.isSome → lastOf writes w.1 = none) := by
  constructor
  · intro i hi hw
    have hold := h i (by rw [List.length_append]; omega)
    rw [List.getElem_append_left hi, List.take_append_of_le_length hi.le] at hold
    exact hold hw
  · intro hw
    have hlast := h writes.length (by simp)
    rw [List.getElem_concat_length rfl, List.take_left' rfl] at hlast
    exact Option.isNone_iff_eq_none.mp (hlast hw)

/-- Where no id is written that is shown, the versions are the records that are shown. -/
theorem versions_of_fresh (hk : Keyed writes) (hf : Fresh writes) :
    ((versions writes).map idOf).Nodup ∧ ∀ v, v ∈ versions writes ↔
      lastOf writes (idOf v) = some v := by
  induction writes using List.reverseRecOn with
  | nil => exact ⟨List.nodup_nil, fun v => ⟨fun h => absurd h List.not_mem_nil, fun h => nomatch h⟩⟩
  | append_singleton writes w ih =>
    obtain ⟨hk', hw⟩ := hk.of_append
    obtain ⟨hf, hnew⟩ := hf.of_append
    obtain ⟨hnodup, hmem⟩ := ih hk' hf
    obtain ⟨id, op⟩ := w
    cases op with
    | some r =>
      have hid : id = idOf r := hw r rfl
      have hnone : lastOf writes id = none := hnew rfl
      have hold : ∀ v ∈ versions writes, idOf v ≠ id := fun v hv he => by
        have := lastOf_of_mem_versions hk' hv
        rw [he, hnone] at this
        cases this
      refine ⟨?_, fun v => ?_⟩
      · rw [versions_upsert, List.map_append, List.nodup_append]
        refine ⟨hnodup, List.nodup_singleton _, fun a ha b hb he => ?_⟩
        obtain ⟨v, hv, rfl⟩ := List.mem_map.mp ha
        exact hold v hv (he.trans ((List.mem_singleton.mp hb).trans hid.symm))
      · rw [versions_upsert, List.mem_append, List.mem_singleton, hmem, lastOf_snoc]
        by_cases he : idOf v = id
        · rw [if_pos he, he, hnone]
          exact ⟨fun h => h.elim (fun h => nomatch h) fun h =>
            by rw [h], fun h => .inr (Option.some.inj h).symm⟩
        · rw [if_neg he]
          exact ⟨fun h => h.elim (fun h => h) fun h => absurd (h ▸ hid.symm) he, .inl⟩
    | none =>
      refine ⟨?_, fun v => ?_⟩
      · rw [versions_delete]
        exact hnodup.sublist (List.filter_sublist.map _)
      · rw [versions_delete, List.mem_filter, hmem, decide_eq_true_iff, lastOf_snoc]
        by_cases he : idOf v = id
        · rw [if_pos he]
          exact ⟨fun h => absurd he h.2, fun h => nomatch h⟩
        · rw [if_neg he]
          exact ⟨fun h => h.1, fun h => ⟨h, he⟩⟩

/-! ## The indexes of the shards -/

variable {svc svc' : IngestService FlatIndex} {s : Shard} {rows : String → List FlatRow}

/-- Every shard of the namespace has its rows. -/
def HoldsRows (ns : String) (settings : Namespace) (svc : IngestService FlatIndex)
    (rows : String → List FlatRow) : Prop :=
  ∀ s ∈ svc.router.etcd.listByNamespace ns, (svc.ctxAt settings ns s).index.rows = rows s.id

/-- A change of one shard's context and count. -/
theorem HoldsRows.change (h : HoldsRows ns settings svc rows) {ctx : ShardContext FlatIndex}
    {n : Nat} (hset : svc'.settings = svc.settings)
    (hrouter : svc'.router = { svc.router with
      etcd := svc.router.etcd.setShard { s with vectorCount := n } })
    (hctx : svc'.shards.get? (ctxKey ns s.id) = some ctx)
    (hne : ∀ key, key ≠ ctxKey ns s.id → svc'.shards.get? key = svc.shards.get? key) :
    HoldsRows ns settings svc' (Function.update rows s.id ctx.index.rows) := by
  intro a ha
  rw [hrouter] at ha
  rcases InMemoryEtcd.mem_setShard ha with rfl | ⟨hid, ha⟩
  · have hat : svc'.ctxAt settings ns { s with vectorCount := n } = ctx := ctxAt_of_some hctx
    rw [hat]
    exact (Function.update_self s.id ctx.index.rows rows).symm
  · rw [Function.update_of_ne hid, ctxAt_congr (hne _ fun hk => hid (ctxKey_inj.mp hk)) hset]
    exact h a ha

/-- A change of one shard's context only. -/
theorem HoldsRows.changeCtx (h : HoldsRows ns settings svc rows)
    (hs : s ∈ svc.router.etcd.listByNamespace ns) {ctx : ShardContext FlatIndex}
    (hb : SameBase svc svc') (hctx : svc'.shards.get? (ctxKey ns s.id) = some ctx)
    (hne : ∀ key, key ≠ ctxKey ns s.id → svc'.shards.get? key = svc.shards.get? key) :
    HoldsRows ns settings svc' (Function.update rows s.id ctx.index.rows) := by
  have he : svc.router.etcd.setShard { s with vectorCount := s.vectorCount } = svc.router.etcd :=
    setShard_eq_self (InMemoryEtcd.mem_listByNamespace.mp hs).1
  exact h.change (n := s.vectorCount) hb.settings (by rw [hb.router, he]) hctx hne

/-- A change of one shard's context that leaves its index alone. -/
theorem HoldsRows.sameIndex (h : HoldsRows ns settings svc rows)
    (hs : s ∈ svc.router.etcd.listByNamespace ns) {ctx : ShardContext FlatIndex}
    (hb : SameBase svc svc') (hctx : svc'.shards.get? (ctxKey ns s.id) = some ctx)
    (hne : ∀ key, key ≠ ctxKey ns s.id → svc'.shards.get? key = svc.shards.get? key)
    (hrows : ctx.index.rows = (svc.ctxAt settings ns s).index.rows) :
    HoldsRows ns settings svc' rows := by
  have hchange := h.changeCtx hs hb hctx hne
  rwa [hrows, h s hs, Function.update_eq_self] at hchange

/-- Looking up the context of a shard. -/
theorem HoldsRows.getOrCreateCtx {last : String → Option VectorRecord}
    (h : HoldsRows ns settings svc rows) (hserves : Serves X ns settings ids svc last)
    (hs : s ∈ svc.router.etcd.listByNamespace ns) {ctx : ShardContext FlatIndex}
    (hg : svc.getOrCreateCtx X ns s = .ok (svc', ctx)) :
    ctx = svc.ctxAt settings ns s ∧ SameBase svc svc' ∧
    svc'.shards.get? (ctxKey ns s.id) = some ctx ∧
      Serves X ns settings ids svc' last ∧ HoldsRows ns settings svc' rows := by
  obtain ⟨svc₁, hg₁, hb, hctx, hne, hserves⟩ := hserves.getOrCreateCtx hs
  rw [hg] at hg₁
  cases hg₁
  exact ⟨rfl, hb, hctx, hserves, h.sameIndex hs hb hctx hne rfl⟩

/-- The rows that the versions of a history are on a shard. -/
def shardRows (X : Externals) (ns : String) (ids : List String)
    (writes : List (String × Option VectorRecord)) (shardId : String) : List FlatRow :=
  ((versions writes).filter fun v => home X ids ns (idOf v) = shardId).map rowOf

theorem shardRows_upsert (writes : List (String × Option VectorRecord)) (id : String)
    (v : VectorRecord) :
    shardRows X ns ids (writes ++ [(id, some v)]) = Function.update (shardRows X ns ids writes)
      (home X ids ns (idOf v))
      (shardRows X ns ids writes (home X ids ns (idOf v)) ++ [rowOf v]) := by
  funext a
  rw [Function.update_apply, shardRows, versions_upsert, List.filter_append, List.map_append]
  by_cases ha : home X ids ns (idOf v) = a
  · have hone : [v].filter (fun v => home X ids ns (idOf v) = a) = [v] := by simp [ha]
    rw [if_pos ha.symm, ha, hone]
    rfl
  · have hnone : [v].filter (fun v => home X ids ns (idOf v) = a) = [] := by simp [ha]
    rw [if_neg (Ne.symm ha), hnone, List.map_nil, List.append_nil]
    rfl

theorem shardRows_deletions (writes : List (String × Option VectorRecord)) (gone : List String) :
    shardRows X ns ids (writes ++ gone.map fun id => (id, none)) =
      fun a => (shardRows X ns ids writes a).filter fun row => row.id ∉ gone := by
  funext a
  rw [shardRows, versions_deletions, List.filter_filter, shardRows, List.filter_map,
    List.filter_filter]
  refine congrArg _ (List.filter_congr fun v _ => ?_)
  rw [Bool.and_comm]
  rfl

/-- A service that shows what was written, whose indexes have the versions. -/
structure Indexed (X : Externals) (ns : String) (settings : Namespace) (ids : List String)
    (writes : List (String × Option VectorRecord)) (svc : IngestService FlatIndex) : Prop where
  serves : Serves X ns settings ids svc (lastOf writes)
  keyed : Keyed writes
  rows : HoldsRows ns settings svc (shardRows X ns ids writes)

/-! ## upsert -/

theorem rows_applyUpsert {ctx ctx' : ShardContext FlatIndex} {r : VectorRecord} {payload : Text}
    {env : FlushEnv} (h : ctx.applyUpsert X r payload env none = (ctx', .ok ())) :
    ctx'.index.rows = ctx.index.rows ++ [rowOf r] := by
  simp only [ShardContext.applyUpsert, ShardContext.indexRecord, BaseIndex.add, FlatIndex.add] at h
  split at h
  · cases h
  · split at h
    · cases h
    · rename_i hadd
      split at hadd
      · cases hadd
      · rename_i index hindex
        split at hindex
        · cases hindex
          cases hadd
          cases h
          rfl
        · cases hindex

theorem Indexed.upsertRecord (hX : X.Lawful) {st : UpsertState FlatIndex}
    (h : Indexed X ns settings ids writes st.svc) {r : Raw × RecordEnv FlatIndex}
    (hc : RecordOk X ns settings st r) :
    ∃ w, recordWrite X ns settings r = some w ∧
      Indexed X ns settings ids (writes ++ [w]) (upsertRecord X ns settings st r.1 r.2).svc := by
  obtain ⟨w, hw, -, hserves⟩ := h.serves.upsertRecord hX hc
  refine ⟨w, hw, hserves, ?_, ?_⟩
  all_goals
    obtain ⟨v, id, hp, hid, hfin, hindex, hbook, hroute⟩ := hc
    obtain ⟨hw', hd⟩ := recordWrite_eq hX hp hid
    rw [hw] at hw'
    cases hw'
  · intro w' hw' v' hv'
    rcases List.mem_append.mp hw' with hw' | hw'
    · exact h.keyed w' hw' v' hv'
    · cases List.mem_singleton.mp hw'
      cases hv'
      rfl
  · obtain ⟨s, hs, hrw, hhome⟩ := h.serves.routed.routeWrite (X := X) v.id.text
    obtain ⟨hroom, hlater⟩ := hroute s hrw
    obtain ⟨l, ht, -⟩ := h.serves.tracks s hs
    obtain ⟨svc, hg, -⟩ := h.serves.getOrCreateCtx hs
    obtain ⟨-, hb, -, -, hrows⟩ := h.rows.getOrCreateCtx h.serves hs hg
    obtain ⟨ctx, hu, ht'⟩ := ht.upsert hX (some (X.modelDumpJson v)) hfin hd hlater
    have hcount : ctx.shard.vectorCount ≤ s.maxVectors := by
      have := ht'.count_eq
      omega
    have hadd : ctx.index.rows = (st.svc.ctxAt settings ns s).index.rows ++ [rowOf v] :=
      rows_applyUpsert hu
    rw [← hindex] at hu
    obtain ⟨replicator, stats, replications, he⟩ := upsertRecord_eq hp hrw hg hu hbook hcount
    rw [he]
    have hold := h.rows s hs
    rw [shardRows_upsert, show home X ids ns (idOf v) = s.id from hhome.symm, ← hold, ← hadd]
    exact hrows.change rfl rfl (Dict.get?_set_self _ _ _) fun key hk => Dict.get?_set_ne _ _ hk

/-- The records of a batch. -/
theorem Indexed.upsertRecords (hX : X.Lawful) (st : UpsertState FlatIndex)
    (h : Indexed X ns settings ids writes st.svc) {records : List (Raw × RecordEnv FlatIndex)}
    (hc : Along (total fun s (r : Raw × RecordEnv FlatIndex) =>
      IngestService.upsertRecord X ns settings s r.1 r.2) (RecordOk X ns settings) st records) :
    Indexed X ns settings ids (writes ++ records.filterMap (recordWrite X ns settings))
      (records.foldl (fun s r => IngestService.upsertRecord X ns settings s r.1 r.2) st).svc := by
  refine foldl_invariant (I := fun rs (s : UpsertState FlatIndex) =>
    Indexed X ns settings ids (writes ++ rs.filterMap (recordWrite X ns settings)) s.svc) ?_
      (by simpa using h) hc
  intro rs s r hs hr
  obtain ⟨w, hw, hs'⟩ := hs.upsertRecord hX hr
  rw [List.filterMap_append, List.filterMap_cons_some hw, List.filterMap_nil, ← List.append_assoc]
  exact hs'

theorem HoldsRows.flushLogs (h : HoldsRows ns settings svc rows) (touched : PySet String) :
    HoldsRows ns settings (svc.flushLogs touched) rows := by
  obtain ⟨hb, hget⟩ := flushLogs_ok svc touched
  intro s hs
  rw [hb.router] at hs
  rw [← h s hs]
  have hk := hget (ctxKey ns s.id)
  cases hc : svc.shards.get? (ctxKey ns s.id) with
  | none =>
    rw [hc] at hk
    rw [ctxAt_congr (hk.trans hc.symm) hb.settings]
  | some ctx =>
    rw [hc] at hk
    rw [ctxAt_of_some hk, ctxAt_of_some hc]
    split <;> rfl

theorem Indexed.flushLogs (h : Indexed X ns settings ids writes svc) (touched : PySet String) :
    Indexed X ns settings ids writes (svc.flushLogs touched) :=
  ⟨h.serves.flushLogs touched, h.keyed, h.rows.flushLogs touched⟩

theorem Indexed.upsert (hX : X.Lawful) {w : Written} (hr : Reflects X ns settings ids w svc)
    (h : Indexed X ns settings ids w.writes svc) {records : List (Raw × RecordEnv FlatIndex)}
    {key : Option String} {background : String → FlushEnv}
    (hc : ServiceOk X ns settings svc (.upsert records key background))
    (hs : serviceStep X ns svc (.upsert records key background) = some svc') :
    Indexed X ns settings ids (w.next X ns settings (.upsert records key background)).writes
      svc' := by
  cases hseen : (key.filter (· ≠ "")).bind svc.idempotency.get? with
  | some result =>
    obtain ⟨k, hk, hres⟩ := Option.bind_eq_some_iff.mp hseen
    have hmem : k ∈ w.keys := (hr.keys k).mp (by rw [hres]; rfl)
    simp only [serviceStep, IngestService.upsert, hseen] at hs
    cases hs
    simpa only [Written.next, hk, if_pos hmem] using h
  | none =>
    have hrecords := (h.upsertRecords hX ⟨svc, [], [], ∅, []⟩ (hc hseen)).flushLogs
      (records.foldl (fun s r => IngestService.upsertRecord X ns settings s r.1 r.2)
        ⟨svc, [], [], ∅, []⟩).touched
    have hwrites : (w.next X ns settings (.upsert records key background)).writes =
        w.writes ++ records.filterMap (recordWrite X ns settings) := by
      rw [Written.next]
      cases hk : key.filter (· ≠ "") with
      | none => rfl
      | some k =>
        rw [hk] at hseen
        have hmem : k ∉ w.keys := fun hm => by
          have := (hr.keys k).mpr hm
          rw [show svc.idempotency.get? k = none from hseen] at this
          cases this
        simp only [if_neg hmem]
    rcases upsert_cases hseen h.serves.metadata (hrecords.serves.flushIfFull background _) with
      ⟨e, he⟩ | ⟨svc₁, result, he, hsame, -⟩
    · simp only [serviceStep, he] at hs
      cases hs
    · simp only [serviceStep, he] at hs
      cases hs
      rw [hwrites]
      refine ⟨hrecords.serves.congr hsame, hrecords.keyed, fun s hmem => ?_⟩
      rw [hsame.router] at hmem
      rw [ctxAt_congr (by rw [hsame.shards]) hsame.settings]
      exact hrecords.rows s hmem

/-! ## delete -/

/-- The ids deleted on one shard. -/
theorem rows_deleteIds (st : DeleteState FlatIndex) {st' : DeleteState FlatIndex}
    {env : Nat → DeliveryEnv} {gone : List (String × Nat)} {ctx : ShardContext FlatIndex}
    (hctx : st.svc.shards.get? (ctxKey ns s.id) = some ctx)
    (h : forEach (deleteId X ns settings s env) st gone = (st', .ok ())) :
    SameBase st.svc st'.svc ∧ (∀ key, key ≠ ctxKey ns s.id →
      st'.svc.shards.get? key = st.svc.shards.get? key) ∧
      ∃ ctx', st'.svc.shards.get? (ctxKey ns s.id) = some ctx' ∧
        ctx'.index.rows = ctx.index.rows.filter fun row => row.id ∉ gone.map Prod.fst := by
  induction gone generalizing st ctx with
  | nil =>
    cases h
    exact ⟨.refl _, fun _ _ => rfl, ctx, hctx, by simp⟩
  | cons id gone ih =>
    rw [forEach] at h
    cases ha : ctx.applyDelete X id.1 with
    | mk ctx₁ result =>
      cases result with
      | error e =>
        simp only [deleteId, hctx, ha] at h
        cases h
      | ok u =>
        obtain ⟨st₁, hd, hb, hshards⟩ := deleteId_eq settings env hctx ha
        rw [hd] at h
        have hctx₁ : st₁.svc.shards.get? (ctxKey ns s.id) = some ctx₁ := by
          rw [hshards]
          exact Dict.get?_set_self _ _ _
        obtain ⟨hb', hne, ctx', hctx', hrows⟩ := ih st₁ hctx₁ h
        refine ⟨hb.trans hb', fun key hk => ?_, ctx', hctx', ?_⟩
        · rw [hne key hk, hshards]
          exact Dict.get?_set_ne _ _ hk
        · have hone : ctx₁.index.rows = ctx.index.rows.filter fun row => row.id ≠ id.1 := by
            rw [ShardContext.applyDelete] at ha
            split at ha
            · cases ha
            · cases ha
              rfl
          rw [hrows, hone, List.filter_filter]
          refine List.filter_congr fun row _ => ?_
          simp only [List.map_cons, List.mem_cons, not_or, ← Bool.decide_and, and_comm]

/-- The ids deleted on every shard. -/
theorem HoldsRows.deleteShards {st st' : DeleteState FlatIndex}
    {last : String → Option VectorRecord} (h : HoldsRows ns settings st.svc rows)
    (hserves : Serves X ns settings ids st.svc last) {shards : List Shard}
    (hs : ∀ s ∈ shards, s ∈ st.svc.router.etcd.listByNamespace ns) {gone : List String}
    {env : String → Nat → DeliveryEnv}
    (hd : forEach (deleteOnShard X ns settings gone env) st shards = (st', .ok ())) :
    SameBase st.svc st'.svc ∧ HoldsRows ns settings st'.svc fun a =>
      if a ∈ shards.map Shard.id then (rows a).filter fun row => row.id ∉ gone else rows a := by
  induction shards generalizing st rows last with
  | nil =>
    cases hd
    exact ⟨.refl _, by simpa using h⟩
  | cons s shards ih =>
    have hmem := hs s List.mem_cons_self
    obtain ⟨svc₁, hg, -⟩ := hserves.getOrCreateCtx hmem
    obtain ⟨-, hb₁, hctx₁, hserves₁, h₁⟩ := h.getOrCreateCtx hserves hmem hg
    have hmem₁ : s ∈ svc₁.router.etcd.listByNamespace ns := by
      rw [hb₁.router]
      exact hmem
    obtain ⟨st₂, hloop, -, hserves₂⟩ :=
      Serves.deleteIds { st with svc := svc₁ } hserves₁ hmem₁ (by rw [hctx₁]; rfl)
      (env s.id) gone.zipIdx
    obtain ⟨hb₂, hne₂, ctx₂, hctx₂, hrows₂⟩ := rows_deleteIds { st with svc := svc₁ } hctx₁ hloop
    have h₂ := h₁.changeCtx hmem₁ hb₂ hctx₂ hne₂
    rw [forEach, deleteOnShard, hg] at hd
    simp only [hloop] at hd
    obtain ⟨hb₃, h₃⟩ := ih h₂ hserves₂ (fun a ha => by
      rw [hb₂.router, hb₁.router]
      exact hs a (List.mem_cons_of_mem _ ha)) hd
    refine ⟨hb₁.trans (hb₂.trans hb₃), ?_⟩
    rw [hrows₂, h s hmem, List.zipIdx_map_fst] at h₃
    refine fun a ha => (h₃ a ha).trans ?_
    dsimp only
    by_cases he : a.id = s.id
    · rw [he, Function.update_self,
        if_pos (show s.id ∈ (s :: shards).map Shard.id from List.mem_cons_self)]
      split
      · rw [List.filter_filter]
        simp only [Bool.and_self]
      · rfl
    · rw [Function.update_of_ne he, List.map_cons]
      simp only [List.mem_cons, he, false_or]

theorem Indexed.delete {w : Written} (h : Indexed X ns settings ids w.writes svc)
    {gone : List String} {env : String → Nat → DeliveryEnv} (hr : Reflects X ns settings ids w svc)
    (hs : serviceStep X ns svc (.delete gone env) = some svc') :
    Indexed X ns settings ids (w.next X ns settings (.delete gone env : ServiceOp FlatIndex)).writes
      svc' := by
  have hserves := (hr.delete hs).serves
  refine ⟨hserves, ?_, ?_⟩
  · intro w' hw' v hv
    rcases List.mem_append.mp hw' with hw' | hw'
    · exact h.keyed w' hw' v hv
    · obtain ⟨id, -, rfl⟩ := List.mem_map.mp hw'
      cases hv
  · obtain ⟨st, hd, hb, -⟩ := Serves.deleteShards ⟨svc, 0, ∅, []⟩ h.serves (fun _ h => h) gone env
    simp only [serviceStep, IngestService.delete, h.serves.metadata,
      h.serves.routed.writable, hd] at hs
    cases hs
    obtain ⟨-, hrows⟩ := h.rows.deleteShards h.serves (fun _ h => h) hd
    have hall : HoldsRows ns settings st.svc
        (shardRows X ns ids (w.writes ++ gone.map fun id => (id, none))) := by
      intro s hmem
      rw [shardRows_deletions]
      refine (hrows s hmem).trans (if_pos ?_)
      rw [hb.router] at hmem
      exact List.mem_map_of_mem hmem
    exact hall.flushLogs st.touched

/-! ## Runs -/

theorem HoldsRows.fetch {last : String → Option VectorRecord} {wanted : List String}
    {out : List Payload} {end' : IngestService FlatIndex × List Payload}
    (h : HoldsRows ns settings svc rows) (hserves : Serves X ns settings ids svc last)
    (hf : forEach (fetchOne X ns) (svc, out) wanted = (end', .ok ())) :
    HoldsRows ns settings end'.1 rows := by
  induction wanted generalizing svc out with
  | nil =>
    cases hf
    exact h
  | cons id wanted ih =>
    obtain ⟨s, hs, hr, -⟩ := hserves.routed.route (X := X) id
    obtain ⟨svc₁, hg, -⟩ := hserves.getOrCreateCtx hs
    obtain ⟨-, -, -, hserves₁, h₁⟩ := h.getOrCreateCtx hserves hs hg
    obtain ⟨svc₂, hone, -, -⟩ := hserves.fetchOne out id
    have hsame : svc₂ = svc₁ := by
      simp only [IngestService.fetchOne, hr, hg] at hone
      split at hone
      · exact absurd (congrArg Prod.snd hone) (by simp)
      · exact (congrArg (fun p => p.1.1) hone).symm
    rw [forEach, hone, hsame] at hf
    exact ih h₁ hserves₁ hf

theorem Indexed.flush (hX : X.Lawful) {w : Written} (hr : Reflects X ns settings ids w svc)
    (h : Indexed X ns settings ids w.writes svc) {shardId : String} {env : FlushEnv}
    (hc : ServiceOk X ns settings svc (.flush shardId env))
    (hs : serviceStep X ns svc (.flush shardId env) = some svc') :
    Indexed X ns settings ids w.writes svc' := by
  refine ⟨(hr.flush hX hc hs).serves, h.keyed, ?_⟩
  simp only [serviceStep] at hs
  cases hk : svc.shards.get? (ctxKey ns shardId) with
  | none =>
    rw [hk] at hs
    cases hs
    exact h.rows
  | some ctx =>
    obtain ⟨s, hmem, hkey, -⟩ := h.serves.ctx hk
    rw [hk] at hs
    simp only [ShardContext.flushMemtable] at hs
    split at hs
    · rename_i hf
      obtain ⟨rfl, -⟩ := Prod.mk.inj hf
      cases hs
      have hctx : (svc.setCtx (ctxKey ns shardId) { ctx with
          segments := (ctx.segments.flush X env).1 }).shards.get?
          (ctxKey ns s.id) = some { ctx with segments := (ctx.segments.flush X env).1 } := by
        rw [← hkey]
        exact Dict.get?_set_self _ _ _
      refine h.rows.sameIndex hmem ⟨rfl, rfl, rfl, rfl, rfl⟩ hctx ?_ ?_
      · rw [← hkey]
        exact fun key hne => Dict.get?_set_ne _ _ hne
      · rw [ctxAt_of_some (hkey ▸ hk)]
    · cases hs

theorem indexed_step (hX : X.Lawful) {w : Written} (hr : Reflects X ns settings ids w svc)
    (h : Indexed X ns settings ids w.writes svc) {op : ServiceOp FlatIndex}
    (hc : ServiceOk X ns settings svc op) (hs : serviceStep X ns svc op = some svc') :
    Indexed X ns settings ids (w.next X ns settings op).writes svc' := by
  cases op with
  | upsert records key background => exact h.upsert hX hr hc hs
  | delete gone env => exact h.delete hr hs
  | fetch wanted =>
    have hserves := (reflects_step hX hr hc hs).serves
    simp only [serviceStep, IngestService.fetch] at hs
    split at hs
    · rename_i hf
      split at hf
      · cases hf
      · rename_i hloop
        cases hf
        cases hs
        exact ⟨hserves, h.keyed, h.rows.fetch h.serves hloop⟩
    · cases hs
  | flush shardId env => exact h.flush hX hr hc hs

/-- A run from a process without contexts, over active local shards that have no directories yet. -/
theorem indexed_run (hX : X.Lawful) (svc₀ : IngestService FlatIndex)
    (ops : List (ServiceOp FlatIndex)) (hm : svc₀.settings.metadata.get? ns = some settings)
    (hl : svc₀.router.Local ns svc₀.nodeId ids) (hroots : svc₀.roots = ∅)
    (hshards : svc₀.shards = ∅) (hidem : svc₀.idempotency = ∅)
    (hc : Along (serviceStep X ns) (ServiceOk X ns settings) svc₀ ops)
    (hr : run (serviceStep X ns) svc₀ ops = some svc) :
    Indexed X ns settings ids (ops.foldl (Written.next X ns settings) ⟨[], []⟩).writes svc := by
  have hfresh : ∀ s, svc₀.ctxAt settings ns s =
      .fresh s settings svc₀.settings.memtableThreshold := by
    intro s
    rw [ctxAt, hshards]
    rfl
  have hserves : Serves X ns settings ids svc₀ (lastOf []) := by
    refine ⟨hm, hroots, hl, ?_, fun s _ => ⟨fun _ => none, ?_, fun _ _ => rfl⟩⟩
    · rw [hshards]
      exact fun _ h => absurd h Bool.false_ne_true
    · rw [hfresh]
      exact tracks_fresh s settings _
  have h₀ : Reflects X ns settings ids
      (([] : List (ServiceOp FlatIndex)).foldl (Written.next X ns settings) ⟨[], []⟩) svc₀ ∧
      Indexed X ns settings ids (([] : List (ServiceOp FlatIndex)).foldl
        (Written.next X ns settings) ⟨[], []⟩).writes svc₀ := by
    refine ⟨⟨hserves, ?_⟩, hserves, fun w hw => absurd hw List.not_mem_nil, fun s _ => ?_⟩
    · rw [hidem]
      exact fun _ => ⟨fun h => absurd h Bool.false_ne_true, fun h => absurd h List.not_mem_nil⟩
    · rw [hfresh]
      rfl
  exact (invariant_history (I := fun ops svc =>
      Reflects X ns settings ids (ops.foldl (Written.next X ns settings) ⟨[], []⟩) svc ∧
        Indexed X ns settings ids (ops.foldl (Written.next X ns settings) ⟨[], []⟩).writes svc)
    (fun ops svc op svc' h hc hs => by
      rw [List.foldl_append]
      exact ⟨reflects_step hX h.1 hc hs, indexed_step hX h.1 h.2 hc hs⟩) h₀ hc hr).2

end Vsector.Ingest
