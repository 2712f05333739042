import Vsector.Proof.Ingest.Service

/-!
# What a fetch answers

A fetch opens the contexts of the shards it meets, and counts their records.
Neither changes what is read of the shards (`Opened`), so a fetch is answered
exactly if each of its ids is (`fetch_ok_iff`).
-/

namespace Vsector.Ingest

open Framework Models Storage Sharding Index

variable {ι : Type} [BaseIndex ι] {X : Externals}

namespace ShardContext

/-- What a fetch reads of a context. -/
def content (ctx : ShardContext ι) : SegmentStore × PySet String := (ctx.segments, ctx.tombstones)

theorem content_indexRecord {ctx ctx' : ShardContext ι} (h : ctx'.content = ctx.content)
    (hindex : ctx'.index = ctx.index) (records : List VectorRecord) :
    (records.foldlM indexRecord ctx').map content =
      (records.foldlM indexRecord ctx).map content := by
  induction records generalizing ctx ctx' with
  | nil => exact congrArg Except.ok h
  | cons rec records ih =>
    rw [List.foldlM_cons, List.foldlM_cons]
    unfold indexRecord
    rw [hindex]
    rcases BaseIndex.add ctx.index rec.id.text rec.vector rec.metadata with exc | index
    · rfl
    · exact ih h rfl

theorem content_indexRecords {ctx ctx' : ShardContext ι} {records : List VectorRecord}
    (h : records.foldlM indexRecord ctx = .ok ctx') : ctx'.content = ctx.content := by
  induction records generalizing ctx with
  | nil =>
    cases h
    rfl
  | cons rec records ih =>
    rw [List.foldlM_cons, indexRecord] at h
    rcases hadd : BaseIndex.add ctx.index rec.id.text rec.vector rec.metadata with exc | index
    · rw [hadd] at h
      cases h
    · rw [hadd] at h
      have hrest := ih h
      exact hrest

/-- A context reads the same of its directories for every shard. -/
theorem content_init (s t : Shard) (settings : Namespace) (memtableThreshold : Nat) (root : Root) :
    ((init X s settings memtableThreshold root : Except Exc (ShardContext ι))).map content =
      (init X t settings memtableThreshold root : Except Exc (ShardContext ι)).map content := by
  unfold init
  rcases recover X (.init root.wal)
    (.init memtableThreshold root.hot root.cold) with exc | ⟨wal, segments, recovery⟩
  · rfl
  · dsimp only
    apply content_indexRecord <;> rfl

end ShardContext

namespace IngestService

variable {svc svc' svc'' : IngestService ι} {ns : String} {shard : Shard}

/-- What a fetch reads of a shard. -/
def content (X : Externals) (svc : IngestService ι) (ns : String) (shard : Shard) :
    Except Exc (SegmentStore × PySet String) :=
  (svc.getOrCreateCtx X ns shard).map fun p => p.2.content

theorem content_eq (svc : IngestService ι) (ns : String) (shard : Shard) : svc.content X ns shard =
    match svc.shards.get? (ctxKey ns shard.id) with
    | some ctx => .ok ctx.content
    | none =>
      match svc.settings.metadata.get? ns with
      | none => .error (.valueError s!"namespace {pyRepr ns} not found")
      | some settings =>
        (ShardContext.init X shard settings svc.settings.memtableThreshold
          ((svc.roots.get? shard.id).getD ∅) :
          Except Exc (ShardContext ι)).map ShardContext.content := by
  unfold content getOrCreateCtx
  rcases svc.shards.get? (ctxKey ns shard.id) with _ | ctx
  · rcases svc.settings.metadata.get? ns with _ | settings
    · rfl
    · dsimp only
      rcases (ShardContext.init X shard settings svc.settings.memtableThreshold
        ((svc.roots.get? shard.id).getD ∅) :
        Except Exc (ShardContext ι)) with exc | ctx <;> rfl
  · rfl

theorem content_congr {s t : Shard} (h : s.id = t.id) :
    svc.content X ns s = svc.content X ns t := by
  rw [content_eq, content_eq, h]
  rcases svc.shards.get? (ctxKey ns t.id) with _ | ctx
  · rcases svc.settings.metadata.get? ns with _ | settings
    · rfl
    · exact ShardContext.content_init s t _ _ _
  · rfl

/-- The service after contexts of the namespace have been opened. -/
structure Opened (X : Externals) (ns : String) (svc svc' : IngestService ι) : Prop where
  router : ShardRouter.SameShards ns svc.router svc'.router
  content : ∀ shard, svc'.content X ns shard = svc.content X ns shard

theorem Opened.refl (ns : String) (svc : IngestService ι) : Opened X ns svc svc :=
  ⟨.refl ns _, fun _ => rfl⟩

theorem Opened.getOrCreateCtx (h : Opened X ns svc svc')
    (hs : shard ∈ svc'.router.etcd.listByNamespace ns) {ctx : ShardContext ι}
    (hg : svc'.getOrCreateCtx X ns shard = .ok (svc'', ctx)) : Opened X ns svc svc'' := by
  have hcontent : svc'.content X ns shard = .ok ctx.content := by
    rw [IngestService.content, hg]; rfl
  unfold IngestService.getOrCreateCtx at hg
  split at hg
  · cases hg
    exact h
  · rename_i hnone
    split at hg
    · cases hg
    · rename_i settings hsettings
      split at hg
      · cases hg
      · rename_i made hmade
        cases hg
        refine ⟨h.router.setCount hs _, fun t => Eq.trans ?_ (h.content t)⟩
        by_cases ht : t.id = shard.id
        · have hsame : svc'.content X ns t = svc'.content X ns shard := content_congr ht
          rw [hsame, hcontent, content_eq, ht]
          have hget : ((svc'.setCount shard ctx.shard.vectorCount).setCtx (ctxKey ns shard.id)
              ctx).shards.get?
              (ctxKey ns shard.id) = some ctx := Dict.get?_set_self _ _ _
          rw [hget]
        · have hget : ((svc'.setCount shard ctx.shard.vectorCount).setCtx (ctxKey ns shard.id)
              ctx).shards.get?
              (ctxKey ns t.id) = svc'.shards.get? (ctxKey ns t.id) :=
                Dict.get?_set_ne _ _ (mt ctxKey_inj.mp ht)
          rw [content_eq, content_eq, hget]
          rfl

/-! ## fetch -/

/-- What `fetch` makes of one id. -/
def answer (X : Externals) (svc : IngestService ι) (ns id : String) : Except Exc (Option Payload) :=
  (svc.router.route X ns id).bind fun shard => (svc.getOrCreateCtx X ns shard).bind fun p =>
    p.2.fetch X id

/-- `fetch` is not refused one id. -/
def Answers (X : Externals) (svc : IngestService ι) (ns id : String) : Prop :=
  ∃ p, svc.answer X ns id = .ok p

/-- What is read of an id, whichever way the shard and its context are counted. -/
theorem answer_eq (svc : IngestService ι) (ns id : String) : svc.answer X ns id =
    ((svc.router.route X ns id).map uncounted).bind fun shard =>
      (svc.content X ns shard).bind fun c =>
      match c.1.get X id with
      | .error e => .error e
      | .ok none => .ok none
      | .ok (some rec) => .ok (if c.2.has id then none else some rec.toPayload) := by
  unfold answer
  rcases svc.router.route X ns id with exc | shard
  · rfl
  · show (svc.getOrCreateCtx X ns shard).bind _ = (svc.content X ns (uncounted shard)).bind _
    rw [content_congr (show (uncounted shard).id = shard.id from rfl), content]
    rcases svc.getOrCreateCtx X ns shard with exc | p <;> rfl

theorem Opened.answer (h : Opened X ns svc svc') (id : String) :
    svc'.answer X ns id = svc.answer X ns id := by
  rw [answer_eq, answer_eq, h.router.route]
  simp only [h.content]

/-- One round of the loop, as the answer says. -/
theorem fetchOne_cases (svc : IngestService ι) (ns id : String) (out : List Payload) :
    (∃ p svc', svc.answer X ns id = .ok p ∧ Opened X ns svc svc' ∧
      fetchOne X ns (svc, out) id = ((svc', out ++ p.toList), .ok ())) ∨
    ∃ exc svc', svc.answer X ns id = .error exc ∧
      fetchOne X ns (svc, out) id = ((svc', out), .error exc) := by
  unfold answer fetchOne
  dsimp only
  rcases hroute : svc.router.route X ns id with exc | shard
  · exact .inr ⟨exc, svc, rfl, rfl⟩
  · dsimp only [Except.bind]
    rcases hg : svc.getOrCreateCtx X ns shard with exc | ⟨svc', ctx⟩
    · exact .inr ⟨exc, svc, rfl, rfl⟩
    · dsimp only
      rcases hf : ctx.fetch X id with exc | p
      · exact .inr ⟨exc, svc', rfl, rfl⟩
      · have hmem := ShardRouter.select_mem (ShardRouter.route_ok_iff.mp hroute).1
        exact .inl ⟨p, svc', rfl, (Opened.refl ns svc).getOrCreateCtx hmem hg, rfl⟩

/-- A fetch is answered exactly if each of its ids is, which those before it do not change. -/
theorem fetch_ok_iff (svc : IngestService ι) (ns : String) (ids : List String) :
    (∃ out, (svc.fetch X ns ids).2 = .ok out) ↔ ∀ id ∈ ids, svc.Answers X ns id := by
  have hloop : ∀ (svc : IngestService ι) (out : List Payload),
      (∃ t, forEach (fetchOne X ns) (svc, out) ids = (t, .ok ())) ↔
        ∀ id ∈ ids, svc.Answers X ns id := by
    induction ids with
    | nil => exact fun svc out => ⟨fun _ id hid => absurd hid List.not_mem_nil, fun _ => ⟨_, rfl⟩⟩
    | cons id ids ih =>
      intro svc out
      rw [List.forall_mem_cons, forEach]
      obtain ⟨p, svc', hanswer, hopened, hone⟩ | ⟨exc, svc', hanswer, hone⟩ :=
        fetchOne_cases (X := X) svc ns id out
      · rw [hone]
        have hrest : (∀ id ∈ ids, svc'.Answers X ns id) ↔ ∀ id ∈ ids, svc.Answers X ns id := by
          unfold Answers
          simp only [hopened.answer]
        exact ((ih svc' _).trans hrest).trans (and_iff_right ⟨p, hanswer⟩).symm
      · rw [hone]
        refine iff_of_false ?_ ?_
        · rintro ⟨t, ht⟩
          cases ht
        · rintro ⟨⟨p, hp⟩, -⟩
          rw [hanswer] at hp
          cases hp
  rw [← hloop svc []]
  unfold fetch
  rcases forEach (fetchOne X ns) (svc, []) ids with ⟨⟨svc', out⟩, exc | ⟨⟩⟩
  · refine iff_of_false ?_ ?_ <;> rintro ⟨_, h⟩ <;> cases h
  · exact iff_of_true ⟨out, rfl⟩ ⟨_, rfl⟩

end IngestService

end Vsector.Ingest

