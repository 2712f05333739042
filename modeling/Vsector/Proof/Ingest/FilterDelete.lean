import Vsector.Impl.Ingest.DeleteFilter
import Vsector.Proof.Ingest.ShardContext

/-!
# Deletion by filter on one shard

What the loop of `delete` over the scanned records leaves of a context: the
ids of the records that match are hidden, and every match is counted
(`forEach_deleteScanned`, `Shows.filterDeletes`).
-/

namespace Vsector.Ingest

open Framework Models Storage Index Query ShardContext

variable {X : Externals} {ι : Type} [BaseIndex ι]

/-- `delete`'s loop body for a scanned record, on the context of the shard and the number of
records deleted. -/
def ShardContext.deleteScanned (X : Externals) (filter : Filter) (s : ShardContext ι × Nat)
    (rec : VectorRecord) :
    (ShardContext ι × Nat) × Except Exc Unit :=
  match matchesFilter X rec.metadata filter with
  | .error e => (s, .error e)
  | .ok false => (s, .ok ())
  | .ok true => ((s.1.applyFilterDelete rec.id.text, s.2 + 1), .ok ())

/-- `delete`'s block for one shard, on its context. -/
def ShardContext.deleteMatching (X : Externals) (ctx : ShardContext ι) (filter : Filter) :
    (ShardContext ι × Nat) × Except Exc Unit :=
  match ctx.segments.scanAll X with
  | .error e => ((ctx, 0), .error e)
  | .ok records => forEach (deleteScanned X filter) (ctx, 0) records

/-- The records that the filter matches. -/
def matched (X : Externals) (filter : Filter) (records : List VectorRecord) : List VectorRecord :=
  records.filter fun r => (matchesFilter X r.metadata filter).toOption = some true

theorem mem_matched {filter : Filter} {records : List VectorRecord} {r : VectorRecord} :
    r ∈ matched X filter records ↔ r ∈ records ∧ matchesFilter X r.metadata filter = .ok true := by
  rw [matched, List.mem_filter, decide_eq_true_iff]
  refine and_congr_right fun _ => ?_
  rcases matchesFilter X r.metadata filter with e | b
  · refine iff_of_false ?_ ?_ <;> rintro ⟨⟩
  · exact ⟨fun h => congrArg Except.ok (Option.some.inj h),
      fun h => congrArg some (Except.ok.inj h)⟩

/-- A context after `delete` has hidden some ids. -/
def filterDeletes (ctx : ShardContext ι) (ids : List String) : ShardContext ι :=
  ids.foldl applyFilterDelete ctx

theorem forEach_deleteScanned {filter : Filter} {records : List VectorRecord}
    {s t : ShardContext ι × Nat} (h : forEach (deleteScanned X filter) s records = (t, .ok ())) :
    (∀ r ∈ records, ∃ b, matchesFilter X r.metadata filter = .ok b) ∧
      t = (filterDeletes s.1 ((matched X filter records).map idOf),
        s.2 + (matched X filter records).length) := by
  induction records generalizing s with
  | nil =>
    cases h
    exact ⟨fun _ h => absurd h List.not_mem_nil, rfl⟩
  | cons r records ih =>
    rw [forEach, deleteScanned] at h
    rcases hm : matchesFilter X r.metadata filter with e | b
    · rw [hm] at h
      cases h
    · have hb : ∃ b, matchesFilter X r.metadata filter = .ok b := ⟨b, hm⟩
      cases b with
      | false =>
        rw [hm] at h
        obtain ⟨hall, ht⟩ := ih h
        have hskip : matched X filter (r :: records) = matched X filter records :=
          List.filter_cons_of_neg (by rw [hm]; decide)
        exact ⟨List.forall_mem_cons.mpr ⟨hb, hall⟩, by rw [ht, hskip]⟩
      | true =>
        rw [hm] at h
        obtain ⟨hall, ht⟩ := ih h
        have htake : matched X filter (r :: records) = r :: matched X filter records :=
          List.filter_cons_of_pos (by rw [hm]; decide)
        refine ⟨List.forall_mem_cons.mpr ⟨hb, hall⟩, ?_⟩
        rw [ht, htake, List.map_cons, List.length_cons, Nat.add_right_comm]
        rfl

theorem deleteMatching_eq_ok {filter : Filter} {ctx : ShardContext ι} {t : ShardContext ι × Nat}
    (h : ctx.deleteMatching X filter = (t, .ok ())) :
    ∃ records, ctx.segments.scanAll X = .ok records ∧
      (∀ r ∈ records, ∃ b, matchesFilter X r.metadata filter = .ok b) ∧
      t = (filterDeletes ctx ((matched X filter records).map idOf),
        (matched X filter records).length) := by
  unfold deleteMatching at h
  rcases hscan : ctx.segments.scanAll X with e | records
  · rw [hscan] at h
    cases h
  · rw [hscan] at h
    obtain ⟨hall, ht⟩ := forEach_deleteScanned h
    exact ⟨records, rfl, hall, by rw [ht, Nat.zero_add]⟩

/-! ## What is shown -/

variable [LawfulIndex ι] {ctx : ShardContext ι} {last : String → Option Op}

theorem Shows.filterDelete (h : Shows X ctx last) (id : String) :
    Shows X (ctx.applyFilterDelete id) (write last (.delete id)) := by
  obtain ⟨tables, hr, hs⟩ := h.tables
  refine ⟨(LawfulIndex.dimension_delete _ _).trans h.index, tables, hr.delete id, fun a => ?_⟩
  show Shown (served { ctx.segments with memtable := ctx.segments.memtable.delete id } tables a)
    ((ctx.tombstones.add id).has a) _
  rw [write_apply, PySet.has_add, Op.id]
  by_cases ha : a = id
  · simp [ha, Shown]
  · simpa [ha, served_delete ha] using hs a

theorem Shows.filterDeletes (h : Shows X ctx last) (ids : List String) :
    Shows X (filterDeletes ctx ids) fun id => if id ∈ ids then some (.delete id) else last id := by
  induction ids generalizing ctx last with
  | nil => exact h
  | cons a ids ih =>
    have hlast : (fun id => if id ∈ a :: ids then some (.delete id) else last id) =
        fun id => if id ∈ ids then some (.delete id) else write last (.delete a) id := by
      funext id
      rw [write_apply, Op.id]
      by_cases hid : id ∈ ids
      · rw [if_pos hid, if_pos (List.mem_cons_of_mem _ hid)]
      · by_cases ha : id = a
        · rw [if_neg hid, if_pos ha, if_pos (List.mem_cons.mpr (.inl ha)), ha]
        · rw [if_neg hid, if_neg ha, if_neg fun h => (List.mem_cons.mp h).elim ha hid]
    rw [hlast]
    exact ih (h.filterDelete a)

end Vsector.Ingest
