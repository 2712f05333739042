import Vsector.Framework.Layers
import Vsector.Impl.Storage.Recovery

/-!
# What a segment store serves

A segment store whose files are readable (`Reads`) serves the memtable, then
its tables, newest first (`get_eq`). Flushing the memtable under a new name
changes nothing it serves (`flush_ok`), and neither does a new store over the
same files, where their names sort in the order they were written
(`Sorted.init`).
-/

namespace Vsector.Storage

open Framework Models

/-- The text of a record's id. -/
abbrev idOf (r : VectorRecord) : String := r.id.text

variable {X : Externals}

/-- What of a store is served for an id: the memtable's record, else that of the newest table. -/
def served (s : SegmentStore) (tables : List (List VectorRecord)) (id : String) :
    Option VectorRecord :=
  (s.memtable.get id).or (Layers.newest idOf tables id)

/-- The tables of a store can be read, `tables` being their records, the newest first. -/
structure Reads (X : Externals) (s : SegmentStore) (tables : List (List VectorRecord)) : Prop where
  scan : List.Forall₂ (fun t records => s.scan X t = .ok records) s.sstables.reverse tables
  nodup : ∀ records ∈ tables, (records.map idOf).Nodup
  files : ∀ t ∈ s.sstables, (s.file t).isSome
  keyed : ∀ id r, s.memtable.data.get? id = some r → idOf r = id

namespace Reads

variable {s : SegmentStore} {tables : List (List VectorRecord)}

theorem get_eq (h : Reads X s tables) (id : String) : s.get X id = .ok (served s tables id) := by
  have ht : ∀ {ts tables}, List.Forall₂ (fun t records => s.scan X t = .ok records) ts tables →
      s.getTables X id ts = .ok (Layers.newest idOf tables id) := by
    intro ts tables h
    induction h with
    | nil => rfl
    | @cons t records ts tables hs _ ih =>
      simp only [SegmentStore.getTables, hs, Layers.newest]
      cases hf : records.find? fun r => r.id.text = id with
      | some r => rw [show Layers.find idOf records id = some r from hf]; rfl
      | none => rw [show Layers.find idOf records id = none from hf]; exact ih
  rw [SegmentStore.get, served]
  cases s.memtable.get id with
  | some v => rfl
  | none => exact ht h.scan

/-- `durable_records_by_id` finds what the newest table has. -/
theorem durable_eq (h : Reads X s tables) : ∃ d, s.durableRecordsById X = .ok d ∧
    (∀ id, d.get? id = Layers.newest idOf tables id) ∧ ∀ id r, d.get? id = some r →
      idOf r = id := by
  have hd : ∀ {ts tables}, List.Forall₂ (fun t records => s.scan X t = .ok records) ts tables →
      (∀ records ∈ tables, (records.map idOf).Nodup) →
      ∃ d : Dict String VectorRecord,
        ts.reverse.foldlM (fun latest t =>
          (s.scan X t).map (SegmentStore.setRecords latest)) ∅ = .ok d ∧
        (∀ id, d.get? id = Layers.newest idOf tables id) ∧ ∀ id r, d.get? id = some r →
          idOf r = id := by
    intro ts tables h hn
    induction h with
    | nil => exact ⟨∅, rfl, fun _ => rfl, fun _ _ h => by cases h⟩
    | @cons t records ts tables hs _ ih =>
      obtain ⟨d, hd, hget, hkey⟩ := ih fun rs hrs => hn rs (List.mem_cons_of_mem _ hrs)
      refine ⟨Layers.setAll idOf d records, ?_, fun id => ?_, Layers.keyed_setAll hkey records⟩
      · rw [List.reverse_cons, List.foldlM_append, hd]
        simp only [List.foldlM_cons, List.foldlM_nil, hs]
        rfl
      · rw [Layers.get?_setAll (hn records List.mem_cons_self), hget, Layers.newest]
  have := hd h.scan h.nodup
  rwa [List.reverse_reverse] at this

theorem keyed_served (h : Reads X s tables) {id : String} {r : VectorRecord}
    (hr : served s tables id = some r) : idOf r = id := by
  rcases Option.or_eq_some_iff.mp hr with hr | ⟨-, hr⟩
  · exact h.keyed id r hr
  · exact Layers.key_of_newest hr

end Reads

/-! ## The memtable -/

theorem served_put (s : SegmentStore) (tables : List (List VectorRecord)) (r : VectorRecord)
    (id : String) :
    served { s with memtable := s.memtable.put r } tables id =
      if id = idOf r then some r else served s tables id := by
  simp only [served, MemTable.get, MemTable.put, Dict.get?_set]
  split <;> rfl

theorem Reads.put {s : SegmentStore} {tables : List (List VectorRecord)} (h : Reads X s tables)
    (r : VectorRecord) : Reads X { s with memtable := s.memtable.put r } tables where
  scan := h.scan
  nodup := h.nodup
  files := h.files
  keyed id r' hr := by
    simp only [MemTable.put, Dict.get?_set] at hr
    split at hr
    · rename_i hid; cases hr; exact hid.symm
    · exact h.keyed id r' hr

theorem Reads.delete {s : SegmentStore} {tables : List (List VectorRecord)} (h : Reads X s tables)
    (id : String) : Reads X { s with memtable := s.memtable.delete id } tables where
  scan := h.scan
  nodup := h.nodup
  files := h.files
  keyed a r hr := by
    simp only [MemTable.delete, Dict.get?_pop] at hr
    split at hr
    · cases hr
    · exact h.keyed a r hr

theorem served_delete {s : SegmentStore} {tables : List (List VectorRecord)} {id a : String}
    (h : a ≠ id) :
    served { s with memtable := s.memtable.delete id } tables a = served s tables a := by
  simp only [served, MemTable.get, MemTable.delete, Dict.get?_pop_ne _ h]

/-! ## Flushing -/

theorem mem_toOption {α : Type} {x : Except Exc α} {v : α} : v ∈ x.toOption ↔ x = .ok v := by
  cases x with
  | error e => exact ⟨nofun, nofun⟩
  | ok w => exact ⟨fun h => by cases h; rfl, fun h => by cases h; rfl⟩

/-- The memtable can be flushed: its records can be read back, the file is a new one, and nothing
raises. -/
def CanFlush (s : SegmentStore) (env : FlushEnv) : Prop :=
  (∀ r ∈ s.memtable.data.values, r.Finite) ∧ s.hot.get? (sstName env.ts env.pid) = none ∧
  env.fault = none

instance (s : SegmentStore) (env : FlushEnv) : Decidable (CanFlush s env) :=
  inferInstanceAs (Decidable (_ ∧ _ ∧ _))

theorem mapM_dump (hX : X.Lawful) {records : List VectorRecord} (h : ∀ r ∈ records, r.Finite) :
    ((records.map fun r => (some (X.modelDumpJson r) : Text)).mapM fun line =>
      line.bind X.modelValidateJson) =
      some records := by
  induction records with
  | nil => rfl
  | cons r records ih =>
    rw [List.map_cons, List.mapM_cons, ih fun r hr => h r (List.mem_cons_of_mem _ hr)]
    simp [hX.validateJson_dump r (h r List.mem_cons_self)]

theorem scan_congr_file {s s' : SegmentStore} {t u : SSTable} (h : s'.file u = s.file t) :
    s'.scan X u = s.scan X t := by
  simp only [SegmentStore.scan, h]

theorem SegmentStore.getTables_congr {s s' : SegmentStore} (id : String) {ts : List SSTable}
    (h : ∀ t ∈ ts, s'.file t = s.file t) : s'.getTables X id ts = s.getTables X id ts := by
  induction ts with
  | nil => rfl
  | cons t ts ih =>
    obtain ⟨ht, hts⟩ := List.forall_mem_cons.mp h
    rw [getTables, getTables, scan_congr_file ht, ih hts]

/-- The memtable answers for its own ids only. -/
theorem SegmentStore.get_memtable {s : SegmentStore} {m : MemTable} {id : String}
    (h : m.get id = s.memtable.get id) :
    ({ s with memtable := m } : SegmentStore).get X id = s.get X id := by
  have ht : ({ s with memtable := m } : SegmentStore).getTables X id s.sstables.reverse =
      s.getTables X id s.sstables.reverse := getTables_congr id fun _ _ => rfl
  unfold get
  rw [h, ht]

/-- Reading tables only depends on their files. -/
theorem scan_congr {s s' : SegmentStore} {ts : List SSTable} {tables : List (List VectorRecord)}
    (hf : ∀ t ∈ ts, s'.file t = s.file t)
    (h : List.Forall₂ (fun t rs => s.scan X t = .ok rs) ts tables) :
    List.Forall₂ (fun t rs => s'.scan X t = .ok rs) ts tables := by
  induction h with
  | nil => exact .nil
  | @cons t rs ts tables hs _ ih =>
    refine .cons ?_ (ih fun t' h' => hf t' (List.mem_cons_of_mem _ h'))
    rw [← hs]
    simp only [SegmentStore.scan, hf t List.mem_cons_self]

theorem flush_ok (hX : X.Lawful) {s : SegmentStore} {tables : List (List VectorRecord)}
    (h : Reads X s tables) {env : FlushEnv} (hf : s.memtable.count ≠ 0 → CanFlush s env) :
    ∃ s' tables' r, s.flush X env = (s', .ok r) ∧ Reads X s' tables' ∧
      (∀ id, served s' tables' id = served s tables id) ∧
      s'.memtable.flushThreshold = s.memtable.flushThreshold := by
  by_cases hc : s.memtable.count = 0
  · exact ⟨s, tables, none, by rw [SegmentStore.flush, if_pos hc], h, fun _ => rfl, rfl⟩
  · obtain ⟨hfin, hnew, hfault⟩ := hf hc
    let name := sstName env.ts env.pid
    let lines : List Text := s.memtable.data.values.map fun r => some (X.modelDumpJson r)
    let s' : SegmentStore := { s with
      memtable := { s.memtable with data := ∅ }
      hot := s.hot.set name lines
      sstables := s.sstables ++ [⟨.hot, name⟩] }
    have hold : ∀ t ∈ s.sstables, s'.file t = s.file t := by
      intro t ht
      have hft := h.files t ht
      simp only [SegmentStore.file] at hft ⊢
      cases htier : t.tier with
      | cold => rfl
      | hot =>
        simp only [htier] at hft
        exact Dict.get?_set_ne _ _ fun he => by rw [he, hnew] at hft; cases hft
    have hnewfile : s'.file ⟨.hot, name⟩ = some lines := Dict.get?_set_self _ _ _
    have hscan : s'.scan X ⟨.hot, name⟩ = .ok s.memtable.data.values := by
      simp only [SegmentStore.scan, hnewfile]
      rw [mapM_dump hX hfin]
    refine ⟨s', s.memtable.data.values :: tables, some ⟨.hot, name⟩, ?_, ⟨?_, ?_, ?_, ?_⟩,
      fun id => ?_, rfl⟩
    · rw [SegmentStore.flush, if_neg hc]
      simp only [hfault]
      rfl
    · rw [show s'.sstables = s.sstables ++ [⟨.hot, name⟩] from rfl, List.reverse_append]
      exact .cons hscan (scan_congr (fun t ht => hold t (List.mem_reverse.mp ht)) h.scan)
    · intro records hr
      rcases List.mem_cons.mp hr with rfl | hr
      · exact Layers.nodup_values h.keyed
      · exact h.nodup records hr
    · intro t ht
      rcases List.mem_append.mp ht with ht | ht
      · rw [hold t ht]; exact h.files t ht
      · rw [List.mem_singleton.mp ht, hnewfile]; rfl
    · intro id r hr; cases hr
    · rw [served, served, Layers.newest, Layers.find_values h.keyed]
      rfl

/-- A write that may flush the memtable. -/
theorem put_ok (hX : X.Lawful) {s : SegmentStore} {tables : List (List VectorRecord)}
    (h : Reads X s tables) {r : VectorRecord} {env : FlushEnv}
    (hf : (s.memtable.put r).shouldFlush → CanFlush { s with memtable := s.memtable.put r } env) :
    ∃ s' tables', s.put X r env = (s', .ok ()) ∧ Reads X s' tables' ∧
      (∀ id, served s' tables' id = if id = idOf r then some r else served s tables id) ∧
      s'.memtable.flushThreshold = s.memtable.flushThreshold := by
  simp only [SegmentStore.put]
  split
  · rename_i hs
    obtain ⟨s', tables', x, hfl, hr, hserved, ht⟩ := flush_ok hX (h.put r) fun _ => hf hs
    refine ⟨s', tables', by rw [hfl]; rfl, hr, fun id => ?_, ht⟩
    rw [hserved, served_put]
  · exact ⟨_, tables, rfl, h.put r, fun id => served_put s tables r id, rfl⟩

/-! ## Reopening -/

/-- The names of a store's files sort in the order they were written. -/
structure Sorted (s : SegmentStore) : Prop where
  cold : s.cold = ∅
  sstables : s.sstables = s.hot.keys.map (SSTable.mk .hot)
  names : s.hot.keys.Pairwise (· < ·)

/-- The new file's name sorts after those of all others. -/
def NamesLast (s : SegmentStore) (env : FlushEnv) : Prop :=
  ∀ n ∈ s.hot.keys, n < sstName env.ts env.pid

instance (s : SegmentStore) (env : FlushEnv) : Decidable (NamesLast s env) :=
  inferInstanceAs (Decidable (∀ n ∈ s.hot.keys, n < sstName env.ts env.pid))

theorem NamesLast.get? {s : SegmentStore} {env : FlushEnv} (h : NamesLast s env) :
    s.hot.get? (sstName env.ts env.pid) = none := by
  by_contra hn
  exact lt_irrefl _ (h _ (Dict.mem_keys.mpr (Option.isSome_iff_ne_none.mpr hn)))

theorem Sorted.flush {s : SegmentStore} (h : Sorted s) {env : FlushEnv}
    (hn : s.memtable.count ≠ 0 → NamesLast s env ∧ env.fault = none) :
    Sorted (s.flush X env).1 := by
  by_cases hc : s.memtable.count = 0
  · rw [SegmentStore.flush, if_pos hc]; exact h
  · obtain ⟨hn, hfault⟩ := hn hc
    rw [SegmentStore.flush, if_neg hc]
    simp only [hfault]
    have hk := Dict.keys_set_of_none (v := (s.memtable.snapshotAndClear.1.map fun r =>
      (some (X.modelDumpJson r) : Text))) hn.get?
    refine ⟨h.cold, ?_, ?_⟩
    · show s.sstables ++ _ = (Dict.set s.hot _ _).keys.map _
      rw [hk, h.sstables, List.map_append, List.map_singleton]
    · show (Dict.set s.hot _ _).keys.Pairwise _
      rw [hk, List.pairwise_append]
      exact ⟨h.names, List.pairwise_singleton _ _, fun a ha b hb =>
        List.mem_singleton.mp hb ▸ hn a ha⟩

theorem Sorted.put {s : SegmentStore} (h : Sorted s) {r : VectorRecord} {env : FlushEnv}
    (hn : (s.memtable.put r).shouldFlush → NamesLast s env ∧ env.fault = none) :
    Sorted (s.put X r env).1 := by
  have hp : Sorted { s with memtable := s.memtable.put r } := ⟨h.cold, h.sstables, h.names⟩
  simp only [SegmentStore.put]
  split
  · rename_i hs
    exact hp.flush fun _ => hn hs
  · exact hp

/-- A new store over the same files has the same tables. -/
theorem Sorted.init {s : SegmentStore} (h : Sorted s) (threshold : Nat) :
    SegmentStore.init threshold s.hot s.cold = { s with memtable := ⟨threshold, ∅⟩ } := by
  have hs : s.hot.keys.insertionSort (· ≤ ·) = s.hot.keys :=
    List.Pairwise.insertionSort_eq (h.names.imp fun h => le_of_lt h)
  have hc : (Dict.keys (∅ : Dict String (List Text))).insertionSort (· ≤ ·) = [] := rfl
  simp only [SegmentStore.init, hs]
  rw [h.cold, hc, List.map_nil, List.append_nil, ← h.sstables, ← h.cold]

theorem Reads.init {s : SegmentStore} {tables : List (List VectorRecord)} (h : Reads X s tables)
    (threshold : Nat) :
    Reads X { s with memtable := ⟨threshold, ∅⟩ } tables :=
  ⟨h.scan, h.nodup, h.files, fun _ _ h => by cases h⟩

end Vsector.Storage
