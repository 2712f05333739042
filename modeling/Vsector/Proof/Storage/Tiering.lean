import Vsector.Proof.Storage.FlushNames

/-!
# Tiering and the order of the tables

A store keeps its tables in the order they were written, whichever directory
their files are in; a new store over its directories lists the hot ones first
and the cold ones after them, each sorted by name (`Tiered.init_sstables`).
The two serve the same exactly where no id that a cold file has has a newer
version in a hot one (`reopened_eq_iff`, `ColdLatest`): moving an old table
to the cold directory makes it the newest of the new store
(`tiered_version_resurfaces`).
-/

namespace Vsector.Storage

open Framework Models

variable {X : Externals}

/-! ## Runs -/

inductive TierOp where
  | segment (op : SegmentOp)
  | tierToCold (i : Nat)

def tierStep (X : Externals) (s : SegmentStore) : TierOp → Option SegmentStore
  | .segment op => segmentStep X s op
  | .tierToCold i => some (s.tierToCold i)

/-- The new file's name sorts after those of all tables. -/
def NamesAfter (s : SegmentStore) (env : FlushEnv) : Prop :=
  ∀ t ∈ s.sstables, t.name < sstName env.ts env.pid

instance (s : SegmentStore) (env : FlushEnv) : Decidable (NamesAfter s env) :=
  inferInstanceAs (Decidable (∀ t ∈ s.sstables, t.name < sstName env.ts env.pid))

/-- The condition on an operation: records have finite floats, and a file's name sorts after those
there are. -/
def TierOk (s : SegmentStore) : TierOp → Prop
  | .segment (.put record env) =>
    record.Finite ∧ ((s.memtable.put record).shouldFlush → NamesAfter s env)
  | .segment (.flush env) => s.memtable.count ≠ 0 → NamesAfter s env
  | .tierToCold _ => True

instance (s : SegmentStore) : (op : TierOp) → Decidable (TierOk s op)
  | .segment (.put record env) =>
    inferInstanceAs (Decidable (record.Finite ∧
      ((s.memtable.put record).shouldFlush → NamesAfter s env)))
  | .segment (.flush env) => inferInstanceAs (Decidable (s.memtable.count ≠ 0 → NamesAfter s env))
  | .tierToCold _ => .isTrue trivial

/-! ## Tables by directory -/

/-- The records of a table. -/
def tableOf (X : Externals) (s : SegmentStore) (t : SSTable) : List VectorRecord :=
  (s.scan X t).toOption.getD []

/-- The records of some tables, the newest table first. -/
def tablesOf (X : Externals) (s : SegmentStore) (ts : List SSTable) : List (List VectorRecord) :=
  ts.reverse.map (tableOf X s)

/-- Where a cold file has an id, the latest version of the id is in a cold file. -/
def ColdLatest (X : Externals) (s : SegmentStore) : Prop :=
  ∀ id r, Layers.newest idOf (tablesOf X s (s.sstables.filter (·.tier = .cold))) id = some r →
    Layers.newest idOf (tablesOf X s s.sstables) id = some r

theorem tablesOf_append (s : SegmentStore) (ts ts' : List SSTable) :
    tablesOf X s (ts ++ ts') = tablesOf X s ts' ++ tablesOf X s ts := by
  rw [tablesOf, List.reverse_append, List.map_append]
  rfl

/-! ## The invariant -/

/-- A store whose tables were written in the order of their names, each with its file in its
directory. -/
structure Tiered (X : Externals) (s : SegmentStore) : Prop where
  names : (s.sstables.map SSTable.name).Pairwise (· < ·)
  files : ∀ t, (s.file t).isSome ↔ t ∈ s.sstables
  scan : ∀ t ∈ s.sstables, s.scan X t = .ok (tableOf X s t) ∧ ((tableOf X s t).map idOf).Nodup
  memtable : ∀ id r, s.memtable.data.get? id = some r → idOf r = id ∧ r.Finite

variable {s s' : SegmentStore}

theorem Tiered.reads (h : Tiered X s) : Reads X s (tablesOf X s s.sstables) where
  scan := by
    rw [tablesOf, List.forall₂_map_right_iff, List.forall₂_same]
    exact fun t ht => (h.scan t (List.mem_reverse.mp ht)).1
  nodup records hr := by
    obtain ⟨t, ht, rfl⟩ := List.mem_map.mp hr
    exact (h.scan t (List.mem_reverse.mp ht)).2
  files t ht := (h.files t).mpr ht
  keyed id r hr := (h.memtable id r hr).1

theorem Tiered.nodup (h : Tiered X s) : s.sstables.Nodup :=
  List.Nodup.of_map _ (h.names.imp fun h => ne_of_lt h)

/-- Two tables of one name are one table. -/
theorem Tiered.eq_of_name (h : Tiered X s) {t u : SSTable} (ht : t ∈ s.sstables)
    (hu : u ∈ s.sstables) (hn : t.name = u.name) : t = u :=
  List.inj_on_of_nodup_map (h.names.imp fun h => ne_of_lt h) ht hu hn

theorem tableOf_congr {t u : SSTable} (h : s'.file u = s.file t) :
    tableOf X s' u = tableOf X s t := by
  simp only [tableOf, SegmentStore.scan, h]

/-! ## Steps -/

theorem Tiered.put (h : Tiered X s) {r : VectorRecord} (hr : r.Finite) :
    Tiered X { s with memtable := s.memtable.put r } where
  names := h.names
  files := h.files
  scan := h.scan
  memtable id r' hr' := by
    simp only [MemTable.put, Dict.get?_set] at hr'
    split at hr'
    · rename_i hid; cases hr'; exact ⟨hid.symm, hr⟩
    · exact h.memtable id r' hr'

theorem Tiered.flush (hX : X.Lawful) (h : Tiered X s) {env : FlushEnv} {t : Option SSTable}
    (hn : s.memtable.count ≠ 0 → NamesAfter s env) (hf : s.flush X env = (s', .ok t)) :
    Tiered X s' := by
  rw [SegmentStore.flush] at hf
  split at hf
  · cases hf; exact h
  · rename_i hc
    cases hfault : env.fault with
    | some fault => rw [hfault] at hf; cases hf
    | none =>
      rw [hfault] at hf
      cases hf
      let name := sstName env.ts env.pid
      let lines : List Text := s.memtable.data.values.map fun r => some (X.modelDumpJson r)
      let s₁ : SegmentStore := { s with
        memtable := { s.memtable with data := ∅ }
        hot := s.hot.set name lines
        sstables := s.sstables ++ [⟨.hot, name⟩] }
      show Tiered X s₁
      have hnew : ∀ t ∈ s.sstables, t ≠ ⟨.hot, name⟩ := by
        intro t ht he
        have := hn hc t ht
        rw [he] at this
        exact lt_irrefl _ this
      have hfile : ∀ t, t ≠ ⟨.hot, name⟩ → s₁.file t = s.file t := by
        intro t ht
        obtain ⟨tier, n⟩ := t
        cases tier with
        | cold => rfl
        | hot =>
          have hne : n ≠ name := fun he => ht (congrArg (SSTable.mk .hot) he)
          exact Dict.get?_set_ne _ _ hne
      have hself : s₁.file ⟨.hot, name⟩ = some lines := Dict.get?_set_self _ _ _
      have hfin : ∀ r ∈ s.memtable.data.values, r.Finite := by
        intro r hr
        obtain ⟨id, hid⟩ := Dict.mem_values.mp hr
        exact (h.memtable id r hid).2
      have hscan : s₁.scan X ⟨.hot, name⟩ = .ok s.memtable.data.values := by
        simp only [SegmentStore.scan, hself]
        rw [mapM_dump hX hfin]
      refine ⟨?_, fun t => ?_, fun t ht => ?_, fun id r hr => ?_⟩
      · show ((s.sstables ++ [(⟨.hot, name⟩ : SSTable)]).map SSTable.name).Pairwise _
        rw [List.map_append, List.pairwise_append]
        refine ⟨h.names, List.pairwise_singleton _ _, fun a ha b hb => ?_⟩
        obtain ⟨t, ht, rfl⟩ := List.mem_map.mp ha
        rw [List.mem_singleton.mp hb]
        exact hn hc t ht
      · show _ ↔ t ∈ s.sstables ++ [⟨.hot, name⟩]
        rw [List.mem_append, List.mem_singleton]
        by_cases ht : t = ⟨.hot, name⟩
        · rw [ht, hself]
          exact ⟨fun _ => .inr rfl, fun _ => rfl⟩
        · rw [hfile t ht, h.files t, or_iff_left ht]
      · rcases List.mem_append.mp ht with ht | ht
        · have he := hfile t (hnew t ht)
          rw [tableOf_congr he, scan_congr_file he]
          exact h.scan t ht
        · rw [List.mem_singleton.mp ht, tableOf, hscan]
          exact ⟨rfl, Layers.nodup_values fun id r hr => (h.memtable id r hr).1⟩
      · have hnone : (∅ : Dict String VectorRecord).get? id = some r := hr
        cases hnone

/-- Replacing an element of a list without repeats. -/
theorem set_eq_map {α : Type*} [DecidableEq α] {l : List α} (h : l.Nodup) {i : Nat} {a : α}
    (hi : l[i]? = some a) (b : α) :
    l.set i b = l.map fun x => if x = a then b else x := by
  induction l generalizing i with
  | nil => rfl
  | cons x l ih =>
    rw [List.nodup_cons] at h
    cases i with
    | zero =>
      rw [List.getElem?_cons_zero, Option.some.injEq] at hi
      subst hi
      have hrest : l.map (fun y => if y = x then b else y) = l := by
        refine (List.map_congr_left fun y hy => ?_).trans (List.map_id l)
        have hne : y ≠ x := fun he => h.1 (he ▸ hy)
        exact if_neg hne
      rw [List.set_cons_zero, List.map_cons, if_pos rfl, hrest]
    | succ i =>
      rw [List.getElem?_cons_succ] at hi
      have hne : x ≠ a := fun he => h.1 (he ▸ List.mem_of_getElem? hi)
      rw [List.set_cons_succ, List.map_cons, if_neg hne, ih h.2 hi]

theorem Tiered.tierToCold (h : Tiered X s) (i : Nat) : Tiered X (s.tierToCold i) := by
  rw [SegmentStore.tierToCold]
  split
  · rename_i name hi
    split
    · rename_i lines hl
      let moved : SSTable → SSTable := fun u => if u = ⟨.hot, name⟩ then ⟨.cold, name⟩ else u
      have hset : s.sstables.set i ⟨.cold, name⟩ = s.sstables.map moved := set_eq_map h.nodup hi _
      have hmem : (⟨.hot, name⟩ : SSTable) ∈ s.sstables := List.mem_of_getElem? hi
      rw [hset]
      let s₁ : SegmentStore := { s with
        hot := s.hot.pop name, cold := s.cold.set name lines, sstables := s.sstables.map moved }
      show Tiered X s₁
      have hname : ∀ u, (moved u).name = u.name := by
        intro u
        by_cases hu : u = ⟨.hot, name⟩
        · rw [show moved u = ⟨.cold, name⟩ from if_pos hu, hu]
        · rw [show moved u = u from if_neg hu]
      have hfile : ∀ u ∈ s.sstables, s₁.file (moved u) = s.file u := by
        intro u hu
        by_cases he : u = ⟨.hot, name⟩
        · rw [show moved u = ⟨.cold, name⟩ from if_pos he, he]
          exact (Dict.get?_set_self _ _ _).trans hl.symm
        · have hne : u.name ≠ name := fun hn => he (h.eq_of_name hu hmem hn)
          rw [show moved u = u from if_neg he]
          obtain ⟨tier, n⟩ := u
          cases tier with
          | hot => exact Dict.get?_pop_ne _ hne
          | cold => exact Dict.get?_set_ne _ _ hne
      refine ⟨?_, fun t => ?_, fun t ht => ?_, h.memtable⟩
      · show ((s.sstables.map moved).map SSTable.name).Pairwise _
        have hnames : (s.sstables.map moved).map SSTable.name = s.sstables.map SSTable.name := by
          rw [List.map_map]
          exact List.map_congr_left fun u _ => hname u
        rw [hnames]
        exact h.names
      · show _ ↔ t ∈ s.sstables.map moved
        constructor
        · intro ht
          obtain ⟨tier, n⟩ := t
          cases tier with
          | hot =>
            have hp : ((s.hot.pop name).get? n).isSome := ht
            rw [Dict.get?_pop] at hp
            split at hp
            · cases hp
            · rename_i hne
              refine List.mem_map.mpr ⟨_, (h.files ⟨.hot, n⟩).mp hp, if_neg fun he => hne ?_⟩
              exact congrArg SSTable.name he
          | cold =>
            have hp : ((s.cold.set name lines).get? n).isSome := ht
            rw [Dict.get?_set] at hp
            split at hp
            · rename_i hn
              exact List.mem_map.mpr ⟨_, hmem, by rw [hn]; exact if_pos rfl⟩
            · exact List.mem_map.mpr ⟨_, (h.files ⟨.cold, n⟩).mp hp, if_neg fun he => by cases he⟩
        · intro ht
          obtain ⟨u, hu, rfl⟩ := List.mem_map.mp ht
          rw [hfile u hu]
          exact (h.files u).mpr hu
      · obtain ⟨u, hu, rfl⟩ := List.mem_map.mp ht
        rw [tableOf_congr (hfile u hu), scan_congr_file (hfile u hu)]
        exact h.scan u hu
    · exact h
  · exact h

theorem tiered_step (hX : X.Lawful) {op : TierOp} (h : Tiered X s) (hc : TierOk s op)
    (hs : tierStep X s op = some s') : Tiered X s' := by
  cases op with
  | tierToCold i =>
    cases hs
    exact h.tierToCold i
  | segment op =>
    cases op with
    | put r env =>
      have hput := h.put hc.1
      simp only [tierStep, segmentStep, SegmentStore.put] at hs
      by_cases hfull : (s.memtable.put r).shouldFlush
      · simp only [hfull, if_true] at hs
        cases hf : SegmentStore.flush X { s with memtable := s.memtable.put r } env with
        | mk s₁ result =>
          rw [hf] at hs
          cases result with
          | error e => cases hs
          | ok t => cases hs; exact hput.flush hX (fun _ => hc.2 hfull) hf
      · simp only [hfull, Bool.false_eq_true, if_false] at hs
        cases hs
        exact hput
    | flush env =>
      simp only [tierStep, segmentStep] at hs
      split at hs
      · rename_i hf
        cases hs
        exact h.flush hX hc hf
      · cases hs

theorem tiered_new (threshold : Nat) : Tiered X (.init threshold ∅ ∅) where
  names := .nil
  files t := by
    obtain ⟨tier, n⟩ := t
    cases tier <;> exact ⟨fun h => absurd h Bool.false_ne_true, fun h => absurd h List.not_mem_nil⟩
  scan _ h := absurd h List.not_mem_nil
  memtable _ _ h := by cases h

/-! ## Reopening -/

/-- The sorted names of a directory. -/
theorem Tiered.sort_keys (h : Tiered X s) (tier : Tier) {files : Dict String (List Text)}
    (hf : ∀ n, files.get? n = s.file ⟨tier, n⟩) :
    (files.keys.insertionSort (· ≤ ·)).map (SSTable.mk tier) =
      s.sstables.filter (·.tier = tier) := by
  have hnames : ((s.sstables.filter (·.tier = tier)).map SSTable.name).Pairwise (· < ·) :=
    h.names.sublist (List.filter_sublist.map _)
  have hmem : ∀ n, n ∈ files.keys ↔ n ∈ (s.sstables.filter (·.tier = tier)).map SSTable.name := by
    intro n
    rw [Dict.mem_keys, hf, h.files, List.mem_map]
    constructor
    · exact fun ht => ⟨_, List.mem_filter.mpr ⟨ht, by simp⟩, rfl⟩
    · rintro ⟨t, ht, rfl⟩
      obtain ⟨ht, he⟩ := List.mem_filter.mp ht
      have he : t.tier = tier := of_decide_eq_true he
      rw [← he]
      exact ht
  have hperm : (files.keys.insertionSort (· ≤ ·)).Perm
      ((s.sstables.filter (·.tier = tier)).map SSTable.name) :=
    (List.perm_insertionSort _ _).trans
      ((List.perm_ext_iff_of_nodup files.nodup_keys (hnames.imp fun h => ne_of_lt h)).mpr hmem)
  have hsorted : files.keys.insertionSort (· ≤ ·) =
      (s.sstables.filter (·.tier = tier)).map SSTable.name :=
    hperm.eq_of_pairwise' (List.pairwise_insertionSort _ _) (hnames.imp fun h => le_of_lt h)
  rw [hsorted, List.map_map]
  refine (List.map_congr_left fun t ht => ?_).trans (List.map_id _)
  have he : t.tier = tier := of_decide_eq_true (List.mem_filter.mp ht).2
  rw [Function.comp, ← he]
  rfl

/-- A new store lists the hot tables first. -/
theorem Tiered.init_sstables (h : Tiered X s) (threshold : Nat) :
    (SegmentStore.init threshold s.hot s.cold).sstables =
      s.sstables.filter (·.tier = .hot) ++ s.sstables.filter (·.tier = .cold) := by
  rw [SegmentStore.init, h.sort_keys .hot fun _ => rfl, h.sort_keys .cold fun _ => rfl]

/-- What a new store serves. -/
theorem Tiered.init_reads (h : Tiered X s) (threshold : Nat) :
    Reads X (.init threshold s.hot s.cold) (tablesOf X s (s.sstables.filter (·.tier = .cold)) ++
      tablesOf X s (s.sstables.filter (·.tier = .hot))) := by
  have hmem : ∀ t ∈ (SegmentStore.init threshold s.hot s.cold).sstables, t ∈ s.sstables := by
    intro t ht
    rw [h.init_sstables] at ht
    rcases List.mem_append.mp ht with ht | ht <;> exact List.mem_of_mem_filter ht
  rw [← tablesOf_append, ← h.init_sstables threshold]
  refine ⟨?_, fun records hr => ?_, fun t ht => (h.files t).mpr (hmem t ht),
    fun id r hr => by cases hr⟩
  · rw [tablesOf, List.forall₂_map_right_iff, List.forall₂_same]
    exact fun t ht => (h.scan t (hmem t (List.mem_reverse.mp ht))).1
  · obtain ⟨t, ht, rfl⟩ := List.mem_map.mp hr
    exact (h.scan t (hmem t (List.mem_reverse.mp ht))).2

/-- After any run under the condition from an empty directory, once the memtable is flushed, a new
store over the directories serves the same as the old one exactly where no id of a cold file has a
newer version in a hot one. -/
theorem reopened_eq_iff (hX : X.Lawful) (threshold : Nat) (ops : List TierOp) (s : SegmentStore)
    (hr : run (tierStep X) (.init threshold ∅ ∅) ops = some s)
    (hc : Along (tierStep X) TierOk (.init threshold ∅ ∅) ops) (hm : s.memtable.count = 0)
    (memtableThreshold : Nat) :
    (∀ id, (SegmentStore.init memtableThreshold s.hot s.cold).get X id = s.get X id ∧
        ((SegmentStore.init memtableThreshold s.hot s.cold).durableRecordsById X).map (·.get? id) =
          (s.durableRecordsById X).map (·.get? id)) ↔ ColdLatest X s := by
  have h : Tiered X s :=
    invariant (fun _ _ _ h hc hs => tiered_step hX h hc hs) (tiered_new threshold) hc hr
  have hempty : s.memtable.data.entries = [] := List.length_eq_zero_iff.mp hm
  have hserved : ∀ id, served s (tablesOf X s s.sstables) id =
      Layers.newest idOf (tablesOf X s s.sstables) id := by
    intro id
    rw [served, MemTable.get, Dict.get?, hempty]
    rfl
  have hreads := h.init_reads memtableThreshold
  obtain ⟨d, hd, hget, -⟩ := h.reads.durable_eq
  obtain ⟨d', hd', hget', -⟩ := hreads.durable_eq
  have hboth : ∀ id, ((SegmentStore.init memtableThreshold s.hot s.cold).get X id = s.get X id ∧
      ((SegmentStore.init memtableThreshold s.hot s.cold).durableRecordsById X).map (·.get? id) =
        (s.durableRecordsById X).map (·.get? id)) ↔
      (Layers.newest idOf (tablesOf X s (s.sstables.filter (·.tier = .cold))) id).or
          (Layers.newest idOf (tablesOf X s (s.sstables.filter (·.tier = .hot))) id) =
        Layers.newest idOf (tablesOf X s s.sstables) id := by
    intro id
    rw [hreads.get_eq, h.reads.get_eq, hserved, hd, hd', Except.ok.injEq]
    simp only [Except.map, hget, hget', Except.ok.injEq, Layers.newest_append]
    have hnone : (SegmentStore.init memtableThreshold s.hot s.cold).memtable.get id = none := rfl
    rw [served, hnone, Option.none_or, Layers.newest_append, and_self_iff]
  constructor
  · intro hall id r hcold
    have := (hboth id).mp (hall id)
    rw [hcold] at this
    exact this.symm
  · intro hlatest id
    refine (hboth id).mpr ?_
    cases hcold : Layers.newest idOf (tablesOf X s (s.sstables.filter (·.tier = .cold))) id with
    | some r => exact (hlatest id r hcold).symm
    | none =>
      have hnone := Layers.newest_eq_none.mp hcold
      rw [Option.none_or, tablesOf, tablesOf, ← List.filter_reverse]
      refine Layers.newest_filter fun t ht hp => hnone _ ?_
      have htier : t.tier = .cold := by
        obtain ⟨tier, n⟩ := t
        cases tier with
        | hot => exact absurd hp (by simp)
        | cold => rfl
      exact List.mem_map.mpr ⟨t,
        List.mem_reverse.mpr (List.mem_filter.mpr ⟨List.mem_reverse.mp ht, by simp [htier]⟩), rfl⟩

section

/-- Two versions of a record, flushed one after the other. -/
private def twoVersions : List TierOp :=
  [.segment (.put (unitRecord zeroId []) ⟨1, 1, none⟩), .segment (.flush ⟨1, 1, none⟩),
    .segment (.put (unitRecord zeroId [("k", .null)]) ⟨1, 1, none⟩), .segment (.flush ⟨2, 1, none⟩)]

/-- Both versions are moved. -/
theorem reopened_eq_all_cold :
    ∃ s, run (tierStep fieldwise) (.init 10000 ∅ ∅)
      (twoVersions ++ [.tierToCold 1, .tierToCold 0]) =
      some s ∧ ∀ id, (SegmentStore.init 10000 s.hot s.cold).get fieldwise id =
        s.get fieldwise id := by
  have h := (reopened_eq_iff fieldwise_lawful 10000 (twoVersions ++ [.tierToCold 1, .tierToCold 0])
    _ rfl (by decide +kernel)
    rfl 10000).mpr fun _ _ h => h
  exact ⟨_, rfl, fun id => (h id).1⟩

/-- The older version is moved: a new store takes it for the newest. -/
theorem tiered_version_resurfaces : ∃ s,
    run (tierStep fieldwise) (.init 10000 ∅ ∅) (twoVersions ++ [.tierToCold 0]) = some s ∧
      s.get fieldwise zeroId.text = .ok (some (unitRecord zeroId [("k", .null)])) ∧
      (SegmentStore.init 10000 s.hot s.cold).get fieldwise zeroId.text =
        .ok (some (unitRecord zeroId [])) ∧
      ((SegmentStore.init 10000 s.hot s.cold).durableRecordsById fieldwise).map
        (·.get? zeroId.text) =
        .ok (some (unitRecord zeroId [])) ∧
      (SegmentStore.init 10000 s.hot s.cold).get fieldwise zeroId.text ≠
        s.get fieldwise zeroId.text := by
  refine ⟨_, rfl, rfl, rfl, rfl, fun h => ?_⟩
  have he : unitRecord zeroId [] = unitRecord zeroId [("k", .null)] :=
    Option.some.inj (Except.ok.inj h)
  exact absurd (congrArg (fun r => r.metadata.length) he) (by decide)

end

end Vsector.Storage
