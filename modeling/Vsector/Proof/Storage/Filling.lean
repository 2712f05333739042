import Vsector.Proof.Storage.Retention

/-!
# Filling an empty store

A store that starts empty and is given records one after the other holds them
and nothing else, in its memtable and its files (`Filling`), and holds all of
them as long as no flush replaces the file of another (`Kept`). A store that is
opened on the files then finds these records (`Filling.init`).
-/

namespace Vsector.Storage

open Framework Models

variable {X : Externals}

/-! ## Files -/

theorem toList_sstName (ts pid : Nat) :
    (sstName ts pid).toList = "sst-".toList ++
      (Nat.toDigits 10 ts ++ '-' :: (Nat.toDigits 10 pid ++ ".jsonl".toList)) := by
  have hname : sstName ts pid = "sst-" ++ ts.repr ++ "-" ++ pid.repr ++ ".jsonl" := rfl
  rw [hname]
  simp only [String.toList_append, Nat.toList_repr, List.append_assoc]
  rfl

/-- The time in the name of a file. -/
def stampOf (name : String) : Nat :=
  Nat.ofDigitChars 10 ((name.toList.drop 4).takeWhile Char.isDigit) 0

theorem stampOf_sstName (ts pid : Nat) : stampOf (sstName ts pid) = ts := by
  have hdigits : ∀ c ∈ Nat.toDigits 10 ts, Char.isDigit c = true :=
    fun c hc => Nat.isDigit_of_mem_toDigits (by decide) (by decide) hc
  have htake : ((sstName ts pid).toList.drop 4).takeWhile Char.isDigit = Nat.toDigits 10 ts := by
    rw [toList_sstName, List.drop_left' (by decide),
      List.takeWhile_append_of_pos hdigits, List.takeWhile_cons_of_neg (by decide), List.append_nil]
  rw [stampOf, htake, Nat.ofDigitChars_ten_toDigits]

/-- Files of different milliseconds are different, whatever the process. -/
theorem ts_of_sstName {ts pid ts' pid' : Nat} (h : sstName ts pid = sstName ts' pid') :
    ts = ts' := by
  rw [← stampOf_sstName ts pid, h, stampOf_sstName]

/-- The lines of an SSTable of the records. -/
abbrev dumpLines (X : Externals) (records : List VectorRecord) : List Text :=
  records.map fun r => some (X.modelDumpJson r)

/-- A flush that does not raise writes nothing, or the memtable to a file. -/
theorem flush_cases {s s' : SegmentStore} {env : FlushEnv} {t : Option SSTable}
    (h : s.flush X env = (s', .ok t)) :
    (s.memtable.count = 0 ∧ s' = s) ∨ (s.memtable.count ≠ 0 ∧ s' = { s with
      memtable := { s.memtable with data := ∅ }
      hot := s.hot.set (sstName env.ts env.pid) (dumpLines X s.memtable.data.values)
      sstables := s.sstables ++ [⟨.hot, sstName env.ts env.pid⟩] }) := by
  unfold SegmentStore.flush at h
  split at h
  · rename_i hc
    cases h
    exact .inl ⟨hc, rfl⟩
  · rename_i hc
    cases hf : env.fault with
    | some fault =>
      rw [hf] at h
      cases h
    | none =>
      rw [hf] at h
      cases h
      exact .inr ⟨hc, rfl⟩

theorem flush_ok_of_fault {s : SegmentStore} {env : FlushEnv} (h : env.fault = none) :
    ∃ s' t, s.flush X env = (s', .ok t) := by
  unfold SegmentStore.flush
  split
  · exact ⟨_, _, rfl⟩
  · rw [h]
    exact ⟨_, _, rfl⟩

theorem data_of_count {m : MemTable} (h : m.count = 0) : m.data = ∅ := by
  obtain ⟨threshold, ⟨entries, nodup⟩⟩ := m
  have hnil : entries = [] := List.length_eq_zero_iff.mp h
  subst hnil
  rfl

/-- The store has records of the list only, each under its id. -/
structure Filling (X : Externals) (records : List VectorRecord) (s : SegmentStore) : Prop where
  memtable : ∀ id r, s.memtable.data.get? id = some r → r ∈ records ∧ idOf r = id
  hot : ∀ name lines, s.hot.get? name = some lines →
    ∃ rs, lines = dumpLines X rs ∧ (rs.map idOf).Nodup ∧ ∀ r ∈ rs, r ∈ records
  cold : s.cold = ∅

/-- The store has all the records of the list. -/
def Kept (X : Externals) (records : List VectorRecord) (s : SegmentStore) : Prop :=
  ∀ r ∈ records, s.memtable.data.get? (idOf r) = some r ∨
    ∃ name lines, s.hot.get? name = some lines ∧ some (X.modelDumpJson r) ∈ lines

section

variable {records : List VectorRecord} {s s' : SegmentStore} {env : FlushEnv} {r : VectorRecord}

theorem Filling.flush (h : Filling X records s) {t : Option SSTable}
    (hf : s.flush X env = (s', .ok t)) :
    Filling X records s' ∧ s'.memtable.data = ∅ := by
  obtain ⟨hc, rfl⟩ | ⟨-, rfl⟩ := flush_cases hf
  · exact ⟨h, data_of_count hc⟩
  · refine ⟨⟨fun id r hr => (by cases hr), fun name lines hl => ?_, h.cold⟩, rfl⟩
    rw [Dict.get?_set] at hl
    split at hl
    · cases hl
      refine ⟨_, rfl, Layers.nodup_values fun id r hr => (h.memtable id r hr).2, fun r hr => ?_⟩
      obtain ⟨id, hid⟩ := Dict.mem_values.mp hr
      exact (h.memtable id r hid).1
    · exact h.hot name lines hl

theorem Filling.memtable_put (h : Filling X records s) (r : VectorRecord) :
    Filling X (records ++ [r]) { s with memtable := s.memtable.put r } := by
  refine ⟨fun id r' hr' => ?_, fun name lines hl => ?_, h.cold⟩
  · simp only [MemTable.put, Dict.get?_set] at hr'
    split at hr'
    · rename_i hid
      cases hr'
      exact ⟨List.mem_append_right _ (List.mem_singleton_self r), hid.symm⟩
    · exact ⟨List.mem_append_left _ (h.memtable id r' hr').1, (h.memtable id r' hr').2⟩
  · obtain ⟨rs, hrs, hn, hmem⟩ := h.hot name lines hl
    exact ⟨rs, hrs, hn, fun r' hr' => List.mem_append_left _ (hmem r' hr')⟩

/-- A put that does not raise, and may flush. -/
theorem put_cases (hp : s.put X r env = (s', .ok ())) :
    (¬ (s.memtable.put r).shouldFlush ∧ s' = { s with memtable := s.memtable.put r }) ∨
      ((s.memtable.put r).shouldFlush ∧ ∃ t,
        ({ s with memtable := s.memtable.put r } : SegmentStore).flush X env = (s', .ok t)) := by
  simp only [SegmentStore.put] at hp
  split at hp
  · rename_i hs
    refine .inr ⟨hs, ?_⟩
    rcases hf : ({ s with memtable := s.memtable.put r } : SegmentStore).flush X
      env with ⟨s₁, exc | t⟩
    · rw [hf] at hp
      cases hp
    · rw [hf] at hp
      cases hp
      exact ⟨t, rfl⟩
  · rename_i hs
    cases hp
    exact .inl ⟨hs, rfl⟩

theorem Filling.put (h : Filling X records s) (hp : s.put X r env = (s', .ok ())) :
    Filling X (records ++ [r]) s' := by
  obtain ⟨-, rfl⟩ | ⟨-, t, hf⟩ := put_cases hp
  · exact h.memtable_put r
  · exact ((h.memtable_put r).flush hf).1

theorem put_ok_of_fault (s : SegmentStore) (r : VectorRecord)
    (h : (s.memtable.put r).shouldFlush → env.fault = none) :
    ∃ s', s.put X r env = (s', .ok ()) := by
  simp only [SegmentStore.put]
  split
  · rename_i hfull
    obtain ⟨s', t, hf⟩ :=
      flush_ok_of_fault (X := X) (s := { s with memtable := s.memtable.put r }) (h hfull)
    rw [hf]
    exact ⟨s', rfl⟩
  · exact ⟨_, rfl⟩

/-- A flush to a new file loses nothing. -/
theorem Kept.flush (h : Filling X records s) (hk : Kept X records s) {t : Option SSTable}
    (hf : s.flush X env = (s', .ok t))
    (hnew : s.memtable.count ≠ 0 → s.hot.get? (sstName env.ts env.pid) = none) :
    Kept X records s' := by
  obtain ⟨-, rfl⟩ | ⟨hc, rfl⟩ := flush_cases hf
  · exact hk
  · intro r hr
    refine .inr ?_
    obtain hm | ⟨name, lines, hl, hline⟩ := hk r hr
    · exact ⟨_, _, Dict.get?_set_self _ _ _, List.mem_map_of_mem (Dict.mem_values.mpr ⟨_, hm⟩)⟩
    · refine ⟨name, lines, ?_, hline⟩
      have hne : name ≠ sstName env.ts env.pid := by
        rintro rfl
        rw [hnew hc] at hl
        cases hl
      exact (Dict.get?_set_ne _ _ hne).trans hl

theorem Kept.memtable_put (hk : Kept X records s) (hid : idOf r ∉ records.map idOf) :
    Kept X (records ++ [r]) { s with memtable := s.memtable.put r } := by
  intro r' hr'
  rcases List.mem_append.mp hr' with hr' | hr'
  · have hne : idOf r' ≠ idOf r := fun he => hid (he ▸ List.mem_map_of_mem hr')
    obtain hm | hfile := hk r' hr'
    · exact .inl ((Dict.get?_set_ne _ _ hne).trans hm)
    · exact .inr hfile
  · rw [List.mem_singleton.mp hr']
    exact .inl (Dict.get?_set_self _ _ _)

end

/-! ## Opening the files -/

theorem modelDumpJson_inj (hX : X.Lawful) {r r' : VectorRecord} (hr : r.Finite) (hr' : r'.Finite)
    (h : X.modelDumpJson r = X.modelDumpJson r') : r = r' := by
  have hval := hX.validateJson_dump r hr
  rw [h, hX.validateJson_dump r' hr'] at hval
  exact (Option.some.inj hval).symm

section

variable {records : List VectorRecord} {s : SegmentStore}

/-- The records of a file. -/
theorem Filling.scan (hX : X.Lawful) (h : Filling X records s) (hfin : ∀ r ∈ records, r.Finite)
    (threshold : Nat) {t : SSTable} (ht : t ∈ (SegmentStore.init threshold s.hot s.cold).sstables) :
    ∃ rs, (SegmentStore.init threshold s.hot s.cold).scan X t = .ok rs ∧ t.tier = .hot ∧
      s.hot.get? t.name = some (dumpLines X rs) ∧ (rs.map idOf).Nodup ∧ ∀ r ∈ rs, r ∈ records := by
  have hmem : ∃ name ∈ s.hot.keys, SSTable.mk .hot name = t := by
    rcases List.mem_append.mp ht with ht | ht
    · obtain ⟨name, hname, rfl⟩ := List.mem_map.mp ht
      exact ⟨name, (List.mem_insertionSort _).mp hname, rfl⟩
    · obtain ⟨name, hname, -⟩ := List.mem_map.mp ht
      rw [h.cold] at hname
      cases (List.mem_insertionSort _).mp hname
  obtain ⟨name, hname, rfl⟩ := hmem
  obtain ⟨lines, hl⟩ := Option.isSome_iff_exists.mp (Dict.mem_keys.mp hname)
  obtain ⟨rs, rfl, hn, hrs⟩ := h.hot name lines hl
  refine ⟨rs, ?_, rfl, hl, hn, hrs⟩
  have hfile : (SegmentStore.init threshold s.hot s.cold).file ⟨.hot, name⟩ =
      some (dumpLines X rs) := hl
  rw [SegmentStore.scan, hfile]
  simp only [dumpLines]
  rw [mapM_dump hX fun r hr => hfin r (hrs r hr)]

/-- A store on the files has records of the list only, and all of it if they were kept. -/
theorem Filling.init (hX : X.Lawful) (h : Filling X records s) (hfin : ∀ r ∈ records, r.Finite)
    (hn : (records.map idOf).Nodup) (hm : s.memtable.data = ∅) (threshold : Nat) :
    ∃ d, (SegmentStore.init threshold s.hot s.cold).durableRecordsById X = .ok d ∧
      (∀ id r, d.get? id = some r → Layers.find idOf records id = some r) ∧
      (Kept X records s → ∀ id, d.get? id = Layers.find idOf records id) := by
  let opened := SegmentStore.init threshold s.hot s.cold
  let recordsOf (t : SSTable) : List VectorRecord := (opened.scan X t).toOption.getD []
  have hscan : ∀ t ∈ opened.sstables, opened.scan X t = .ok (recordsOf t) ∧ t.tier = .hot ∧
      s.hot.get? t.name = some (dumpLines X (recordsOf t)) ∧ ((recordsOf t).map idOf).Nodup ∧
      ∀ r ∈ recordsOf t, r ∈ records := by
    intro t ht
    obtain ⟨rs, hrs, hrest⟩ := h.scan hX hfin threshold ht
    have hof : recordsOf t = rs := by
      show (opened.scan X t).toOption.getD [] = rs
      rw [hrs]
      rfl
    rw [hof]
    exact ⟨hrs, hrest⟩
  have hreads : Reads X opened (opened.sstables.reverse.map recordsOf) := by
    refine ⟨?_, fun rs hrs => ?_, fun t ht => ?_, fun id r hr => (by cases hr)⟩
    · rw [List.forall₂_map_right_iff, List.forall₂_same]
      exact fun t ht => (hscan t (List.mem_reverse.mp ht)).1
    · obtain ⟨t, ht, rfl⟩ := List.mem_map.mp hrs
      exact (hscan t (List.mem_reverse.mp ht)).2.2.2.1
    · obtain ⟨-, htier, hfile, -⟩ := hscan t ht
      rw [SegmentStore.file, htier]
      exact Option.isSome_of_eq_some hfile
  obtain ⟨d, hd, hget, -⟩ := hreads.durable_eq
  have hsub : ∀ id r, d.get? id = some r → Layers.find idOf records id = some r := by
    intro id r hr
    rw [hget] at hr
    obtain ⟨rs, hrs, hmem⟩ := Layers.mem_of_newest hr
    obtain ⟨t, ht, rfl⟩ := List.mem_map.mp hrs
    rw [← Layers.key_of_newest hr]
    exact Layers.find_of_mem hn ((hscan t (List.mem_reverse.mp ht)).2.2.2.2 r hmem)
  refine ⟨d, hd, hsub, fun hk id => ?_⟩
  cases hid : d.get? id with
  | some r => exact (hsub id r hid).symm
  | none =>
    refine (Layers.find_eq_none.mpr fun r hr he => ?_).symm
    obtain ⟨name, lines, hfile, hline⟩ := (hk r hr).resolve_left fun hmem => by
      rw [hm] at hmem
      cases hmem
    have ht : SSTable.mk .hot name ∈ opened.sstables := List.mem_append_left _ (List.mem_map_of_mem
      ((List.mem_insertionSort _).mpr (Dict.mem_keys.mpr (Option.isSome_of_eq_some hfile))))
    obtain ⟨-, -, hlines, -, hrecords⟩ := hscan _ ht
    have hnone : Layers.newest idOf (opened.sstables.reverse.map recordsOf) id = none :=
      (hget id).symm.trans hid
    have hmem : r ∈ recordsOf ⟨.hot, name⟩ := by
      cases hfile.symm.trans hlines
      obtain ⟨r', hr', hdump⟩ := List.mem_map.mp hline
      rwa [modelDumpJson_inj hX (hfin r' (hrecords r' hr')) (hfin r hr)
        (Option.some.inj hdump)] at hr'
    have hfind := Layers.newest_eq_none.mp hnone _ (List.mem_map_of_mem (List.mem_reverse.mpr ht))
    exact Layers.find_eq_none.mp hfind r hmem he

end

end Vsector.Storage
