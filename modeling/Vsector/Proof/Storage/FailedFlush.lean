import Vsector.Proof.Models.Documents
import Vsector.Proof.Storage.Tiering

/-!
# Flushes that fail

`SegmentStore.flush` empties the memtable before it writes the file, and a
file that could not be written is never registered. So after a flush that
raises, the records of the memtable are served only where the tables had them
already (`failed_flush_keeps_iff`). A second flush in the same millisecond
writes to the file of a table, which has then lost its own records, and may
no longer be readable; what the other tables hold decides there (`Spared`).
-/

namespace Vsector.Storage

open Framework Models

namespace SegmentStore

variable {X : Externals} {s : SegmentStore} {env : FlushEnv}

/-- What the tables hold for an id. -/
def tablesGet (X : Externals) (s : SegmentStore) (id : String) : Except Exc (Option VectorRecord) :=
  s.getTables X id s.sstables.reverse

/-- The table whose file the flush writes. -/
def target (env : FlushEnv) : SSTable := ⟨.hot, sstName env.ts env.pid⟩

/-- What the tables newer than this one hold for an id. -/
def newerGet (X : Externals) (s : SegmentStore) (t : SSTable) (id : String) :
    Except Exc (Option VectorRecord) :=
  s.getTables X id (s.sstables.reverse.takeWhile (· ≠ t))

/-- What the tables but this one hold for an id. -/
def othersGet (X : Externals) (s : SegmentStore) (t : SSTable) (id : String) :
    Except Exc (Option VectorRecord) :=
  s.getTables X id (s.sstables.reverse.filter (· ≠ t))

/-- The first lines of the memtable's records, as they are read; `none` where one is torn or no
record. -/
def written (X : Externals) (s : SegmentStore) (lines : Nat) (torn : Bool) :
    Option (List VectorRecord) :=
  if torn then none
  else (s.memtable.scan.take lines).mapM fun r => X.modelValidateJson (X.modelDumpJson r)

/-- The fault leaves a part of a new file in the place of a table's. -/
def Overwrites (s : SegmentStore) (env : FlushEnv) (lines : Nat) (torn : Bool) : Prop :=
  env.fault = some (.writing lines torn) ∧ target env ∈ s.sstables

/-- The tables hold what a read finds in the memtable, and what they hold for the other ids does
not depend on a file that is overwritten. -/
structure Spared (X : Externals) (s : SegmentStore) (env : FlushEnv) : Prop where
  held : (∀ lines torn, ¬ Overwrites s env lines torn) →
    ∀ id r, s.memtable.get id = some r → s.tablesGet X id = .ok (some r)
  /-- The overwritten file cannot be read: the newer tables hold the records of the memtable, and
  an id they do not hold could not be read before. -/
  unreadable : ∀ lines torn, Overwrites s env lines torn → s.written X lines torn = none → ∀ id,
    (∀ r, s.memtable.get id = some r → s.newerGet X (target env) id = .ok (some r)) ∧
    (s.memtable.get id = none → s.newerGet X (target env) id = .ok none →
      s.tablesGet X id = .error .validationError)
  /-- A record of the memtable that was not written is held by another table. -/
  unwritten : ∀ lines torn recs, Overwrites s env lines torn →
    s.written X lines torn = some recs → ∀ id, (recs.find? fun r => r.id.text = id) = none →
    (∀ r, s.memtable.get id = some r → s.othersGet X (target env) id = .ok (some r)) ∧
    (s.memtable.get id = none → s.othersGet X (target env) id = s.tablesGet X id)
  /-- One that was written is not hidden by another record in a newer table. -/
  written : ∀ lines torn recs, Overwrites s env lines torn →
    s.written X lines torn = some recs → ∀ id r', (recs.find? fun r => r.id.text = id) = some r' →
    (∀ r, s.memtable.get id = some r → s.newerGet X (target env) id = .ok (some r) ∨
      s.newerGet X (target env) id = .ok none ∧ r' = r) ∧
    (s.memtable.get id = none → s.newerGet X (target env) id = .ok none →
      s.tablesGet X id = .ok (some r'))

/-! ## Lookups -/

theorem get_of_some {id : String} {r : VectorRecord} (h : s.memtable.get id = some r) :
    s.get X id = .ok (some r) := by
  rw [get, h]

theorem get_of_none {id : String} (h : s.memtable.get id = none) :
    s.get X id = s.tablesGet X id := by
  rw [get, h]
  rfl

/-- The first answer, unless it is that there is nothing. -/
def orThen (a b : Except Exc (Option VectorRecord)) : Except Exc (Option VectorRecord) :=
  match a with
  | .ok none => b
  | r => r

theorem orThen_none (b : Except Exc (Option VectorRecord)) : orThen (.ok none) b = b := rfl

theorem orThen_of_ne {a : Except Exc (Option VectorRecord)} (b : Except Exc (Option VectorRecord))
    (h : a ≠ .ok none) : orThen a b = a := by
  rcases a with e | _ | r
  · rfl
  · exact absurd rfl h
  · rfl

theorem orThen_eq_iff {a b c : Except Exc (Option VectorRecord)} (h : a ≠ .ok none → c = a) :
    orThen a b = c ↔ (a = .ok none → c = b) := by
  by_cases ha : a = .ok none
  · rw [ha, orThen_none]
    exact ⟨fun hb _ => hb.symm, fun hc => (hc rfl).symm⟩
  · rw [orThen_of_ne b ha, h ha]
    exact ⟨fun _ hnone => absurd hnone ha, fun _ => rfl⟩

theorem orThen_error_iff {a : Except Exc (Option VectorRecord)} {e : Exc} {r : VectorRecord} :
    orThen a (.error e) = .ok (some r) ↔ a = .ok (some r) := by
  rcases a with _ | _ | _ <;> simp [orThen]

theorem orThen_some_iff {a : Except Exc (Option VectorRecord)} {r r' : VectorRecord} :
    orThen a (.ok (some r')) = .ok (some r) ↔ a = .ok (some r) ∨ a = .ok none ∧ r' = r := by
  rcases a with _ | _ | _ <;> simp [orThen]

/-- The first list of tables decides, unless it holds nothing. -/
theorem getTables_append (s : SegmentStore) (id : String) (ts ts' : List SSTable) :
    s.getTables X id (ts ++ ts') = orThen (s.getTables X id ts) (s.getTables X id ts') := by
  induction ts with
  | nil => rfl
  | cons t ts ih =>
    simp only [List.cons_append, getTables]
    rcases s.scan X t with e | records
    · rfl
    · dsimp only
      cases records.find? fun r => r.id.text = id with
      | none => exact ih
      | some r => rfl

/-- Where a table holds nothing for the id, it need not be asked. -/
theorem getTables_filter {t : SSTable} {id : String} {records : List VectorRecord}
    (hscan : s.scan X t = .ok records) (hnone : (records.find? fun r => r.id.text = id) = none)
    (ts : List SSTable) : s.getTables X id ts = s.getTables X id (ts.filter (· ≠ t)) := by
  induction ts with
  | nil => rfl
  | cons t' ts ih =>
    by_cases ht : t' = t
    · rw [List.filter_cons_of_neg (by simpa using ht), ← ih, getTables, ht, hscan]
      dsimp only
      rw [hnone]
    · rw [List.filter_cons_of_pos (by simpa using ht), getTables, getTables, ih]

/-- The tables newer than one of them, it, and the rest. -/
theorem exists_newer {t : SSTable} {ts : List SSTable} (h : t ∈ ts) :
    ∃ older, ts = ts.takeWhile (· ≠ t) ++ t :: older := by
  induction ts with
  | nil => cases h
  | cons t' ts ih =>
    by_cases ht : t' = t
    · exact ⟨ts, by rw [List.takeWhile_cons_of_neg (by simpa using ht), ht]; rfl⟩
    · obtain ⟨older, holder⟩ := ih ((List.mem_cons.mp h).resolve_left (Ne.symm ht))
      refine ⟨older, ?_⟩
      rw [List.takeWhile_cons_of_pos (by simpa using ht), List.cons_append, ← holder]

theorem takeWhile_ne (t : SSTable) (ts : List SSTable) : t ∉ ts.takeWhile (· ≠ t) := fun h => by
  have := List.mem_takeWhile_imp h
  simp at this

theorem filter_split {t : SSTable} {ts older : List SSTable}
    (h : ts = ts.takeWhile (· ≠ t) ++ t :: older) :
    ts.filter (· ≠ t) = ts.takeWhile (· ≠ t) ++ older.filter (· ≠ t) := by
  conv_lhs => rw [h]
  rw [List.filter_append, List.filter_cons_of_neg (by simp)]
  have hnewer : ∀ t' ∈ ts.takeWhile (· ≠ t), decide (t' ≠ t) = true := fun t' ht' =>
    List.mem_takeWhile_imp (p := fun t' => decide (t' ≠ t)) ht'
  rw [List.filter_eq_self.mpr hnewer]

/-! ## The store after a fault -/

/-- The store with the file that a fault leaves, still with its memtable. -/
def left (X : Externals) (s : SegmentStore) (env : FlushEnv) : SegmentStore :=
  { s with
    hot := match env.fault.bind
      (faultyFile (s.memtable.scan.map fun r => some (X.modelDumpJson r))) with
      | none => s.hot
      | some lines => s.hot.set (sstName env.ts env.pid) lines }

/-- No other file changes. -/
theorem file_left {t : SSTable} (h : t ≠ target env) : (s.left X env).file t = s.file t := by
  unfold left
  rcases env.fault.bind _ with _ | lines
  · rfl
  · obtain ⟨_ | _, name⟩ := t
    · have hname : name ≠ sstName env.ts env.pid := fun he => h (he ▸ rfl)
      exact Dict.get?_set_ne _ _ hname
    · rfl

/-- A file that is no table's is not read. -/
theorem tablesGet_left (h : ∀ lines torn, ¬ Overwrites s env lines torn) (id : String) :
    (s.left X env).tablesGet X id = s.tablesGet X id := by
  refine getTables_congr id fun t ht => ?_
  by_cases htarget : t = target env
  · rcases hf : env.fault with _ | _ | ⟨lines, torn⟩
    · unfold left
      rw [hf]
      rfl
    · unfold left
      rw [hf]
      rfl
    · exact absurd ⟨hf, htarget ▸ List.mem_reverse.mp ht⟩ (h lines torn)
  · exact file_left htarget

/-- What the overwritten file reads as. -/
theorem scan_left {lines : Nat} {torn : Bool} (hf : env.fault = some (.writing lines torn)) :
    (s.left X env).scan X (target env) =
      match s.written X lines torn with
      | none => .error .validationError
      | some recs => .ok recs := by
  have hfile : (s.left X env).file (target env) =
      some ((s.memtable.scan.map fun r => some (X.modelDumpJson r)).take lines ++
        if torn then [none] else []) := by
    unfold left
    rw [hf]
    exact Dict.get?_set_self _ _ _
  rw [scan, hfile]
  dsimp only
  unfold written
  cases torn with
  | true =>
    have htorn : (((s.memtable.scan.map fun r => some (X.modelDumpJson r)).take lines ++
        [none]).mapM fun line : Text => line.bind X.modelValidateJson) = none := by
      rw [List.mapM_append]
      cases ((s.memtable.scan.map fun r => some (X.modelDumpJson r)).take lines).mapM
          fun line : Text => line.bind X.modelValidateJson <;> rfl
    rw [if_pos rfl, if_pos rfl, htorn]
  | false =>
    rw [if_neg Bool.false_ne_true, if_neg Bool.false_ne_true, List.append_nil, ← List.map_take,
      List.mapM_map]
    cases h : (s.memtable.scan.take lines).mapM
        fun r => X.modelValidateJson (X.modelDumpJson r) <;>
      simp only [Function.comp_def, Option.bind_some, h]

section Overwritten

variable {older : List SSTable} {id : String}

theorem tablesGet_split
    (h : s.sstables.reverse = s.sstables.reverse.takeWhile (· ≠ target env) ++
      target env :: older) :
    s.tablesGet X id =
      orThen (s.newerGet X (target env) id) (s.getTables X id (target env :: older)) := by
  rw [tablesGet, h]
  exact getTables_append s id _ _

theorem othersGet_split
    (h : s.sstables.reverse = s.sstables.reverse.takeWhile (· ≠ target env) ++
      target env :: older) :
    s.othersGet X (target env) id = orThen (s.newerGet X (target env) id)
      (s.getTables X id (older.filter (· ≠ target env))) := by
  rw [othersGet, filter_split h]
  exact getTables_append s id _ _

/-- The newer tables answer as before. -/
theorem tablesGet_left_split
    (h : s.sstables.reverse = s.sstables.reverse.takeWhile (· ≠ target env) ++
      target env :: older) :
    (s.left X env).tablesGet X id =
      orThen (s.newerGet X (target env) id)
        ((s.left X env).getTables X id (target env :: older)) := by
  have hnewer : (s.left X env).getTables X id (s.sstables.reverse.takeWhile (· ≠ target env)) =
      s.newerGet X (target env) id :=
    getTables_congr id fun t ht => file_left fun he => takeWhile_ne _ _ (he ▸ ht)
  rw [← hnewer, ← getTables_append, ← h]
  rfl

end Overwritten

/-- The newer tables decide, with the file as without it. -/
theorem tablesGet_newer (h : target env ∈ s.sstables) {id : String}
    (hnewer : s.newerGet X (target env) id ≠ .ok none) :
    s.tablesGet X id = s.newerGet X (target env) id := by
  obtain ⟨older, holder⟩ := exists_newer (List.mem_reverse.mpr h)
  rw [tablesGet_split holder, orThen_of_ne _ hnewer]

/-- No record is found under an id that the newer tables do not hold. -/
theorem tablesGet_unreadable {lines : Nat} {torn : Bool} (h : Overwrites s env lines torn)
    (hw : s.written X lines torn = none) (id : String) :
    (s.left X env).tablesGet X id =
      orThen (s.newerGet X (target env) id) (.error .validationError) := by
  obtain ⟨older, holder⟩ := exists_newer (List.mem_reverse.mpr h.2)
  have hscan := scan_left (X := X) (s := s) h.1
  rw [hw] at hscan
  rw [tablesGet_left_split holder, getTables, hscan]

/-- A record that was written hides the older ones of its id. -/
theorem tablesGet_written {lines : Nat} {torn : Bool} {recs : List VectorRecord}
    (h : Overwrites s env lines torn) (hw : s.written X lines torn = some recs) {id : String}
    {r : VectorRecord} (hfind : (recs.find? fun r => r.id.text = id) = some r) :
    (s.left X env).tablesGet X id = orThen (s.newerGet X (target env) id) (.ok (some r)) := by
  obtain ⟨older, holder⟩ := exists_newer (List.mem_reverse.mpr h.2)
  have hscan := scan_left (X := X) (s := s) h.1
  rw [hw] at hscan
  rw [tablesGet_left_split holder, getTables, hscan]
  dsimp only
  rw [hfind]

/-- Where no record was written, the file may as well not be there. -/
theorem tablesGet_unwritten {lines : Nat} {torn : Bool} {recs : List VectorRecord}
    (h : Overwrites s env lines torn) (hw : s.written X lines torn = some recs) {id : String}
    (hfind : (recs.find? fun r => r.id.text = id) = none) :
    (s.left X env).tablesGet X id = s.othersGet X (target env) id := by
  obtain ⟨older, holder⟩ := exists_newer (List.mem_reverse.mpr h.2)
  have hscan := scan_left (X := X) (s := s) h.1
  rw [hw] at hscan
  have holderGet : (s.left X env).getTables X id (older.filter (· ≠ target env)) =
      s.getTables X id (older.filter (· ≠ target env)) :=
    getTables_congr id fun t ht => file_left (by simpa using (List.mem_filter.mp ht).2)
  rw [tablesGet_left_split holder, othersGet_split holder, ← holderGet,
    ← getTables_filter hscan hfind, getTables, hscan]
  dsimp only
  rw [hfind]

/-- A flush that raises has emptied the memtable, and left a part of its file. -/
theorem flush_of_error {e : Exc} (h : (s.flush X env).2 = .error e) :
    (s.flush X env).1 = { s.left X env with memtable := { s.memtable with data := ∅ } } := by
  unfold flush at h ⊢
  split at h
  · cases h
  · rename_i hcount
    rw [if_neg hcount]
    dsimp only [MemTable.snapshotAndClear] at h ⊢
    rcases hf : env.fault with _ | fault
    · rw [hf] at h
      cases h
    · unfold left
      rw [hf]
      rfl

theorem get_flush_of_error {e : Exc} (h : (s.flush X env).2 = .error e) (id : String) :
    (s.flush X env).1.get X id = (s.left X env).tablesGet X id := by
  rw [flush_of_error h, get_of_none rfl]
  exact getTables_congr id fun t _ => rfl

/-- One id, by what the memtable has under it. -/
theorem get_eq_iff {id : String} {a : Except Exc (Option VectorRecord)} :
    a = s.get X id ↔ (∀ r, s.memtable.get id = some r → a = .ok (some r)) ∧
      (s.memtable.get id = none → a = s.tablesGet X id) := by
  rcases hget : s.memtable.get id with _ | r
  · rw [get_of_none hget]
    simp
  · rw [get_of_some hget]
    simp

theorem flush_keeps_iff {e : Exc} (h : (s.flush X env).2 = .error e) :
    (∀ id, (s.flush X env).1.get X id = s.get X id) ↔ Spared X s env := by
  simp only [get_flush_of_error h, get_eq_iff]
  constructor
  · intro hsame
    refine ⟨fun hover id r hr => ?_, fun lines torn hover hw id => ?_,
      fun lines torn recs hover hw id hfind => ?_,
      fun lines torn recs hover hw id r' hfind => ?_⟩
    · rw [← tablesGet_left hover]
      exact (hsame id).1 r hr
    · have hid := hsame id
      rw [tablesGet_unreadable hover hw, orThen_eq_iff (tablesGet_newer hover.2)] at hid
      exact ⟨fun r hr => orThen_error_iff.mp (hid.1 r hr), hid.2⟩
    · have hid := hsame id
      rwa [tablesGet_unwritten hover hw hfind] at hid
    · have hid := hsame id
      rw [tablesGet_written hover hw hfind, orThen_eq_iff (tablesGet_newer hover.2)] at hid
      exact ⟨fun r hr => orThen_some_iff.mp (hid.1 r hr), hid.2⟩
  · intro hspared id
    by_cases hover : ∀ lines torn, ¬ Overwrites s env lines torn
    · rw [tablesGet_left hover]
      exact ⟨hspared.held hover id, fun _ => rfl⟩
    · push Not at hover
      obtain ⟨lines, torn, hover⟩ := hover
      rcases hw : s.written X lines torn with _ | recs
      · obtain ⟨hsome, hnone⟩ := hspared.unreadable lines torn hover hw id
        rw [tablesGet_unreadable hover hw, orThen_eq_iff (tablesGet_newer hover.2)]
        exact ⟨fun r hr => orThen_error_iff.mpr (hsome r hr), hnone⟩
      cases hfind : recs.find? fun r => r.id.text = id with
      | none =>
        rw [tablesGet_unwritten hover hw hfind]
        exact hspared.unwritten lines torn recs hover hw id hfind
      | some r' =>
        obtain ⟨hsome, hnone⟩ := hspared.written lines torn recs hover hw id r' hfind
        rw [tablesGet_written hover hw hfind, orThen_eq_iff (tablesGet_newer hover.2)]
        exact ⟨fun r hr => orThen_some_iff.mpr (hsome r hr), hnone⟩

/-- The store of a `put`, before its memtable is flushed. -/
def add (s : SegmentStore) (record : VectorRecord) : SegmentStore :=
  { s with memtable := s.memtable.put record }

theorem put_error {record : VectorRecord} {e : Exc} (h : (s.put X record env).2 = .error e) :
    ((s.add record).flush X env).2 = .error e ∧
    (s.put X record env).1 = ((s.add record).flush X env).1 := by
  unfold put at h ⊢
  dsimp only at h ⊢
  split at h
  · rename_i hfull
    rw [if_pos hfull]
    refine ⟨?_, rfl⟩
    rcases hflush : ((s.add record).flush X env).2 with exc | t
    · have hmap : ((s.add record).flush X env).2.map (fun _ => ()) = .error e := h
      rw [hflush] at hmap
      cases hmap
      rfl
    · have hmap : ((s.add record).flush X env).2.map (fun _ => ()) = .error e := h
      rw [hflush] at hmap
      cases hmap
  · cases h

/-- After a flush that raises, or a `put` whose flush does, every id is served as before exactly if
the tables hold what the memtable did. -/
theorem failed_flush_keeps_iff (s : SegmentStore) (env : FlushEnv) (e : Exc) :
    ((s.flush X env).2 = .error e → ((∀ id, (s.flush X env).1.get X id = s.get X id) ↔
      Spared X s env)) ∧
      ∀ record, (s.put X record env).2 = .error e →
        ((∀ id, (s.put X record env).1.get X id = (s.add record).get X id) ↔
          Spared X (s.add record) env) := by
  refine ⟨flush_keeps_iff, fun record h => ?_⟩
  obtain ⟨hflush, hstore⟩ := put_error h
  rw [hstore]
  exact flush_keeps_iff hflush

/-! A record that is in the memtable once more after it was flushed, and one that never was. -/

private def unopened : FlushEnv := ⟨2, 1, some .opening⟩

private def flushedBefore : SegmentStore :=
  (SegmentStore.init 1 (Dict.set ∅ (sstName 1 1)
    [some (fieldwise.modelDumpJson (unitRecord zeroId []))]) ∅).add
    (unitRecord zeroId [])

private theorem spared_again {s : SegmentStore}
    (hs : s = flushedBefore ∨ s = flushedBefore.add (unitRecord zeroId [])) :
    Spared fieldwise s unopened := by
  have hmemtable : ∀ id r, s.memtable.get id = some r →
      id = zeroId.text ∧ r = unitRecord zeroId [] := by
    intro id r hr
    have hget : ∀ d : Dict String VectorRecord,
        (∀ v, d.get? id = some v → id = zeroId.text ∧ v = unitRecord zeroId []) →
        ∀ v, (d.set zeroId.text (unitRecord zeroId [])).get? id = some v →
          id = zeroId.text ∧ v = unitRecord zeroId [] := by
      intro d hd v hv
      rw [Dict.get?_set] at hv
      split at hv
      · rename_i he
        exact ⟨he, (Option.some.inj hv).symm⟩
      · exact hd v hv
    have hempty : ∀ v, (∅ : Dict String VectorRecord).get? id = some v →
        id = zeroId.text ∧ v = unitRecord zeroId [] := by
      intro v hv
      rw [Dict.get?_empty] at hv
      cases hv
    rcases hs with rfl | rfl
    · exact hget ∅ hempty r hr
    · exact hget _ (hget ∅ hempty) r hr
  refine ⟨fun _ id r hr => ?_, fun _ _ h => absurd h.1 nofun, fun _ _ _ h => absurd h.1 nofun,
    fun _ _ _ h => absurd h.1 nofun⟩
  obtain ⟨rfl, rfl⟩ := hmemtable id r hr
  rcases hs with rfl | rfl <;> rfl

theorem failed_flush_keeps_flushed :
    (∀ id, (flushedBefore.flush fieldwise unopened).1.get fieldwise id =
      flushedBefore.get fieldwise id) ∧
      ∀ id, (flushedBefore.put fieldwise (unitRecord zeroId []) unopened).1.get fieldwise id =
        (flushedBefore.add (unitRecord zeroId [])).get fieldwise id :=
  ⟨((failed_flush_keeps_iff flushedBefore unopened (.osError "write failed")).1 rfl).mpr
    (spared_again (.inl rfl)),
    ((failed_flush_keeps_iff flushedBefore unopened (.osError "write failed")).2
      (unitRecord zeroId []) rfl).mpr
      (spared_again (.inr rfl))⟩

/-- A record that was only in the memtable is gone. -/
theorem failed_flush_loses : ¬ ∀ (X : Externals) (s : SegmentStore) (env : FlushEnv) (e : Exc),
    (s.flush X env).2 = .error e → ∀ id, (s.flush X env).1.get X id = s.get X id := by
  intro h
  have hget := h fieldwise ((SegmentStore.init 10000 ∅ ∅).add (unitRecord zeroId [])) unopened
    (.osError "write failed") rfl
    zeroId.text
  have hbefore : ((SegmentStore.init 10000 ∅ ∅).add (unitRecord zeroId [])).get
      fieldwise zeroId.text =
      .ok (some (unitRecord zeroId [])) := rfl
  have hafter : (((SegmentStore.init 10000 ∅ ∅).add (unitRecord zeroId [])).flush fieldwise
      unopened).1.get fieldwise
      zeroId.text = .ok none := rfl
  rw [hbefore, hafter] at hget
  cases hget

end SegmentStore

end Vsector.Storage
