import Vsector.Framework.DictMap
import Vsector.Framework.Refinement
import Vsector.Impl.Api.Namespaces
import Vsector.Impl.Storage.Metadata
import Vsector.Proof.Models.JsonRoundTrip

/-!
# Two backends, one dictionary

Both backends of the metadata store keep a dictionary of namespaces by name
(`namespacesCall`): the file backend in memory and in its file, from which a
new process reads it back (`file_refines`), the other in the rows of its table
(`table_refines`). So they answer every run of calls alike, restarts included
(`backends_agree`). A database whose table was never created is never used
(`untouched_database`), and a crash while the file is written leaves either
everything or nothing (`crash_all_or_nothing`). It is the dictionary that the
endpoints work on (`endpoints_metadata`).
-/

namespace Vsector.Models

/-- Neither an array nor an object. -/
def Json.isFlat : Json → Bool
  | arr _ | obj _ => false
  | _ => true

open Json

variable {X : Externals}

namespace NamespaceConfig

theorem ofValue?_value : (∀ m : DistanceMetric, DistanceMetric.ofValue? m.value = some m) ∧
    (∀ t : IndexType, IndexType.ofValue? t.value = some t) ∧
    ∀ c : CompressionType, CompressionType.ofValue? c.value = some c :=
  ⟨fun m => by cases m <;> rfl, fun t => by cases t <;> rfl, fun c => by cases c <;> rfl⟩

/-- Reading looks at a document's fields by their keys only. -/
theorem modelValidate_congr {fresh : UUID} {v v' : Json} (hobj : v.isObj = v'.isObj)
    (hget : ∀ key, v.get? key = v'.get? key) :
    modelValidate X fresh v = modelValidate X fresh v' := by
  have hfield : ∀ {α : Type} (key : String) (d : Option α) (read : Json → Option α),
      field v key d read = field v' key d read := by
    intro α key d read
    rw [field, field, hget]
  simp only [modelValidate, hobj, hfield]

/-- `Namespace.model_validate(ns.model_dump(mode="json")) == ns`. -/
theorem modelValidate_modelDump (hu : ∀ u : UUID, X.uuid u.text = some u) (fresh : UUID)
    (c : NamespaceConfig) :
    modelValidate X fresh c.modelDump = some c := by
  obtain ⟨hmetric, hindex, hcompression⟩ := ofValue?_value
  have hexpected : field c.modelDump "expected_records" (some none) readIntOrNull =
      some c.expectedRecords := by
    obtain ⟨name, dimension, metric, index, factor, acks, shards, compression,
        tenant, expected⟩ := c
    cases expected <;> rfl
  have hok : matchesNamePattern c.name = true ∧ (1 ≤ c.dimension ∧ c.dimension ≤ 65536) ∧
      (1 ≤ c.replicationFactor ∧ c.replicationFactor ≤ 7) ∧
      (1 ≤ c.requiredAcks ∧ c.requiredAcks ≤ 7) ∧
      (1 ≤ c.shardCount ∧ c.shardCount ≤ 1024) ∧ c.expectedRecords.all (1 ≤ ·) := by
    refine ⟨c.name_ok, c.dimension_ok, c.replicationFactor_ok, c.requiredAcks_ok,
      c.shardCount_ok, ?_⟩
    cases hn : c.expectedRecords with
    | none => rfl
    | some n => exact decide_eq_true (c.expectedRecords_ok n hn)
  have hmetricField : field c.modelDump "distance_metric" (some .cosine)
      (readEnum DistanceMetric.ofValue?) =
      some c.distanceMetric := hmetric _
  have hindexField : field c.modelDump "index_type" (some .hnsw) (readEnum IndexType.ofValue?) =
      some c.indexType :=
    hindex _
  have hcompressionField :
      field c.modelDump "compression" (some .none) (readEnum CompressionType.ofValue?) =
      some c.compression := hcompression _
  have htenant : field c.modelDump "tenant_id" (some fresh) (readEnum X.uuid) =
      some c.tenantId := hu _
  rw [modelValidate, if_pos (show c.modelDump.isObj = true from rfl), hmetricField, hindexField,
    hcompressionField, htenant, hexpected]
  exact dif_pos hok

theorem modelDump_fields (c : NamespaceConfig) : ∃ fields, c.modelDump = .obj fields ∧
    (∀ p ∈ fields, p.2.isFlat = true) ∧ (fields.map Prod.fst).Nodup := by
  have hkeys : ["name", "dimension", "distance_metric", "index_type", "replication_factor",
      "required_acks",
    "shard_count", "compression", "tenant_id", "expected_records"].Nodup := by decide
  refine ⟨_, rfl, ?_, hkeys⟩
  cases c.expectedRecords <;> simp [isFlat]

theorem modelDump_keysNodup (c : NamespaceConfig) : c.modelDump.KeysNodup := by
  obtain ⟨fields, hfields, hflat, hkeys⟩ := c.modelDump_fields
  rw [hfields]
  refine ⟨hkeys, ?_⟩
  clear hfields hkeys
  induction fields with
  | nil => trivial
  | cons p fields ih =>
    refine ⟨?_, ih fun q hq => hflat q (List.mem_cons_of_mem _ hq)⟩
    have hp := hflat p List.mem_cons_self
    revert hp
    cases p.2 with
    | arr items => exact fun h => absurd h Bool.false_ne_true
    | obj fields => exact fun h => absurd h Bool.false_ne_true
    | _ => exact fun _ => trivial

end NamespaceConfig

end Vsector.Models

namespace Vsector.Storage.Metadata

open Framework Models

variable {X : Externals} {fresh : UUID} {P : Postgres} {s : MetadataStore}
  {d : Dict String NamespaceConfig}

/-- What is documented of Postgres: `jsonb` keeps the fields of an object, though not their order,
and `SELECT` returns the rows in some order. -/
structure Postgres.Lawful (P : Postgres) : Prop where
  jsonb_obj : ∀ fields, (P.jsonb (.obj fields)).isObj = true
  jsonb_get : ∀ fields : List (String × Json), (∀ p ∈ fields, p.2.isFlat = true) →
    (fields.map Prod.fst).Nodup →
    ∀ key, (P.jsonb (.obj fields)).get? key = (Json.obj fields).get? key
  select_perm : ∀ rows, (P.select rows).Perm rows.values

/-! ## The dictionary -/

/-- What every call does to the namespaces, and answers. -/
def namespacesCall (d : Dict String NamespaceConfig) :
    MetadataCall → Dict String NamespaceConfig × Except Exc MetadataAnswer
  | .create ns =>
    match d.get? ns.name with
    | some _ => (d, .error (MetadataStore.alreadyExists ns.name))
    | none => (d.set ns.name ns, .ok (.stored ns))
  | .get name => (d, .ok (.found (d.get? name)))
  | .delete name =>
    match d.get? name with
    | none => (d, .error (.keyError name))
    | some _ => (d.pop name, .ok .deleted)
  | .list => (d, .ok (.listed d.values))
  | .upsert ns => (d.set ns.name ns, .ok (.stored ns))
  | .restart => (d, .ok .started)

/-- The same answer, but for the order of a list. -/
def Agree : Except Exc MetadataAnswer → Except Exc MetadataAnswer → Prop
  | .ok (.listed l), .ok (.listed l') => l.Perm l'
  | a, a' => a = a'

theorem Agree.of_eq {a a' : Except Exc MetadataAnswer} (h : a = a') : Agree a a' := by
  subst h
  rcases a with e | a
  · rfl
  · cases a <;> first | rfl | exact List.Perm.refl _

/-! ## The file -/

namespace MetadataStore

theorem loadNamespaces_dump (hu : ∀ u : UUID, X.uuid u.text = some u)
    (l : List (String × NamespaceConfig)) (e : Dict String NamespaceConfig) :
    loadNamespaces X fresh e (l.map fun p => (p.1, p.2.modelDump)) = l.foldl
      (fun e p => e.set p.1 p.2) e := by
  induction l generalizing e with
  | nil => rfl
  | cons p l ih =>
    rw [List.map_cons, loadNamespaces, NamespaceConfig.modelValidate_modelDump hu]
    exact ih _

theorem fileDocument_keysNodup (d : Dict String NamespaceConfig) :
    (Json.obj (d.entries.map fun p => (p.1, p.2.modelDump))).KeysNodup := by
  refine ⟨?_, ?_⟩
  · rw [List.map_map]
    exact d.nodup
  · induction d.entries with
    | nil => trivial
    | cons p l ih => exact ⟨p.2.modelDump_keysNodup, ih⟩

/-- The file holds what was written to it. -/
theorem readFile_fileText (hX : X.FloatReads) (hu : ∀ u : UUID, X.uuid u.text = some u)
    {w : MetadataWorld} (hpath : w.hasPath = true) (hfile : w.file = some (fileText X d)) :
    readFile X fresh w = d := by
  rw [readFile, hpath, hfile]
  dsimp only
  rw [fileText, Json.loads_pretty hX (fileDocument_keysNodup d)]
  dsimp only
  rw [loadNamespaces_dump hu, Dict.foldl_set_entries]

/-- The store uses its file, which holds its namespaces, and no database. -/
structure FileHolds (X : Externals) (fresh : UUID) (P : Postgres) (d : Dict String NamespaceConfig)
    (s : MetadataStore) :
    Prop where
  backend : s.backend = .json d
  path : s.world.hasPath = true
  noTable : s.world.hasDsn = true → ∃ e, listTable X fresh P s.world.table = .error e
  file : readFile X fresh s.world = d

theorem fileHolds_init {w : MetadataWorld} (hpath : w.hasPath = true)
    (htable : w.hasDsn = true → ∃ e, listTable X fresh P w.table = .error e) :
    FileHolds X fresh P (readFile X fresh w) (init X fresh P w) := by
  have hinit : init X fresh P w = ⟨w, .json (readFile X fresh w)⟩ := by
    rw [MetadataStore.init]
    split
    · rename_i hdsn
      obtain ⟨e, he⟩ := htable hdsn
      rw [he]
    · rfl
  rw [hinit]
  exact ⟨rfl, hpath, htable, rfl⟩

theorem FileHolds.persist (hX : X.FloatReads) (hu : ∀ u : UUID, X.uuid u.text = some u)
    (h : FileHolds X fresh P d s) (d' : Dict String NamespaceConfig) :
    FileHolds X fresh P d' (persist X s.world d') := by
  have hpersist : MetadataStore.persist X s.world d' =
      ⟨{ s.world with file := some (fileText X d') }, .json d'⟩ := by
    rw [MetadataStore.persist, if_pos h.path]
  rw [hpersist]
  exact ⟨rfl, h.path, h.noTable, readFile_fileText hX hu h.path rfl⟩

/-- The file backend is the dictionary, call by call. -/
theorem file_refines (hX : X.FloatReads) (hu : ∀ u : UUID, X.uuid u.text = some u)
    (h : FileHolds X fresh P d s) (c : MetadataCall) :
    (call X fresh P s c).2 = (namespacesCall d c).2 ∧
      FileHolds X fresh P (namespacesCall d c).1 (call X fresh P s c).1 := by
  obtain ⟨w, backend⟩ := s
  obtain rfl : backend = .json d := h.backend
  cases c with
  | create ns =>
    cases hk : d.get? ns.name with
    | some old =>
      simp only [call, jsonCall, namespacesCall, hk]
      exact ⟨trivial, h⟩
    | none =>
      simp only [call, jsonCall, namespacesCall, hk]
      exact ⟨trivial, h.persist hX hu _⟩
  | get name => exact ⟨rfl, h⟩
  | delete name =>
    cases hk : d.get? name with
    | none =>
      simp only [call, jsonCall, namespacesCall, hk]
      exact ⟨trivial, h⟩
    | some old =>
      simp only [call, jsonCall, namespacesCall, hk]
      exact ⟨trivial, h.persist hX hu _⟩
  | list => exact ⟨rfl, h⟩
  | upsert ns => exact ⟨rfl, h.persist hX hu _⟩
  | restart =>
    refine ⟨rfl, ?_⟩
    have hinit : FileHolds X fresh P (readFile X fresh w) (init X fresh P w) :=
      fileHolds_init h.path h.noTable
    rwa [h.file] at hinit

/-! ## The table -/

theorem mapM_validateRow {l : List Json}
    (h : ∀ j ∈ l, (NamespaceConfig.modelValidate X fresh j).isSome = true) :
    l.mapM (validateRow X fresh) = .ok (l.filterMap (NamespaceConfig.modelValidate X fresh)) := by
  induction l with
  | nil => rfl
  | cons j l ih =>
    obtain ⟨ns, hns⟩ := Option.isSome_iff_exists.mp (h j List.mem_cons_self)
    rw [List.mapM_cons, ih fun j' hj' => h j' (List.mem_cons_of_mem _ hj'),
      List.filterMap_cons_some hns, validateRow, hns]
    rfl

/-- The rows are read as the namespaces, name by name. -/
def RowsHold (X : Externals) (fresh : UUID) (rows : NamespaceTable)
    (d : Dict String NamespaceConfig) : Prop :=
  rows.mapValues (NamespaceConfig.modelValidate X fresh) = d.mapValues some

theorem RowsHold.get? {rows : NamespaceTable} (h : RowsHold X fresh rows d) (name : String) :
    (rows.get? name).map (NamespaceConfig.modelValidate X fresh) = (d.get? name).map some := by
  rw [← Dict.get?_mapValues, ← Dict.get?_mapValues, h]

theorem RowsHold.set {rows : NamespaceTable} (hP : P.Lawful)
    (hu : ∀ u : UUID, X.uuid u.text = some u) (h : RowsHold X fresh rows d) (ns : NamespaceConfig) :
    RowsHold X fresh (rows.set ns.name (P.jsonb ns.modelDump)) (d.set ns.name ns) := by
  have hread : NamespaceConfig.modelValidate X fresh (P.jsonb ns.modelDump) = some ns := by
    obtain ⟨fields, hfields, hflat, hkeys⟩ := ns.modelDump_fields
    rw [← NamespaceConfig.modelValidate_modelDump hu fresh ns, hfields]
    exact NamespaceConfig.modelValidate_congr (hP.jsonb_obj fields)
      (hP.jsonb_get fields hflat hkeys)
  rw [RowsHold, Dict.mapValues_set, Dict.mapValues_set, hread, h]

theorem RowsHold.pop {rows : NamespaceTable} (h : RowsHold X fresh rows d) (name : String) :
    RowsHold X fresh (rows.pop name) (d.pop name) := by
  rw [RowsHold, Dict.mapValues_pop, Dict.mapValues_pop, h]

theorem RowsHold.list {rows : NamespaceTable} (hP : P.Lawful) (h : RowsHold X fresh rows d) :
    ∃ l, listTable X fresh P (some rows) = .ok l ∧ l.Perm d.values := by
  have hvalues : rows.values.map (NamespaceConfig.modelValidate X fresh) = d.values.map some := by
    rw [← Dict.values_mapValues, h, Dict.values_mapValues]
  have hsome : ∀ j ∈ P.select rows, (NamespaceConfig.modelValidate X fresh j).isSome = true := by
    intro j hj
    have hj := List.mem_map_of_mem (f := NamespaceConfig.modelValidate X fresh)
      ((hP.select_perm rows).mem_iff.mp hj)
    rw [hvalues] at hj
    obtain ⟨ns, -, hns⟩ := List.mem_map.mp hj
    rw [← hns]
    rfl
  refine ⟨_, mapM_validateRow hsome, ((hP.select_perm rows).filterMap _).trans (List.Perm.of_eq ?_)⟩
  calc rows.values.filterMap (NamespaceConfig.modelValidate X fresh)
      = (rows.values.map (NamespaceConfig.modelValidate X fresh)).filterMap id := by
        rw [List.filterMap_map]; rfl
    _ = (d.values.map some).filterMap id := by rw [hvalues]
    _ = d.values := by rw [List.filterMap_map]; exact List.filterMap_some

/-- The store uses the table, whose rows hold its namespaces. -/
structure TableHolds (X : Externals) (fresh : UUID) (d : Dict String NamespaceConfig)
    (s : MetadataStore) : Prop where
  backend : s.backend = .postgres
  dsn : s.world.hasDsn = true
  table : ∃ rows, s.world.table = some rows ∧ RowsHold X fresh rows d

theorem tableHolds_init {w : MetadataWorld} (hP : P.Lawful) (hdsn : w.hasDsn = true)
    {rows : NamespaceTable} (htable : w.table = some rows) (hrows : RowsHold X fresh rows d) :
    TableHolds X fresh d (init X fresh P w) := by
  obtain ⟨l, hl, -⟩ := hrows.list hP
  have hinit : init X fresh P w = ⟨w, .postgres⟩ := by
    rw [MetadataStore.init, if_pos hdsn, htable, hl]
  rw [hinit]
  exact ⟨rfl, hdsn, rows, htable, hrows⟩

/-- The table backend is the dictionary, call by call. -/
theorem table_refines (hP : P.Lawful) (hu : ∀ u : UUID, X.uuid u.text = some u)
    (h : TableHolds X fresh d s) (c : MetadataCall) :
    Agree (call X fresh P s c).2 (namespacesCall d c).2 ∧
      TableHolds X fresh (namespacesCall d c).1 (call X fresh P s c).1 := by
  obtain ⟨⟨hasDsn, hasPath, file, table⟩, backend⟩ := s
  obtain rfl : backend = .postgres := h.backend
  obtain ⟨rows, rfl : table = some rows, hrows⟩ := h.table
  cases c with
  | create ns =>
    have hget := hrows.get? ns.name
    cases hk : d.get? ns.name with
    | some old =>
      rw [hk] at hget
      obtain ⟨config, hconfig, -⟩ := Option.map_eq_some_iff.mp hget
      simp only [call, postgresCall, namespacesCall, ensureTable, Option.getD_some, hk, hconfig]
      exact ⟨rfl, rfl, h.dsn, rows, rfl, hrows⟩
    | none =>
      rw [hk] at hget
      have hconfig := Option.map_eq_none_iff.mp hget
      simp only [call, postgresCall, namespacesCall, ensureTable, Option.getD_some, hk, hconfig]
      exact ⟨rfl, rfl, h.dsn, _, rfl, hrows.set hP hu ns⟩
  | get name =>
    have hget := hrows.get? name
    refine ⟨Agree.of_eq ?_, h⟩
    simp only [call, postgresCall, namespacesCall]
    cases hk : d.get? name with
    | none =>
      rw [hk] at hget
      rw [Option.map_eq_none_iff.mp hget]
    | some ns =>
      rw [hk] at hget
      obtain ⟨config, hconfig, hns⟩ := Option.map_eq_some_iff.mp hget
      rw [hconfig]
      dsimp only
      rw [validateRow, hns]
      rfl
  | delete name =>
    have hget := hrows.get? name
    cases hk : d.get? name with
    | none =>
      rw [hk] at hget
      simp only [call, postgresCall, namespacesCall, hk, Option.map_eq_none_iff.mp hget]
      exact ⟨rfl, h⟩
    | some ns =>
      rw [hk] at hget
      obtain ⟨config, hconfig, -⟩ := Option.map_eq_some_iff.mp hget
      simp only [call, postgresCall, namespacesCall, hk, hconfig]
      exact ⟨rfl, rfl, h.dsn, _, rfl, hrows.pop name⟩
  | list =>
    obtain ⟨l, hl, hperm⟩ := hrows.list hP
    refine ⟨?_, h⟩
    simp only [call, postgresCall, namespacesCall, hl]
    exact hperm
  | upsert ns => exact ⟨rfl, rfl, h.dsn, _, rfl, hrows.set hP hu ns⟩
  | restart => exact ⟨rfl, tableHolds_init hP h.dsn rfl hrows⟩

/-! ## Runs -/

/-- A store that keeps a new file and one that uses an empty table answer every run of calls alike,
but for the order of the lists. -/
theorem backends_agree (hX : X.FloatReads) (hu : ∀ u : UUID, X.uuid u.text = some u) (hP : P.Lawful)
    (w w' : MetadataWorld) (hdsn : w.hasDsn = false) (hpath : w.hasPath = true)
    (hfile : w.file = none) (hdsn' : w'.hasDsn = true) (htable : w'.table = some ∅)
    (calls : List MetadataCall) (i : ℕ) (a a' : Except Exc MetadataAnswer)
    (ha : (answers (call X fresh P) (init X fresh P w) calls)[i]? = some a)
    (ha' : (answers (call X fresh P) (init X fresh P w') calls)[i]? = some a') : Agree a' a := by
  have hempty : readFile X fresh w = ∅ := by
    rw [readFile, hpath, hfile]
  have hw : FileHolds X fresh P (readFile X fresh w) (init X fresh P w) :=
    fileHolds_init hpath fun h => absurd (hdsn.symm.trans h) Bool.false_ne_true
  have hw' : TableHolds X fresh ∅ (init X fresh P w') := tableHolds_init hP hdsn' htable rfl
  rw [hempty] at hw
  have hrun := answers_related (C := fun _ => True) (A := fun _ a' a => Agree a' a)
    (R := fun t' t => ∃ d, TableHolds X fresh d t' ∧ FileHolds X fresh P d t) (call X fresh P)
    (call X fresh P) calls
    (fun t' t c _ ⟨d, ht', ht⟩ => by
      obtain ⟨ha', ht'⟩ := table_refines hP hu ht' c
      obtain ⟨ha, ht⟩ := file_refines hX hu ht c
      rw [ha]
      exact ⟨ha', _, ht', ht⟩) ⟨∅, hw', hw⟩ fun _ _ => trivial
  obtain ⟨c, hc⟩ : ∃ c, calls[i]? = some c := by
    have hlen := (List.getElem?_eq_some_iff.mp ha).1
    rw [length_answers] at hlen
    exact ⟨calls[i], List.getElem?_eq_getElem hlen⟩
  exact hrun.1 i c a' a hc ha' ha

section

/-- `jsonb` keeps the fields by the length of their keys and then by name, and `SELECT` starts with
the newest row. -/
private def sortedPostgres : Postgres where
  jsonb v := match v with
    | .obj fields =>
      .obj (fields.insertionSort fun p q => p.1.length < q.1.length ∨
        p.1.length = q.1.length ∧ p.1 ≤ q.1)
    | v => v
  select rows := rows.values.reverse

private theorem lookup_perm {l l' : List (String × Json)} (h : l.Perm l')
    (hkeys : (l.map Prod.fst).Nodup) (key : String) :
    l.lookup key = l'.lookup key := by
  induction h with
  | nil => rfl
  | cons p _ ih =>
    rw [List.map_cons, List.nodup_cons] at hkeys
    obtain ⟨k, v⟩ := p
    rw [List.lookup_cons, List.lookup_cons, ih hkeys.2]
  | swap p q l =>
    obtain ⟨k, v⟩ := p
    obtain ⟨k', v'⟩ := q
    rw [List.map_cons, List.map_cons, List.nodup_cons] at hkeys
    have hne : k' ≠ k := fun h => hkeys.1 (h ▸ List.mem_cons_self)
    rw [List.lookup_cons, List.lookup_cons, List.lookup_cons, List.lookup_cons]
    by_cases hk : key = k
    · have hother : (key == k') = false := beq_false_of_ne fun h => hne (h.symm.trans hk)
      rw [hother]
    · rw [beq_false_of_ne hk]
  | trans h _ ih ih' => rw [ih hkeys, ih' ((h.map _).nodup_iff.mp hkeys)]

private theorem sortedPostgres_lawful : sortedPostgres.Lawful where
  jsonb_obj _ := rfl
  jsonb_get fields _ hkeys key :=
    (lookup_perm (List.perm_insertionSort _ fields).symm hkeys key).symm
  select_perm rows := List.reverse_perm rows.values

private def someNamespace (name : String) (h : matchesNamePattern name = true) :
    NamespaceConfig where
  name := name
  dimension := 3
  distanceMetric := .cosine
  indexType := .flat
  replicationFactor := 3
  requiredAcks := 1
  shardCount := 8
  compression := .none
  tenantId := ⟨"00000000-0000-4000-8000-000000000000", by decide⟩
  expectedRecords := none
  name_ok := h
  dimension_ok := by decide
  replicationFactor_ok := by decide
  requiredAcks_ok := by decide
  shardCount_ok := by decide
  expectedRecords_ok := fun n hn => nomatch hn

private def olderNamespace : NamespaceConfig := someNamespace "a" (by decide)
private def newerNamespace : NamespaceConfig := someNamespace "b" (by decide)

/-- The answers to two creations and a list. -/
private def listedAnswers (w : MetadataWorld) : List (Except Exc MetadataAnswer) :=
  answers (call readable olderNamespace.tenantId sortedPostgres)
    (init readable olderNamespace.tenantId sortedPostgres w)
    [.create olderNamespace, .create newerNamespace, .list]

/-- One backend lists the older namespace first, the other the newer. -/
theorem backends_agree_listed :
    (listedAnswers ⟨false, true, none, none⟩)[2]? =
      some (.ok (.listed [olderNamespace, newerNamespace])) ∧
    (listedAnswers ⟨true, true, none, some ∅⟩)[2]? =
      some (.ok (.listed [newerNamespace, olderNamespace])) ∧
    Agree (.ok (.listed [newerNamespace, olderNamespace]))
      (.ok (.listed [olderNamespace, newerNamespace])) := by
  have hfile : (listedAnswers ⟨false, true, none, none⟩)[2]? =
      some (.ok (.listed [olderNamespace, newerNamespace])) := by
    decide +kernel
  have htable : (listedAnswers ⟨true, true, none, some ∅⟩)[2]? =
      some (.ok (.listed [newerNamespace, olderNamespace])) := by
    decide +kernel
  exact ⟨hfile, htable, backends_agree readable_floatReads fractional_lawful.uuid_text
    sortedPostgres_lawful ⟨false, true, none, none⟩ ⟨true, true, none, some ∅⟩ rfl rfl rfl rfl rfl
    [.create olderNamespace, .create newerNamespace, .list] 2 _ _ hfile htable⟩

end

/-- A database in which the table is not there yet is not used, whatever is done and however often
the process is started: the namespaces are in the file, and the table is never created. -/
theorem untouched_database (hX : X.FloatReads) (hu : ∀ u : UUID, X.uuid u.text = some u)
    (w : MetadataWorld) (hpath : w.hasPath = true) (htable : w.table = none)
    (calls : List MetadataCall) :
    let s := afterCalls (call X fresh P) (init X fresh P w) calls
    s.world.table = none ∧ s.backend = .json (readFile X fresh s.world) := by
  have hfile : FileHolds X fresh P (readFile X fresh w) (init X fresh P w) :=
    fileHolds_init hpath fun _ => ⟨undefinedTable, by rw [htable]; rfl⟩
  have hstart : (init X fresh P w).world.table = none := by
    rw [MetadataStore.init]
    split
    · split <;> exact htable
    · exact htable
  have hkeep : ∀ s c, True → (s.world.table = none ∧ ∃ d, FileHolds X fresh P d s) →
      (call X fresh P s c).1.world.table = none ∧
      ∃ d, FileHolds X fresh P d (call X fresh P s c).1 := by
    rintro s c - ⟨hnone, d, hs⟩
    refine ⟨?_, _, (file_refines hX hu hs c).2⟩
    obtain ⟨w, backend⟩ := s
    obtain rfl : backend = .json d := hs.backend
    have hpersist : ∀ d', (persist X w d').world.table = none := by
      intro d'
      rw [persist]
      split <;> exact hnone
    cases c with
    | create ns =>
      simp only [call, jsonCall]
      split
      · exact hnone
      · exact hpersist _
    | delete name =>
      simp only [call, jsonCall]
      split
      · exact hnone
      · exact hpersist _
    | upsert ns => exact hpersist _
    | restart =>
      show (init X fresh P w).world.table = none
      rw [MetadataStore.init]
      split
      · split <;> exact hnone
      · exact hnone
    | _ => exact hnone
  obtain ⟨hnone, d, hs⟩ :=
    afterCalls_invariant (C := fun _ => True) (call X fresh P) calls hkeep ⟨hstart, _, hfile⟩
    fun _ _ => trivial
  exact ⟨hnone, by rw [hs.backend, hs.file]⟩

/-- A crash while the file is being written leaves the first `k` characters of the text: a new
process has all of the namespaces where that is all of the text, and none otherwise. -/
theorem crash_all_or_nothing (hX : X.FloatReads) (hu : ∀ u : UUID, X.uuid u.text = some u)
    (w : MetadataWorld) (hpath : w.hasPath = true) (d : Dict String NamespaceConfig) (k : ℕ) :
    readFile X fresh { w with file := some ((fileText X d).take k) } =
      if k < (fileText X d).length then ∅ else d := by
  split
  · rename_i hk
    have hrest : (fileText X d).drop k ≠ [] := by
      rw [ne_eq, List.drop_eq_nil_iff]
      omega
    have hcut : Json.loads X ((fileText X d).take k) = none :=
      Json.loads_cut hX (fileDocument_keysNodup d) (List.take_append_drop k _) hrest
    rw [readFile, hpath]
    dsimp only
    rw [hcut]
  · rename_i hk
    rw [List.take_of_length_le (Nat.le_of_not_lt hk)]
    exact readFile_fileText hX hu hpath rfl

section

/-- One namespace, and a process that is started again. -/
theorem untouched_after_create :
    let a := someNamespace "a" (by decide)
    let s := afterCalls (call readable a.tenantId sortedPostgres)
      (init readable a.tenantId sortedPostgres ⟨true, true, none, none⟩) [.create a, .restart]
    s.world.table = none ∧ s.backend = .json (readFile readable a.tenantId s.world) := by
  intro a
  exact untouched_database readable_floatReads fractional_lawful.uuid_text
    ⟨true, true, none, none⟩ rfl rfl
    [.create a, .restart]

/-- The first ten characters of the file. -/
theorem crash_after_ten_characters :
    let a := someNamespace "a" (by decide)
    let d : Dict String NamespaceConfig := (∅ : Dict String NamespaceConfig).set "a" a
    readFile readable a.tenantId ⟨false, true, some ((fileText readable d).take 10), none⟩ =
      if 10 < (fileText readable d).length then ∅ else d := by
  intro a d
  exact crash_all_or_nothing readable_floatReads fractional_lawful.uuid_text
    ⟨false, true, none, none⟩ rfl d 10

end

end MetadataStore

/-! ## The endpoints -/

/-- What the endpoints keep of a namespace. -/
def endpointView (d : Dict String NamespaceConfig) : Api.MetadataStore :=
  d.mapValues fun c => (c.toNamespace, c.shardCount)

/-- `create_namespace` and `delete_namespace` do to the metadata what the backends do. -/
theorem endpoints_metadata (lm : Sharding.ShardLifecycleManager) (nodeId : String)
    (e : Sharding.InMemoryEtcd) (d : Dict String NamespaceConfig) (ns : NamespaceConfig)
    (name : String) :
    (Api.createNamespace lm nodeId (endpointView d) e ns.toNamespace ns.shardCount).1 =
        endpointView (namespacesCall d (.create ns)).1 ∧
      (Api.deleteNamespace (endpointView d) e name).1 =
        endpointView (namespacesCall d (.delete name)).1 := by
  have hget : ∀ name, (endpointView d).get? name = (d.get? name).map fun c =>
      (c.toNamespace, c.shardCount) :=
    Dict.get?_mapValues _ d
  constructor
  · rw [Api.createNamespace, show ns.toNamespace.name = ns.name from rfl, hget, namespacesCall]
    cases d.get? ns.name with
    | none =>
      exact (Dict.mapValues_set (fun c : NamespaceConfig => (c.toNamespace, c.shardCount))
        d ns.name ns).symm
    | some old => rfl
  · rw [Api.deleteNamespace, hget, namespacesCall]
    cases d.get? name with
    | none => rfl
    | some old =>
      exact (Dict.mapValues_pop (fun c : NamespaceConfig =>
        (c.toNamespace, c.shardCount)) d name).symm

end Vsector.Storage.Metadata
