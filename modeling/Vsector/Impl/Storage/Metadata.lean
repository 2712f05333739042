import Vsector.Impl.Models.JsonLoads
import Vsector.Impl.Models.NamespaceConfig

/-!
# The metadata store

`MetadataStore` of `storage/metadata.py` with its two backends: a JSON file
that is written after every change, and a Postgres table. Which of them is
used is decided at every start: Postgres where it is configured, its driver is
there and all of the table can be read, and the file otherwise. What the code
takes from Postgres is a parameter. Failing writes of the file, and a
connection that is lost later, are left out.
-/

namespace Vsector.Storage.Metadata

open Framework Models

/-- The columns `name` and `config` of `vsector_namespaces`, whose primary key is `name`. -/
abbrev NamespaceTable := Dict String Json

structure Postgres where
  /-- A document, once it is stored in a `JSONB` column. -/
  jsonb : Json → Json
  /-- The column `config`, in the order in which `SELECT` returns the rows. -/
  select : NamespaceTable → List Json

/-- What is outside of the process. `table` is `none` before the table is created. -/
structure MetadataWorld where
  /-- A database is configured and there is a driver for it. -/
  hasDsn : Bool
  hasPath : Bool
  file : Option (List Char)
  table : Option NamespaceTable

inductive MetadataBackend where
  | json (data : Dict String NamespaceConfig)
  | postgres

structure MetadataStore where
  world : MetadataWorld
  backend : MetadataBackend

inductive MetadataCall where
  | create (ns : NamespaceConfig)
  | get (name : String)
  | delete (name : String)
  | list
  | upsert (ns : NamespaceConfig)
  /-- The process is started again. -/
  | restart

inductive MetadataAnswer where
  | stored (ns : NamespaceConfig)
  | found (ns : Option NamespaceConfig)
  | deleted
  | listed (namespaces : List NamespaceConfig)
  | started
deriving DecidableEq

namespace MetadataStore

/-- `ValueError` of `create`. -/
def alreadyExists (name : String) : Exc := .valueError s!"namespace {pyRepr name} already exists"

/-- What Postgres raises for a table that is not there. -/
def undefinedTable : Exc := .other "UndefinedTable" "relation \"vsector_namespaces\" does not exist"

variable (X : Externals) (fresh : UUID) (P : Postgres)

/-! ## `_JsonBackend` -/

/-- The loop over the file's entries: an exception ends it, and is only logged. -/
def loadNamespaces (data : Dict String NamespaceConfig) :
    List (String × Json) → Dict String NamespaceConfig
  | [] => data
  | (k, v) :: fields =>
    match NamespaceConfig.modelValidate X fresh v with
    | some ns => loadNamespaces (data.set k ns) fields
    | none => data

/-- What `_JsonBackend(path)` reads. -/
def readFile (w : MetadataWorld) : Dict String NamespaceConfig :=
  match w.hasPath, w.file with
  | true, some s =>
    match Json.loads X s with
    | some (.obj fields) => loadNamespaces X fresh ∅ fields
    | _ => ∅
  | _, _ => ∅

/-- The text `_persist` writes. -/
def fileText (data : Dict String NamespaceConfig) : List Char :=
  Json.pretty X 0 (.obj (data.entries.map fun p => (p.1, p.2.modelDump)))

/-- `_persist`. -/
def persist (w : MetadataWorld) (data : Dict String NamespaceConfig) : MetadataStore :=
  ⟨if w.hasPath then { w with file := some (fileText X data) } else w, .json data⟩

def jsonCall (w : MetadataWorld) (data : Dict String NamespaceConfig) :
    MetadataCall → MetadataStore × Except Exc MetadataAnswer
  | .create ns =>
    match data.get? ns.name with
    | some _ => (⟨w, .json data⟩, .error (alreadyExists ns.name))
    | none => (persist X w (data.set ns.name ns), .ok (.stored ns))
  | .get name => (⟨w, .json data⟩, .ok (.found (data.get? name)))
  | .delete name =>
    match data.get? name with
    | none => (⟨w, .json data⟩, .error (.keyError name))
    | some _ => (persist X w (data.pop name), .ok .deleted)
  | .list => (⟨w, .json data⟩, .ok (.listed data.values))
  | .upsert ns => (persist X w (data.set ns.name ns), .ok (.stored ns))
  | .restart => (⟨w, .json data⟩, .ok .started)

/-! ## `_PostgresBackend` -/

/-- `Namespace.model_validate` of a row's `config`. -/
def validateRow (config : Json) : Except Exc NamespaceConfig :=
  match NamespaceConfig.modelValidate X fresh config with
  | some ns => .ok ns
  | none => .error .validationError

/-- `list`. -/
def listTable (table : Option NamespaceTable) : Except Exc (List NamespaceConfig) :=
  match table with
  | none => .error undefinedTable
  | some rows => (P.select rows).mapM (validateRow X fresh)

/-- `_ensure_table`. -/
def ensureTable (w : MetadataWorld) : NamespaceTable := w.table.getD ∅

def postgresCall (w : MetadataWorld) : MetadataCall → MetadataStore × Except Exc MetadataAnswer
  | .create ns =>
    let rows := ensureTable w
    match rows.get? ns.name with
    | some _ => (⟨{ w with table := some rows }, .postgres⟩, .error (alreadyExists ns.name))
    | none =>
      (⟨{ w with table := some (rows.set ns.name (P.jsonb ns.modelDump)) }, .postgres⟩,
        .ok (.stored ns))
  | .get name =>
    (⟨w, .postgres⟩,
      match w.table with
      | none => .error undefinedTable
      | some rows =>
        match rows.get? name with
        | none => .ok (.found none)
        | some config => (validateRow X fresh config).map fun ns => .found (some ns))
  | .delete name =>
    match w.table with
    | none => (⟨w, .postgres⟩, .error undefinedTable)
    | some rows =>
      match rows.get? name with
      | none => (⟨w, .postgres⟩, .error (.keyError name))
      | some _ => (⟨{ w with table := some (rows.pop name) }, .postgres⟩, .ok .deleted)
  | .list => (⟨w, .postgres⟩, (listTable X fresh P w.table).map .listed)
  | .upsert ns =>
    (⟨{ w with table := some ((ensureTable w).set ns.name (P.jsonb ns.modelDump)) }, .postgres⟩,
      .ok (.stored ns))
  | .restart => (⟨w, .postgres⟩, .ok .started)

/-! ## `MetadataStore` -/

/-- `MetadataStore(path)`. -/
def init (w : MetadataWorld) : MetadataStore :=
  if w.hasDsn then
    match listTable X fresh P w.table with
    | .ok _ => ⟨w, .postgres⟩
    | .error _ => ⟨w, .json (readFile X fresh w)⟩
  else ⟨w, .json (readFile X fresh w)⟩

/-- A call of the backend in use. -/
def call (s : MetadataStore) (c : MetadataCall) : MetadataStore × Except Exc MetadataAnswer :=
  match c, s.backend with
  | .restart, _ => (init X fresh P s.world, .ok .started)
  | c, .json data => jsonCall X s.world data c
  | c, .postgres => postgresCall X fresh P s.world c

end MetadataStore

end Vsector.Storage.Metadata
