import SchemaCatalog.Source.Backend
import SchemaCatalog.Config.Stored

/-!
Sources whose tables are held in memory, in the order in which they were added. Tables may be
declared in the configuration of the source.
-/

namespace SchemaCatalog

structure MemorySource where
  name : String
  tables : List Table := []

namespace MemorySource

/-- A table takes the place of the one of its name. -/
def addTable (s : MemorySource) (t : Table) : MemorySource :=
  match s.tables.findIdx? (·.name == t.name) with
  | some place => { s with tables := s.tables.set place t }
  | none => { s with tables := s.tables ++ [t] }

def table? (s : MemorySource) (name : String) : Option Table :=
  s.tables.find? (·.name == Text.lowercase name)

def removeTable (s : MemorySource) (name : String) : Option Table × MemorySource :=
  (s.table? name, { s with tables := s.tables.eraseP (·.name == Text.lowercase name) })

def tableNames (s : MemorySource) : List String :=
  s.tables.map (·.name)

def connection? (s : MemorySource) (name : String) : Option Connection :=
  (s.table? name).map fun _ => ⟨s.name, Text.lowercase name⟩

/-- Answers never fail and leave the source as it is. -/
def kind : SourceKind MemorySource where
  list s := ({ names := s.tableNames }, s)
  describe name s := (.ok (s.table? name), s)
  openTable name s := (.ok (s.connection? name), s)

/-! ### Declared tables -/

structure ColumnSetting where
  name : String
  type : String := ""

structure TableSetting where
  name : String
  columns : List ColumnSetting := []

open Json (Reader Slot)

def ColumnSetting.slots : List (Slot ColumnSetting) := [
  .mandatory "name" Reader.string fun v c => { c with name := v },
  .optional "type" Reader.string fun v c => { c with type := v }]

def ColumnSetting.reader : Reader ColumnSetting :=
  Reader.record "ColumnSetting" slots { name := "" }

def TableSetting.slots : List (Slot TableSetting) := [
  .mandatory "name" Reader.string fun v t => { t with name := v },
  .optional "columns" (Reader.list ColumnSetting.reader) fun v t => { t with columns := v }]

def TableSetting.reader : Reader TableSetting :=
  Reader.record "TableSetting" slots { name := "" }

def TableSetting.toTable (setting : TableSetting) : Table :=
  let described := setting.columns.foldl
    (fun (t : Table) (c : ColumnSetting) => t.addFieldType c.name (.ofName c.type))
    (.new setting.name)
  described.setColumnsFromFields

/-- The source with the tables that its settings declare. -/
def ofConfig (conf : SourceConfig) : Except CatalogError MemorySource :=
  match conf.settings.get? "tables" with
  | none => .ok { name := conf.name }
  | some declared =>
    match (Reader.list TableSetting.reader).ofValue declared with
    | .error e => .error (.badTables conf.name e)
    | .ok settings =>
      .ok (settings.foldl (fun s setting => s.addTable setting.toTable) { name := conf.name })

end MemorySource

end SchemaCatalog
