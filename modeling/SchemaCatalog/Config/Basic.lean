import SchemaCatalog.Json.Basic
import SchemaCatalog.Json.Printer
import SchemaCatalog.Text.AsciiCase
import SchemaCatalog.Text.Quoted
import SchemaCatalog.Time.Instant

/-!
The configuration of a catalog: its virtual schemas, the sources that they are made of, and what is
known of each source's tables before it is asked.
-/

namespace SchemaCatalog

/-- A range of keys, without its right end. -/
structure Partition where
  id : String := ""
  left : String := ""
  right : String := ""
deriving DecidableEq, Repr, Inhabited

structure TablePartition where
  table : String
  keys : List String := []
  partitions : List Partition := []
deriving DecidableEq, Repr, Inhabited

structure ServerConfig where
  name : String := ""
  source : String := ""
  address : String := ""
  settings : NameMap Json := ∅
deriving Inhabited

structure SourceConfig where
  name : String
  /-- The key under which a registry knows how to build the source. -/
  type : String := ""
  /-- If there are any, only these tables are loaded. -/
  tablesToLoad : List String := []
  /-- Other names of tables, with the names that they stand for. -/
  tableAliases : NameMap String := ∅
  nodes : List ServerConfig := []
  hosts : List String := []
  settings : NameMap Json := ∅
  partitions : List TablePartition := []
  /-- The partition count of every table without partitions of its own. -/
  partitionCount : UInt64 := 0
deriving Inhabited

/-- A virtual schema and the names of its sources. -/
structure SchemaConfig where
  name : String
  sources : List String := []
  /-- Servers found at run time, which are not stored. -/
  servers : List String := []
deriving DecidableEq, Repr, Inhabited

structure CatalogConfig where
  schemas : List SchemaConfig := []
  sources : List SourceConfig := []
  nodes : List ServerConfig := []
deriving Inhabited

/-- A window reaches from a moment in the past: what was refreshed within five minutes is
current. -/
def defaultWindow : Millis := -300000

namespace SourceConfig

/-- An empty list lets every table in. -/
def allows (conf : SourceConfig) (table : String) : Bool :=
  conf.tablesToLoad.isEmpty || conf.tablesToLoad.any (Text.sameAsciiCase · table)

def partitionFor? (conf : SourceConfig) (table : String) : Option TablePartition :=
  conf.partitions.find? fun p => Text.sameAsciiCase p.table table

def aliasTarget? (conf : SourceConfig) (name : String) : Option String :=
  (conf.tableAliases.entries.find? fun e => Text.sameAsciiCase e.1 name).map (·.2)

def display (conf : SourceConfig) : String :=
  s!"<sourceconfig name={Text.quoted conf.name} type={Text.quoted conf.type} " ++
    s!"settings={(Json.ofMap conf.settings).text}/>"

end SourceConfig

namespace CatalogConfig

def source? (config : CatalogConfig) (name : String) : Option SourceConfig :=
  config.sources.find? (·.name == name)

/-- The servers listed for a source, then the source's own. -/
def serversOf (config : CatalogConfig) (source : String) : List ServerConfig :=
  config.nodes.filter (·.source == source) ++ ((config.source? source).map (·.nodes)).getD []

end CatalogConfig

end SchemaCatalog
