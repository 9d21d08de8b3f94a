import SchemaCatalog.Directory
import SchemaCatalog.QualifiedName
import SchemaCatalog.Source.Backend

/-!
Schema nodes: named places in a catalog that own tables, may have a source and a configuration, and
see the tables of the nodes below them.
-/

namespace SchemaCatalog

structure Node where
  id : NodeId
  name : String
  config : Option SourceConfig := none
  source : Option SourceId := none
  /-- How long the node stays current. -/
  window : Millis := defaultWindow
  parent : Option NodeId := none
  children : NameMap NodeId := ∅
  directory : Directory := {}
  refreshedAt : Option Instant := none
deriving Inhabited

namespace Node

/-- The node that always answers for its own tables. -/
def systemName : String := "schema"

def hasSource (n : Node) : Bool :=
  n.source.isSome

def tables (n : Node) : List String :=
  n.directory.names

def childNames (n : Node) : List String :=
  n.children.names

def debugText (n : Node) : String :=
  s!"Schema \x7b id: {n.id.debugText}, name: {Text.quoted n.name}, " ++
    s!"has_source: {n.hasSource}, .. \x7d"

/-! ### Resolution -/

/-- The lowercase form of a reference, without the schema if it is qualified. -/
def plainName (name : String) : String :=
  let given := Text.lowercase name
  match QualifiedName.ofString? given with
  | some qualified => qualified.table
  | none => given

/-- The table behind an alias of the node's configuration. -/
def aliased? (n : Node) (name : String) : Option Table := do
  let conf ← n.config
  let target ← conf.aliasTarget? name
  n.directory.tables.get? (Text.lowercase target)

/-- Resolves a name as given, then without its schema, then as an alias. -/
def table (n : Node) (name : String) : Except CatalogError Table :=
  let found := n.directory.tables.get? (Text.lowercase name) <|>
    n.directory.tables.get? (plainName name) <|> n.aliased? (plainName name)
  match found with
  | some t => .ok t
  | none => .error (.tableNotFound (plainName name))

def ownerOf (n : Node) (name : String) : Option NodeId :=
  n.directory.owners.get? (Text.lowercase name)

def knows (n : Node) (name : String) : Bool :=
  n.directory.knows name

/-- Whether the node's configuration lets a table in. -/
def allows (n : Node) (name : String) : Bool :=
  match n.config with
  | some conf => conf.allows name
  | none => true

/-! ### Registration -/

def register (n : Node) (name : String) (owner : NodeId) (t : Table) : Node :=
  { n with directory := n.directory.register name owner t }

def unregister (n : Node) (name : String) : Node :=
  { n with directory := n.directory.unregister name }

/-- The configured partitions of a table that is added by hand. The table's own come first, and the
plain partition count last. -/
def partitioned (n : Node) (t : Table) : Table :=
  match n.config with
  | none => t
  | some conf =>
    match t.ownPartition? <|> conf.partitionFor? t.name with
    | some p => t.setPartition p
    | none =>
      if 0 < conf.partitionCount then { t with partitionCount := conf.partitionCount.toNat } else t

def claim (n : Node) (t : Table) : Table :=
  { n.partitioned t.assignId with schema := some n.id, window := some n.window }

/-- A described table made ready to be owned by the node, under the spelling that the source
listed. -/
def adopt (n : Node) (listed : String) (t : Table) : Table :=
  let named := { t with
    name := Text.lowercase t.name
    originalName := if t.originalName = "" then listed else t.originalName
    schema := some n.id
    window := some n.window
    hasSource := true }
  match n.config.bind (·.partitionFor? (Text.lowercase listed)) with
  | some p => named.assignId.setPartition p
  | none => named.assignId

/-- Takes over the entries of a child that the node does not know. -/
def absorb (n child : Node) : Node :=
  child.directory.names.foldl
    (fun n name =>
      if n.knows name then n
      else
        match child.directory.tables.get? name with
        | some t => n.register name ((child.directory.owners.get? name).getD child.id) t
        | none => n)
    n

/-- Takes over every entry of a child. -/
def mergeChild (n child : Node) : Node :=
  child.directory.tables.entries.foldl
    (fun n entry =>
      n.register entry.1 ((child.directory.owners.get? entry.1).getD child.id) entry.2)
    n

/-! ### Freshness -/

def stamp (n : Node) (now : Instant) : Node :=
  { n with refreshedAt := some now }

/-- `none` when the cut-off lies outside the calendar. -/
def since (n : Node) (window : Millis) (now : Instant) : Option Bool :=
  Instant.isWithin n.refreshedAt window now

def isCurrent (n : Node) (now : Instant) : Option Bool :=
  n.since n.window now

end Node

end SchemaCatalog
