import SchemaCatalog.Json.Reader

/-! The ways in which catalog operations fail. Sources report their failures in the same terms. -/

namespace SchemaCatalog

open Text (quoted)

inductive CatalogError where
  | tableNotFound (name : String)
  | schemaNotFound (name : String)
  | sourceNotFound (name : String)
  | backend (detail : String)
  | nilConnection (name : String)
  | invalidOperation (detail : String)
  | config (detail : String)
  | serialization (detail : String)
deriving DecidableEq, Repr

namespace CatalogError

def message : CatalogError → String
  | tableNotFound name => s!"Could not find that table: {name}"
  | schemaNotFound name => s!"Could not find a Schema by that name {quoted name}"
  | sourceNotFound name => s!"Could not find a DataSource for that table {quoted name}"
  | backend detail => s!"Backend failure: {detail}"
  | nilConnection name => s!"Could not establish a connection for {name}"
  | invalidOperation detail => s!"Invalid operation: {detail}"
  | config detail => s!"Configuration error: {detail}"
  | serialization detail => s!"Serialization error: {detail}"

def kind : CatalogError → String
  | tableNotFound _ => "TableNotFound"
  | schemaNotFound _ => "SchemaNotFound"
  | sourceNotFound _ => "SourceNotFound"
  | backend _ => "Backend"
  | nilConnection _ => "NilConnection"
  | invalidOperation _ => "InvalidOperation"
  | config _ => "Config"
  | serialization _ => "Serialization"

def text : CatalogError → String
  | tableNotFound s | schemaNotFound s | sourceNotFound s | backend s | nilConnection s
  | invalidOperation s | config s | serialization s => s

def debugText (e : CatalogError) : String :=
  s!"{e.kind}({quoted e.text})"

/-- Misses are expected while names are resolved. -/
def isNotFound : CatalogError → Bool
  | tableNotFound _ | schemaNotFound _ | sourceNotFound _ => true
  | _ => false

/-- An attachment that would put a schema below itself. -/
def ownDescendant (child parent : String) : CatalogError :=
  .invalidOperation s!"cannot attach schema {quoted child} under its own descendant {quoted parent}"

def schemaExists (name : String) : CatalogError :=
  .invalidOperation s!"schema {quoted name} already exists"

def unknownSourceType (source type : String) : CatalogError :=
  .config s!"source {quoted source} has unknown type {quoted type}"

def unknownSource (schema source : String) : CatalogError :=
  .config s!"schema {quoted schema} names unknown source {quoted source}"

def badTables (source : String) (e : Json.ReadError) : CatalogError :=
  .config s!"memory source {quoted source}: bad tables setting: {e.message}"

def unreadable (e : Json.ReadError) : CatalogError :=
  .serialization e.message

end CatalogError

end SchemaCatalog
