import SchemaCatalog.Catalog.Action

/-! Administrative commands, which address schemas by name. -/

namespace SchemaCatalog

inductive Command where
  /-- Creates an empty schema without a source, below `parent` if that is given. -/
  | createSchema (name : String) (parent : Option String)
  /-- Registers or replaces a table directly under a schema. -/
  | addTable (schema : String) (table : Table)
  | dropTable (schema table : String)
  | refresh (schema : String)

namespace Command

def display : Command → String
  | createSchema name _ => s!"create_schema({name})"
  | addTable schema table => s!"add_table({schema}.{table.name})"
  | dropTable schema table => s!"drop_table({schema}.{table})"
  | refresh schema => s!"refresh({schema})"

variable {σ : Type}

def resolve (name : String) : Action σ NodeId := do
  let c ← Action.catalog
  match c.byName? name with
  | some n => pure n.id
  | none => throw (.schemaNotFound (Text.lowercase name))

def run (backend : Backend σ) (now : Instant) : Command → Action σ Unit
  | createSchema name parent => do
    let c ← Action.catalog
    if (c.byName? name).isSome then throw (.schemaExists (Text.lowercase name))
    let above ← parent.mapM resolve
    let child ← Action.create name none
    match above with
    | some above => Action.attach above child
    | none => pure ()
  | addTable schema table => do
    let id ← resolve schema
    Action.addTable id table
  | dropTable schema table => do
    let id ← resolve schema
    discard (Action.drop id table)
  | refresh schema => do
    let id ← resolve schema
    Action.refresh backend now id

def apply (backend : Backend σ) (now : Instant) (command : Command) : Action σ Unit := do
  Action.log .debug s!"applying {command.display}"
  command.run backend now

end Command

end SchemaCatalog
