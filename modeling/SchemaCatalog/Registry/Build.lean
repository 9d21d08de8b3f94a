import SchemaCatalog.Catalog.Action
import SchemaCatalog.Registry.Basic

/-!
Building the schemas that a configuration describes. Each becomes a node without a source, with a
node below it for every source that it names.
-/

namespace SchemaCatalog.Registry

variable {σ : Type}

/-- Puts the node of one named source below a root. It is refreshed before it is attached. -/
def buildSource (r : Registry σ) (backend : Backend σ) (now : Instant) (config : CatalogConfig)
    (schema : SchemaConfig) (root : NodeId) (name : String) : Action σ Unit := do
  match config.source? name with
  | none => throw (.unknownSource schema.name name)
  | some conf =>
    let source ← Action.ofSources (r.createSource conf)
    let child ← Action.createWithConfig conf (some source)
    Action.refresh backend now child
    Action.attach root child

def builtMessage (schema : SchemaConfig) (root : Node) : String :=
  s!"Built schema {Text.quoted root.name} from {schema.sources.length} sources " ++
    s!"with {root.tables.length} tables"

def buildSchema (r : Registry σ) (backend : Backend σ) (now : Instant) (config : CatalogConfig)
    (schema : SchemaConfig) : Action σ NodeId := do
  let root ← Action.create schema.name none
  schema.sources.forM (r.buildSource backend now config schema root)
  Action.refresh backend now root
  let c ← Action.catalog
  if let some n := c.node? root then
    Action.log .info (builtMessage schema n)
  pure root

/-- The roots come in the order of the configuration. -/
def buildSchemas (r : Registry σ) (backend : Backend σ) (now : Instant) (config : CatalogConfig) :
    Action σ (List NodeId) :=
  config.schemas.mapM (r.buildSchema backend now config)

end SchemaCatalog.Registry
