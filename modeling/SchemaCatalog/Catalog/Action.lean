import SchemaCatalog.Catalog.Drop
import SchemaCatalog.Catalog.Refresh

/-!
Steps that may fail and change a federation, for operations made of several of them. What has been
changed before a failure stays changed; a step that waits for ever has no result.
-/

namespace SchemaCatalog

abbrev Action (σ : Type) : Type → Type :=
  ExceptT CatalogError (StateT (Federation σ) Option)

namespace Action

variable {σ α : Type}

def ofCatalog (step : Catalog → Except CatalogError α × Catalog) : Action σ α :=
  fun f =>
    let (answer, catalog) := step f.catalog
    some (answer, { f with catalog })

def ofSources (step : σ → Except CatalogError α × σ) : Action σ α :=
  fun f =>
    let (answer, sources) := step f.sources
    some (answer, { f with sources })

def catalog : Action σ Catalog :=
  fun f => some (.ok f.catalog, f)

def create (name : String) (source : Option SourceId) : Action σ NodeId :=
  ofCatalog fun c =>
    let (id, c) := c.create name source
    (.ok id, c)

def createWithConfig (config : SourceConfig) (source : Option SourceId) : Action σ NodeId :=
  ofCatalog fun c =>
    let (id, c) := c.createWithConfig config source
    (.ok id, c)

def attach (parent child : NodeId) : Action σ Unit :=
  ofCatalog (·.attach parent child)

def addTable (id : NodeId) (t : Table) : Action σ Unit :=
  ofCatalog fun c => (.ok (), c.addTable id t)

def drop (id : NodeId) (name : String) : Action σ Table :=
  ofCatalog (·.drop id name)

def refresh (backend : Backend σ) (now : Instant) (id : NodeId) : Action σ Unit :=
  fun f => f.refresh backend now id

def log (level : Level) (message : String) : Action σ Unit :=
  ofCatalog fun c => (.ok (), c.log level message)

end Action

end SchemaCatalog
