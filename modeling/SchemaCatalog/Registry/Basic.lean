import SchemaCatalog.Journal
import SchemaCatalog.Source.Memory
import SchemaCatalog.Source.Pool

/-! Source types and the factories that build sources of each type from their configuration. -/

namespace SchemaCatalog

abbrev SourceFactory (σ : Type) := SourceConfig → σ → Except CatalogError SourceId × σ

structure Registry (σ : Type) where
  factories : NameMap (SourceFactory σ) := ∅

namespace Registry

variable {σ : Type}

/-- A type that is known already gets a new factory. The entries report what was done. -/
def register (r : Registry σ) (type : String) (factory : SourceFactory σ) :
    Journal × Registry σ :=
  let replaced : Journal :=
    if r.factories.contains type then [⟨.warn, s!"Replaced factory for source type: {type}"⟩]
    else []
  (replaced ++ [⟨.info, s!"Registered source type: {type}"⟩],
    { factories := r.factories.insert type factory })

def hasType (r : Registry σ) (type : String) : Bool :=
  r.factories.contains type

def types (r : Registry σ) : List String :=
  r.factories.names

def createSource (r : Registry σ) (conf : SourceConfig) (world : σ) :
    Except CatalogError SourceId × σ :=
  match r.factories.get? conf.type with
  | some factory => factory conf world
  | none => (.error (.unknownSourceType conf.name conf.type), world)

/-! ### Built-in types -/

/-- Adds a source held in memory to a pool. -/
def memoryFactory {α : Type} (pooled : MemorySource → α) : SourceFactory (SourcePool α) :=
  fun conf pool =>
    match MemorySource.ofConfig conf with
    | .error e => (.error e, pool)
    | .ok source =>
      let (id, pool) := pool.add (pooled source)
      (.ok id, pool)

def registerBuiltin {α : Type} (pooled : MemorySource → α) (r : Registry (SourcePool α)) :
    Journal × Registry (SourcePool α) :=
  let (journal, r) := r.register "memory" (memoryFactory pooled)
  (journal ++ [⟨.info, "Built-in source registration complete"⟩], r)

end Registry

end SchemaCatalog
