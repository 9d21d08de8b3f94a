import SchemaCatalog.Source.Backend

/-! A world made of a list of sources, each known by its place. -/

namespace SchemaCatalog

structure SourcePool (α : Type) where
  sources : List α := []

namespace SourcePool

variable {α β : Type}

def get? (pool : SourcePool α) (id : SourceId) : Option α :=
  pool.sources[id.index]?

def set (pool : SourcePool α) (id : SourceId) (source : α) : SourcePool α :=
  ⟨pool.sources.set id.index source⟩

def add (pool : SourcePool α) (source : α) : SourceId × SourcePool α :=
  (⟨pool.sources.length⟩, ⟨pool.sources ++ [source]⟩)

/-- Asks a source; one that is not there gives the answer `absent`. -/
def ask (pool : SourcePool α) (id : SourceId) (question : α → β × α) (absent : β) :
    β × SourcePool α :=
  match pool.get? id with
  | some source =>
    let (answer, source) := question source
    (answer, pool.set id source)
  | none => (absent, pool)

def backend (kind : SourceKind α) : Backend (SourcePool α) where
  list id pool := pool.ask id kind.list { names := [] }
  describe id name pool := pool.ask id (kind.describe name) (.ok none)
  openTable id name pool := pool.ask id (kind.openTable name) (.ok none)

end SourcePool

end SchemaCatalog
