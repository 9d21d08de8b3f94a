import SchemaCatalog.CatalogError
import SchemaCatalog.Table.Basic

/-!
Sources as a catalog sees them: they list tables, describe one by the spelling that they listed, and
open connections. Nothing is assumed of their answers, which may change from call to call.
-/

namespace SchemaCatalog

structure SourceId where
  index : Nat
deriving DecidableEq, Repr, Inhabited

structure Connection where
  source : String
  table : String
deriving DecidableEq, Repr

structure Listing where
  names : List String
  /-- The catalog was shut down while the source drew up the list. This is all that a source is
  taken to do to the catalog: one that describes a table or opens one does not call it. -/
  closesCatalog : Bool := false

/-- What the sources of one kind answer, and what becomes of a source that is asked. -/
structure SourceKind (α : Type) where
  list : α → Listing × α
  /-- A source that does not know a table has no failure to report. -/
  describe : String → α → Except CatalogError (Option Table) × α
  openTable : String → α → Except CatalogError (Option Connection) × α

/-- What each source of a world answers, and what becomes of the world. -/
structure Backend (σ : Type) where
  list : SourceId → σ → Listing × σ
  describe : SourceId → String → σ → Except CatalogError (Option Table) × σ
  openTable : SourceId → String → σ → Except CatalogError (Option Connection) × σ

/-- Sources of two kinds side by side. -/
def SourceKind.sum {α β : Type} (left : SourceKind α) (right : SourceKind β) :
    SourceKind (α ⊕ β) where
  list
    | .inl a => let (answer, a) := left.list a; (answer, .inl a)
    | .inr b => let (answer, b) := right.list b; (answer, .inr b)
  describe name
    | .inl a => let (answer, a) := left.describe name a; (answer, .inl a)
    | .inr b => let (answer, b) := right.describe name b; (answer, .inr b)
  openTable name
    | .inl a => let (answer, a) := left.openTable name a; (answer, .inl a)
    | .inr b => let (answer, b) := right.openTable name b; (answer, .inr b)

end SchemaCatalog
