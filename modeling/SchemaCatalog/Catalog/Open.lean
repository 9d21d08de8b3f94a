import SchemaCatalog.Federation

/-! Finding the node that answers for a table, and opening a connection through its source. -/

namespace SchemaCatalog

namespace Catalog

/-- The live node with a source that owns a table seen from `n`. -/
def liveOwner? (c : Catalog) (n : Node) (name : String) : Option Node := do
  let owner ← n.ownerOf name
  (c.live? owner).filter (·.hasSource)

/-- The system node answers for itself. A miss may mean that the catalog is still being built, so
it is reported. -/
def schemaForTable (c : Catalog) (id : NodeId) (name : String) :
    Except CatalogError Node × Catalog :=
  let name := Text.lowercase name
  match c.get id with
  | .error e => (.error e, c)
  | .ok n =>
    if n.name = Node.systemName then (.ok n, c)
    else
      match c.liveOwner? n name with
      | some owner => (.ok owner, c)
      | none =>
        (.error (.sourceNotFound name), c.log .warn
          (s!"schema_for_table: no source for table {Text.quoted name} " ++
            s!"in schema {Text.quoted n.name}"))

end Catalog

namespace Federation

variable {σ : Type}

/-- The spelling under which the owner's source knows a table. -/
def openName (owner : Node) (name : String) : String :=
  match owner.table name with
  | .ok t => if t.originalName = "" then name else t.originalName
  | .error _ => name

/-- Opens a table through the source of its owner. -/
def openTable (backend : Backend σ) (f : Federation σ) (id : NodeId) (name : String) :
    Except CatalogError Connection × Federation σ :=
  let name := Text.lowercase name
  let route : Except CatalogError (SourceId × String) := do
    let n ← f.catalog.get id
    match f.catalog.liveOwner? n name with
    | none => throw (.sourceNotFound name)
    | some owner =>
      match owner.source with
      | none => throw (.sourceNotFound name)
      | some source => pure (source, openName owner name)
  match route with
  | .error e => (.error e, f)
  | .ok (source, spelling) =>
    match backend.openTable source spelling f.sources with
    | (.error e, sources) => (.error e, { f with sources })
    | (.ok none, sources) => (.error (.nilConnection name), { f with sources })
    | (.ok (some connection), sources) => (.ok connection, { f with sources })

end Federation

end SchemaCatalog
