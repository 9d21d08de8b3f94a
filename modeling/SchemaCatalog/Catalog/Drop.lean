import SchemaCatalog.Catalog.Attach

/-!
Dropping a table from the node that owns it and from the ancestors that see it as that node's. A
source that still lists the table brings it back on the next refresh.
-/

namespace SchemaCatalog.Catalog

/-- Removes the entry of a name from each node of a chain that records this owner for it, and finds
the table that the owner itself held. -/
def eraseAlong (name : String) (owner : NodeId) (held : Option Table) (c : Catalog) :
    List NodeId → Except CatalogError (Option Table) × Catalog
  | [] => (.ok held, c)
  | id :: rest =>
    match c.get id with
    | .error e => (.error e, c)
    | .ok n =>
      if n.directory.owners.get? name = some owner then
        let held := if id = owner then n.directory.tables.get? name else held
        eraseAlong name owner held (c.modify id (·.unregister name)) rest
      else
        eraseAlong name owner held c rest

/-- The most distant ancestor comes first. -/
def drop (c : Catalog) (id : NodeId) (name : String) : Except CatalogError Table × Catalog :=
  let name := Text.lowercase name
  let route : Except CatalogError (NodeId × List NodeId) := do
    let n ← c.get id
    match n.ownerOf name with
    | none => throw (.tableNotFound name)
    | some owner =>
      let chain ← c.ancestors owner
      pure (owner, chain.reverse)
  match route with
  | .error e => (.error e, c)
  | .ok (owner, chain) =>
    match eraseAlong name owner none c chain with
    | (.error e, c) => (.error e, c)
    | (.ok held, c) =>
      let c := c.log .debug s!"dropped table {Text.quoted name} owned by {owner.display}"
      match held with
      | some t => (.ok t, c)
      | none => (.error (.tableNotFound name), c)

end SchemaCatalog.Catalog
