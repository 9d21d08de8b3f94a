import SchemaCatalog.Catalog.Basic

/-!
Attaching one node under another. The parent takes a copy of what the child sees at that moment;
tables that the child learns of later show in the parent after its next refresh.
-/

namespace SchemaCatalog.Catalog

/-- Follows parent links from `next`, after the nodes of `chain`. -/
def chainFrom (c : Catalog) : Nat → List NodeId → Option NodeId → Except CatalogError (List NodeId)
  | _, chain, none => .ok chain
  | 0, chain, some _ => .ok chain
  | steps + 1, chain, some next => do
    if chain.contains next then return chain
    let n ← c.get next
    c.chainFrom steps (chain ++ [next]) n.parent

/-- A node and its ancestors, nearest first. No chain is longer than the list of nodes. -/
def ancestors (c : Catalog) (id : NodeId) : Except CatalogError (List NodeId) := do
  let n ← c.get id
  c.chainFrom c.nodes.length [id] n.parent

/-- An attachment that would put a node below itself is refused. -/
def attach (c : Catalog) (parent child : NodeId) : Except CatalogError Unit × Catalog :=
  let checked : Except CatalogError (Node × Node) := do
    let p ← c.get parent
    let n ← c.get child
    let above ← c.ancestors parent
    if above.contains child then throw (.ownDescendant n.name p.name)
    pure (p, n)
  match checked with
  | .error e => (.error e, c)
  | .ok (p, n) =>
    let linked := (c.modify parent fun p =>
        { p with children := p.children.insert n.name child }.mergeChild n).modify child fun n =>
        { n with parent := some parent }
    (.ok (), linked.log .debug
      (s!"attached schema {Text.quoted n.name} to {Text.quoted p.name} " ++
        s!"with {n.tables.length} tables"))

end SchemaCatalog.Catalog
