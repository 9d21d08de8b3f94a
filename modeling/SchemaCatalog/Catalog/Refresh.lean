import SchemaCatalog.Federation

/-!
Refreshing a node and everything below it: newly listed tables are loaded, then each child is
refreshed in order of name, and what it sees is taken over. What is known already stays as it is.
-/

namespace SchemaCatalog.Federation

variable {σ : Type}

/-- Loads a listed table that the node does not know and that its configuration lets in. A failure
is reported and nothing more. -/
def loadNew (backend : Backend σ) (id : NodeId) (f : Federation σ) (listed : String) :
    Federation σ :=
  match f.catalog.node? id with
  | none => f
  | some n =>
    let name := Text.lowercase listed
    if n.knows name || !n.allows name then f
    else
      let f := f.log .debug s!"schema {Text.quoted n.name} loading table {Text.quoted listed}"
      match f.loadListed backend n listed with
      | (.ok _, f) => f
      | (.error e, f) =>
        f.log .error
          (s!"could not load table {Text.quoted listed} into schema {Text.quoted n.name}: " ++
            e.message)

def loadOwn (backend : Backend σ) (f : Federation σ) (n : Node) : Federation σ :=
  match n.source with
  | none => f
  | some source =>
    let (names, f) := f.listing backend source
    names.foldl (loadNew backend n.id) f

def absorbChild (f : Federation σ) (id child : NodeId) : Federation σ :=
  match f.catalog.node? child with
  | some n => f.modify id (·.absorb n)
  | none => f

/-- Refreshes a child with `walk` and takes over what it sees; a child that has been released is
passed over. -/
def visitChild (walk : Federation σ → NodeId → Option (Federation σ)) (id : NodeId) (n : Node)
    (f : Federation σ) (entry : String × NodeId) : Option (Federation σ) :=
  match f.catalog.get entry.2 with
  | .error e =>
    some (f.log .warn
      s!"skipping child {Text.quoted entry.1} of {Text.quoted n.name}: {e.message}")
  | .ok _ => do
    let f ← walk f entry.2
    some (f.absorbChild id entry.2)

/-- Refreshes a node while the nodes in `held` wait for the walk to come back. A walk that meets one
of them waits for it for ever, which is `none`. -/
def refreshWithin (backend : Backend σ) (now : Instant) :
    Nat → List NodeId → Federation σ → NodeId → Option (Federation σ)
  | 0, _, _, _ => none
  | depth + 1, held, f, id =>
    if held.contains id then none
    else
      match f.catalog.node? id with
      | none => some f
      | some n => do
        let f ← n.children.entries.foldlM
          (visitChild (refreshWithin backend now depth (id :: held)) id n) (f.loadOwn backend n)
        some (f.modify id (·.stamp now))

/-- A walk that holds as many nodes as there are can only meet one of them. -/
def refresh (backend : Backend σ) (now : Instant) (f : Federation σ) (id : NodeId) :
    Option (Except CatalogError Unit × Federation σ) :=
  match f.catalog.get id with
  | .error e => some (.error e, f)
  | .ok _ => (refreshWithin backend now f.catalog.nodes.length [] f id).map (.ok (), ·)

end SchemaCatalog.Federation
