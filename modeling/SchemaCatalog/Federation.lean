import SchemaCatalog.Catalog.Attach

/-!
A catalog together with the world in which its sources live. What a source answers can change that
world, and the catalog too: a source may shut it down.
-/

namespace SchemaCatalog

structure Federation (σ : Type) where
  catalog : Catalog := {}
  sources : σ

namespace Federation

variable {σ : Type}

def log (f : Federation σ) (level : Level) (message : String) : Federation σ :=
  { f with catalog := f.catalog.log level message }

def modify (f : Federation σ) (id : NodeId) (change : Node → Node) : Federation σ :=
  { f with catalog := f.catalog.modify id change }

def listing (backend : Backend σ) (f : Federation σ) (source : SourceId) :
    List String × Federation σ :=
  let (answer, sources) := backend.list source f.sources
  (answer.names,
    { catalog := if answer.closesCatalog then f.catalog.shutdown else f.catalog, sources })

/-! ### Loading -/

/-- Describes a table through the source of a node and registers it under the lowercase form of its
listed spelling. -/
def loadListed (backend : Backend σ) (f : Federation σ) (n : Node) (listed : String) :
    Except CatalogError Table × Federation σ :=
  let name := Text.lowercase listed
  match n.source with
  | none => (.error (.sourceNotFound name), f)
  | some source =>
    match backend.describe source listed f.sources with
    | (.error e, sources) => (.error e, { f with sources })
    | (.ok none, sources) => (.error (.tableNotFound name), { f with sources })
    | (.ok (some t), sources) =>
      let t := n.adopt listed t
      (.ok t, { f with sources }.modify n.id (·.register name n.id t))

/-- The source's own spelling of a name, or the name itself if the source does not list it. -/
def listedName (backend : Backend σ) (f : Federation σ) (n : Node) (name : String) :
    String × Federation σ :=
  match n.source with
  | none => (name, f)
  | some source =>
    let (names, f) := f.listing backend source
    ((names.find? (Text.sameAsciiCase · name)).getD name, f)

/-- Resolves a name, and on a miss describes it through the node's own source. Ancestors see a table
that was loaded in this way after their next refresh. -/
def loadTable (backend : Backend σ) (f : Federation σ) (id : NodeId) (name : String) :
    Except CatalogError Table × Federation σ :=
  match f.catalog.node? id with
  | none => (.error (.schemaNotFound id.display), f)
  | some n =>
    match n.table name with
    | .ok t => (.ok t, f)
    | .error _ =>
      let plain := Node.plainName name
      if n.allows plain then
        let (listed, f) := f.listedName backend n plain
        f.loadListed backend n listed
      else (.error (.tableNotFound plain), f)

end Federation

end SchemaCatalog
