import SchemaCatalog.Journal
import SchemaCatalog.Node

/-!
The catalog: every schema node ever created, in order of creation. Shutting down releases all of
them at once; a released node is no longer found, and its handle is never given to another.
-/

namespace SchemaCatalog

structure Catalog where
  /-- The window of every node that is created. -/
  window : Millis := defaultWindow
  nodes : List Node := []
  /-- How many nodes the last shutdown released. -/
  released : Nat := 0
  journal : Journal := []

namespace Catalog

def log (c : Catalog) (level : Level) (message : String) : Catalog :=
  { c with journal := c.journal ++ [⟨level, message⟩] }

/-! ### Nodes -/

/-- A node by its handle, whether it has been released or not. -/
def node? (c : Catalog) (id : NodeId) : Option Node :=
  c.nodes[id.index]?

def isLive (c : Catalog) (id : NodeId) : Bool :=
  c.released ≤ id.index && id.index < c.nodes.length

def live? (c : Catalog) (id : NodeId) : Option Node :=
  if c.isLive id then c.node? id else none

def get (c : Catalog) (id : NodeId) : Except CatalogError Node :=
  match c.live? id with
  | some n => .ok n
  | none => .error (.schemaNotFound id.display)

def liveNodes (c : Catalog) : List Node :=
  c.nodes.drop c.released

/-- Changes one node, whether it has been released or not. -/
def modify (c : Catalog) (id : NodeId) (f : Node → Node) : Catalog :=
  { c with nodes := c.nodes.modify id.index f }

/-- The first live node of a name. -/
def byName? (c : Catalog) (name : String) : Option Node :=
  c.liveNodes.find? (·.name == Text.lowercase name)

def count (c : Catalog) : Nat :=
  c.liveNodes.length

def parent (c : Catalog) (id : NodeId) : Except CatalogError (Option Node) := do
  let n ← c.get id
  n.parent.mapM c.get

/-- A child by its name. One without a source cannot answer for its tables and is not found. -/
def child (c : Catalog) (parent : NodeId) (name : String) : Except CatalogError Node := do
  let name := Text.lowercase name
  let n ← c.get parent
  match (n.children.get? name).bind c.live? with
  | some child => if child.hasSource then pure child else throw (.schemaNotFound name)
  | none => throw (.schemaNotFound name)

def table (c : Catalog) (id : NodeId) (name : String) : Except CatalogError Table := do
  let n ← c.get id
  n.table name

/-! ### Creation and shutdown -/

def insertNode (c : Catalog) (name : String) (config : Option SourceConfig)
    (source : Option SourceId) : NodeId × Catalog :=
  let id : NodeId := ⟨c.nodes.length⟩
  let n : Node := { id, name := Text.lowercase name, config, source, window := c.window }
  (id, { c with nodes := c.nodes ++ [n] }.log .debug
    s!"created schema {Text.quoted n.name} as {id.display}")

def create (c : Catalog) (name : String) (source : Option SourceId) : NodeId × Catalog :=
  c.insertNode name none source

/-- A node governed by a configuration is named after it. -/
def createWithConfig (c : Catalog) (config : SourceConfig) (source : Option SourceId) :
    NodeId × Catalog :=
  c.insertNode config.name (some config) source

def shutdown (c : Catalog) : Catalog :=
  { c with released := c.nodes.length }.log .debug
    s!"catalog shut down, released {c.count} schema nodes"

/-! ### Tables added by hand -/

/-- Registers a table under a node, by the name that the table carries. -/
def addTable (c : Catalog) (id : NodeId) (t : Table) : Catalog :=
  match c.node? id with
  | none => c
  | some n =>
    let claimed := n.claim t
    (c.log .debug s!"schema {Text.quoted n.name} add table {Text.quoted claimed.name}").modify id
      (·.register claimed.name id claimed)

/-! ### Frame facts -/

@[simp] theorem nodes_log (c : Catalog) (level : Level) (message : String) :
    (c.log level message).nodes = c.nodes := rfl

@[simp] theorem released_log (c : Catalog) (level : Level) (message : String) :
    (c.log level message).released = c.released := rfl

@[simp] theorem nodes_shutdown (c : Catalog) : c.shutdown.nodes = c.nodes := rfl

@[simp] theorem released_modify (c : Catalog) (id : NodeId) (f : Node → Node) :
    (c.modify id f).released = c.released := rfl

@[simp] theorem length_nodes_modify (c : Catalog) (id : NodeId) (f : Node → Node) :
    (c.modify id f).nodes.length = c.nodes.length := by
  simp [modify]

theorem node?_modify (c : Catalog) (id other : NodeId) (f : Node → Node) :
    (c.modify id f).node? other = if id = other then (c.node? other).map f else c.node? other := by
  obtain ⟨i⟩ := id
  obtain ⟨j⟩ := other
  by_cases h : i = j <;> simp [node?, modify, h]

theorem get_eq_ok_iff {c : Catalog} {id : NodeId} {n : Node} :
    c.get id = .ok n ↔ c.isLive id ∧ c.node? id = some n := by
  unfold get live?
  cases c.isLive id <;> cases c.node? id <;> simp

theorem node?_of_get {c : Catalog} {id : NodeId} {n : Node} (h : c.get id = .ok n) :
    c.node? id = some n :=
  (get_eq_ok_iff.mp h).2

theorem isLive_of_get {c : Catalog} {id : NodeId} {n : Node} (h : c.get id = .ok n) :
    c.isLive id :=
  (get_eq_ok_iff.mp h).1

theorem get_of_isLive {c : Catalog} {id : NodeId} {n : Node} (live : c.isLive id)
    (found : c.node? id = some n) : c.get id = .ok n :=
  get_eq_ok_iff.mpr ⟨live, found⟩

end Catalog

end SchemaCatalog
