import SchemaCatalog.Table.Basic

/-!
The tables visible from a schema node: a sorted list of their names, the owner of each and its
definition. Entries are written to and removed from all three at once; the place of a name in the
list is found by halving.
-/

namespace SchemaCatalog

/-- Where a name stands in a sorted list, or where it would have to be put. -/
inductive Place where
  | taken (index : Nat)
  | free (index : Nat)
deriving DecidableEq, Repr

namespace Place

/-- Halves the stretch of `size` names that begins at `first` until one name is left. -/
def narrow (names : List String) (name : String) (first size : Nat)
    (inside : first + size ≤ names.length) : Nat :=
  if long : 1 < size then
    if name < names[first + size / 2] then narrow names name first (size - size / 2) (by omega)
    else narrow names name (first + size / 2) (size - size / 2) (by omega)
  else first
termination_by size

def find (names : List String) (name : String) : Place :=
  let i := narrow names name 0 names.length (by omega)
  match names[i]? with
  | none => .free i
  | some other =>
    if other = name then .taken i else if other < name then .free (i + 1) else .free i

end Place

structure Directory where
  names : List String := []
  owners : NameMap NodeId := ∅
  tables : NameMap Table := ∅
deriving Inhabited

namespace Directory

/-- Puts a name into its place, unless it is there. -/
def insertName (name : String) (names : List String) : List String :=
  match Place.find names name with
  | .taken _ => names
  | .free i => names.insertIdx i name

/-- Takes a name from its place, if it is there. -/
def eraseName (name : String) (names : List String) : List String :=
  match Place.find names name with
  | .taken i => names.eraseIdx i
  | .free _ => names

def knows (d : Directory) (name : String) : Bool :=
  d.tables.contains name

def register (d : Directory) (name : String) (owner : NodeId) (t : Table) : Directory where
  names := insertName name d.names
  owners := d.owners.insert name owner
  tables := d.tables.insert name t

def unregister (d : Directory) (name : String) : Directory where
  names := eraseName name d.names
  owners := d.owners.erase name
  tables := d.tables.erase name

theorem knows_register (d : Directory) (name other : String) (owner : NodeId) (t : Table) :
    (d.register name owner t).knows other = (other == name || d.knows other) := by
  simp only [knows, register, NameMap.contains_insert]

theorem knows_unregister (d : Directory) (name other : String) :
    (d.unregister name).knows other = (other != name && d.knows other) := by
  simp only [knows, unregister, NameMap.contains_erase]

end Directory

end SchemaCatalog
