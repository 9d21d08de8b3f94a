import SchemaCatalog.Field
import SchemaCatalog.NameHash
import SchemaCatalog.NodeId

/-!
Table definitions. Fields are found by name and keep the ordinal of their first registration;
columns are a list of names of its own, with the position of each.
-/

namespace SchemaCatalog

structure Table where
  name : String
  /-- The name as its source spells it. -/
  originalName : String := ""
  /-- The parent's key in a source with a hierarchy. -/
  parent : String := ""
  columnPositions : NameMap Nat := ∅
  fields : List Field := []
  fieldPositions : NameMap Nat := ∅
  /-- The node that owns the table once it is registered. -/
  schema : Option NodeId := none
  /-- Whether the table is bound to a source. -/
  hasSource : Bool := false
  charset : UInt16 := 0
  partition : Option TablePartition := none
  partitionCount : Nat := 0
  indexes : List Index := []
  context : NameMap Json := ∅
  id : UInt64 := 0
  columns : List String := []
  refreshedAt : Option Instant := none
  /-- The window of the owning catalog once the table is registered. -/
  window : Option Millis := none
  /-- The rows that are kept, if they have been asked for or set. -/
  rows : Option (List Row) := none
deriving Inhabited

namespace Table

/-- A table is known by the lowercase form of its name. -/
def new (name : String) : Table :=
  { name := Text.lowercase name, originalName := name }

/-! ### Fields -/

def hasField (t : Table) (name : String) : Bool :=
  t.fieldPositions.contains name

def field? (t : Table) (name : String) : Option Field := do
  let position ← t.fieldPositions.get? name
  t.fields[position]?

/-- A field of a known name takes the place and the ordinal of the one before it. -/
def addField (t : Table) (f : Field) : Table :=
  let known := do
    let position ← t.fieldPositions.get? f.name
    let old ← t.fields[position]?
    pure (position, old)
  match known with
  | some (position, old) =>
    { t with fields := t.fields.set position { f with position := old.position } }
  | none =>
    { t with
      fields := t.fields ++ [{ f with position := t.fields.length }]
      fieldPositions := t.fieldPositions.insert f.name t.fields.length }

def addFieldType (t : Table) (name : String) (type : ValueType) : Table :=
  t.addField (.base name type 0 "")

/-! ### Columns -/

/-- The type of a column, by its name or by the lowercase form of it. -/
def column? (t : Table) (name : String) : Option ValueType :=
  (t.field? name <|> t.field? (Text.lowercase name)).map (·.type)

/-- A repeated column has the position of its last occurrence. -/
def setColumns (t : Table) (columns : List String) : Table :=
  { t with columns, columnPositions := .ofList columns.zipIdx }

def setColumnsFromFields (t : Table) : Table :=
  t.setColumns (t.fields.map fun f => Text.lowercase f.name)

/-! ### Rows -/

def currentRows (t : Table) : List Row :=
  t.rows.getD (t.fields.map Field.currentRow)

/-- Keeps the rows that are asked for, in the table and in its fields. -/
def withRows (t : Table) : Table :=
  match t.rows with
  | some _ => t
  | none =>
    { t with rows := some (t.fields.map Field.currentRow), fields := t.fields.map Field.withRow }

def withFieldRow (t : Table) (name : String) : Table :=
  match t.fieldPositions.get? name with
  | some position => { t with fields := t.fields.modify position Field.withRow }
  | none => t

def setRows (t : Table) (rows : List Row) : Table :=
  { t with rows := some rows }

def resetRows (t : Table) : Table :=
  { t with rows := none }

/-! ### Metadata -/

def addIndex (t : Table) (index : Index) : Table :=
  { t with indexes := t.indexes ++ [index] }

def addContext (t : Table) (key : String) (value : Json) : Table :=
  { t with context := t.context.insert key value }

def setRefreshed (t : Table) (now : Instant) : Table :=
  { t with refreshedAt := some now }

/-- `none` when the cut-off lies outside the calendar. -/
def since (t : Table) (window : Millis) (now : Instant) : Option Bool :=
  Instant.isWithin t.refreshedAt window now

/-- A table that is not registered has the default window. -/
def isCurrent (t : Table) (now : Instant) : Option Bool :=
  t.since (t.window.getD defaultWindow) now

def assignId (t : Table) : Table :=
  { t with id := NameHash.ofName t.name }

/-- Whether the table's own partition describes it. -/
def ownPartition? (t : Table) : Option TablePartition :=
  t.partition.filter fun p => Text.sameAsciiCase p.table t.name

def setPartition (t : Table) (p : TablePartition) : Table :=
  { t with partition := some p, partitionCount := p.partitions.length }

def debugText (t : Table) : String :=
  let schema := match t.schema with
    | some id => s!"Some({id.debugText})"
    | none => "None"
  s!"Table \x7b name: {Text.quoted t.name}, id: {t.id}, schema: {schema}, " ++
    s!"fields: {t.fields.length}, partition_ct: {t.partitionCount}, " ++
    s!"has_source: {t.hasSource}, .. \x7d"

theorem new_name (name : String) : (new name).name = Text.lowercase name := rfl

theorem currentRows_setRows (t : Table) (rows : List Row) : (t.setRows rows).currentRows = rows :=
  rfl

theorem currentRows_withRows (t : Table) : t.withRows.currentRows = t.currentRows := by
  unfold withRows
  split <;> simp_all [currentRows]

end Table

end SchemaCatalog
