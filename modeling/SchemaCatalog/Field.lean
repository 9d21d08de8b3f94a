import SchemaCatalog.Table.Index
import SchemaCatalog.Value

/-!
Column descriptors. A field keeps the describe row that was first asked for, until it is reset;
changes made in between do not show in the row.
-/

namespace SchemaCatalog

structure Field where
  /-- The ordinal within a table, given when the field is first registered. -/
  position : Nat := 0
  /-- The row that is kept, if one has been asked for. -/
  row : Option Row := none
  name : String := ""
  description : String := ""
  key : String := ""
  extra : String := ""
  data : List UInt8 := []
  length : UInt32 := 0
  type : ValueType := .unknown
  /-- The type of the contents when they are stored as bytes. -/
  nativeType : ValueType := .unknown
  defaultLength : UInt64 := 0
  defaultValue : Option Value := none
  indexed : Bool := false
  noNulls : Bool := false
  collation : String := ""
  roles : List String := []
  indexes : List Index := []
  context : NameMap Json := ∅
deriving Inhabited

namespace Field

def nullable : Bool := true

def notNullable : Bool := false

/-- A size beyond 32 bits loses its high bits. -/
def base (name : String) (type : ValueType) (size : Nat) (description : String) : Field :=
  { name, description, type, length := UInt32.ofNat size, nativeType := type }

/-- The description doubles as the extra information. -/
def full (name : String) (type : ValueType) (size : Nat) (nullable : Bool)
    (defaultValue : Option Value) (key collation description : String) : Field :=
  { base name type size description with
    extra := description, collation, noNulls := !nullable, defaultValue, key }

/-- The row as the field is now. Nulls, key, default and privileges are left to those who know the
dialect. -/
def describeRow (f : Field) : Row :=
  [f.name, f.type.name, f.collation, "", "", "", f.extra, "", f.description].map .string

/-- The kept row, or the row as the field is now. -/
def currentRow (f : Field) : Row :=
  f.row.getD f.describeRow

def withRow (f : Field) : Field :=
  { f with row := some f.currentRow }

def resetRow (f : Field) : Field :=
  { f with row := none }

def addContext (f : Field) (key : String) (value : Json) : Field :=
  { f with context := f.context.insert key value }

theorem currentRow_resetRow (f : Field) : f.resetRow.currentRow = f.describeRow := rfl

theorem currentRow_withRow (f : Field) : f.withRow.currentRow = f.currentRow := rfl

end Field

end SchemaCatalog
