import SchemaCatalog.Json.Draft
import SchemaCatalog.Json.Printer
import SchemaCatalog.Text.Quoted

/-!
Readers of typed values. Reading follows the order of the text and stops at the first fault. A
record is read from an object by its keys, or from an array in the order of its slots.
-/

namespace SchemaCatalog.Json

/-- Why a text is not a value of the wanted type. -/
inductive ReadError where
  | wrongType (found expected : String)
  | wrongValue (found expected : String)
  | wrongLength (length : Nat) (expected : String)
  | missingField (key : String)
  | duplicateField (key : String)
  | unknownTag (tag : String) (known : List String)
  | unparsable
deriving DecidableEq, Repr

def ReadError.message : ReadError → String
  | .wrongType found expected => s!"invalid type: {found}, expected {expected}"
  | .wrongValue found expected => s!"invalid value: {found}, expected {expected}"
  | .wrongLength length expected => s!"invalid length {length}, expected {expected}"
  | .missingField key => s!"missing field `{key}`"
  | .duplicateField key => s!"duplicate field `{key}`"
  | .unknownTag tag known =>
    s!"unknown variant `{tag}`, expected one of " ++
      ", ".intercalate (known.map fun k => s!"`{k}`")
  | .unparsable => "unparsable"

/-- Where a draft comes from. Text nests at most so many levels deeper where it is kept; a value
that is already at hand has no bound. -/
inductive Origin where
  | text (levels : Nat)
  | value

def Origin.enter : Origin → Except ReadError Origin
  | .text 0 => .error .unparsable
  | .text (levels + 1) => .ok (.text levels)
  | .value => .ok .value

abbrev Reader (α : Type) := Origin → Draft → Except ReadError α

def maxLevels : Nat := 127

def numberName : Decimal.Number → String
  | .integer n => s!"integer `{n}`"
  | .float x => s!"floating point `{floatStyle.text x}`"

/-- What an error calls a value, if there is one. -/
def Draft.name? : Draft → Option String
  | .broken | .number none | .string none => none
  | .null => some "null"
  | .bool b => some s!"boolean `{b}`"
  | .number (some n) => some (numberName n)
  | .string (some s) => some s!"string {Text.quoted s}"
  | .array _ _ => some "sequence"
  | .object _ _ => some "map"

def Draft.unexpected (d : Draft) (expected : String) : ReadError :=
  match d.name? with
  | some found => .wrongType found expected
  | none => .unparsable

namespace Reader

variable {α : Type}

def ofText (r : Reader α) (text : List (Option Char)) : Except ReadError α := do
  let document := Document.ofText text
  let a ← r (.text maxLevels) document.root
  if document.complete then pure a else throw .unparsable

def ofString (r : Reader α) (text : String) : Except ReadError α :=
  r.ofText (text.toList.map some)

def ofValue (r : Reader α) (value : Json) : Except ReadError α :=
  r .value (Draft.ofJson value)

/-! ### Scalars -/

def stringAs (expected : String) : Reader String
  | _, .string (some s) => pure s
  | _, d => throw (d.unexpected expected)

def string : Reader String :=
  stringAs "a string"

def bool : Reader Bool
  | _, .bool b => pure b
  | _, d => throw (d.unexpected "a boolean")

def unit : Reader Unit
  | _, .null => pure ()
  | _, d => throw (d.unexpected "unit")

def integer (low high : Int) (expected : String) : Reader Int
  | _, .number (some (.integer n)) =>
    if low ≤ n && n ≤ high then pure n
    else throw (.wrongValue (numberName (.integer n)) expected)
  | _, d => throw (d.unexpected expected)

/-- Whole numbers are taken for floats. -/
def float : Reader Float
  | _, .number (some (.float x)) => pure x
  | _, .number (some (.integer n)) => pure (Float.ofInt n)
  | _, d => throw (d.unexpected "f64")

def size : Reader UInt64 := fun origin d =>
  (UInt64.ofNat ·.toNat) <$> integer 0 (UInt64.size - 1) "usize" origin d

def byte : Reader UInt8 := fun origin d =>
  (UInt8.ofNat ·.toNat) <$> integer 0 255 "u8" origin d

def int64 : Reader Int64 := fun origin d =>
  Int64.ofInt <$> integer Int64.minValue.toInt Int64.maxValue.toInt "i64" origin d

/-! ### Collections -/

def ensureClosed (closed : Bool) : Except ReadError Unit :=
  if closed then pure () else throw .unparsable

def list (r : Reader α) : Reader (List α)
  | origin, .array items closed => do
    let inner ← origin.enter
    let values ← items.mapM (r inner)
    ensureClosed closed
    pure values
  | _, d => throw (d.unexpected "a sequence")

/-- The text of a string, of which `none` is unreadable. -/
def readable : Option String → Except ReadError String
  | some s => pure s
  | none => throw .unparsable

/-- The last entry of a key counts. -/
def map (r : Reader α) : Reader (NameMap α)
  | origin, .object entries closed => do
    let inner ← origin.enter
    let values ← entries.mapM fun (k, d) => do
      let name ← readable k
      let value ← r inner d
      pure (name, value)
    ensureClosed closed
    pure (NameMap.ofList values)
  | _, d => throw (d.unexpected "a map")

/-! ### Any value -/

mutual

def json : Reader Json
  | _, .null => pure .null
  | _, .bool b => pure (.bool b)
  | _, .number (some (.integer n)) => pure (.integer n)
  | _, .number (some (.float x)) => pure (.float x)
  | _, .string (some s) => pure (.string s)
  | origin, .array items closed => do
    let inner ← origin.enter
    let values ← jsonItems inner items
    ensureClosed closed
    pure (.array values)
  | origin, .object entries closed => do
    let inner ← origin.enter
    let values ← jsonEntries inner entries
    ensureClosed closed
    pure (Json.ofEntries values)
  | _, .broken | _, .number none | _, .string none => throw .unparsable

def jsonItems : Origin → List Draft → Except ReadError (List Json)
  | _, [] => pure []
  | origin, item :: rest => do
    let value ← json origin item
    let values ← jsonItems origin rest
    pure (value :: values)

def jsonEntries :
    Origin → List (Option String × Draft) → Except ReadError (List (String × Json))
  | _, [] => pure []
  | origin, (k, d) :: rest => do
    let name ← readable k
    let value ← json origin d
    let values ← jsonEntries origin rest
    pure ((name, value) :: values)

end

end Reader

/-! ### Tagged values -/

/-- One of the forms of a tagged value: what its tag means alone, and how its contents are read. -/
structure Variant (α : Type) where
  tag : String
  alone : Except ReadError α
  contents : Reader α

namespace Variant

variable {α β : Type}

def plain (tag : String) (a : α) : Variant α :=
  ⟨tag, .ok a, fun origin d => (fun _ => a) <$> Reader.unit origin d⟩

def holding (tag : String) (r : Reader β) (make : β → α) : Variant α :=
  ⟨tag, .error (.wrongType "unit variant" "newtype variant"), fun origin d => make <$> r origin d⟩

/-- The variant whose tag stands here. -/
def named (variants : List (Variant α)) (tag : Option String) : Except ReadError (Variant α) := do
  let name ← Reader.readable tag
  match variants.find? (·.tag == name) with
  | some variant => pure variant
  | none => throw (.unknownTag name (variants.map (·.tag)))

end Variant

/-- A tag alone, or an object with the tag as its only key and the contents as its value. -/
def Reader.tagged {α : Type} (variants : List (Variant α)) : Reader α
  | _, .string s => do
    let variant ← Variant.named variants s
    variant.alone
  | origin, .object ((k, d) :: rest) closed => do
    let inner ← origin.enter
    let variant ← Variant.named variants k
    let value ← variant.contents inner d
    ensureClosed (closed && rest.isEmpty)
    pure value
  | _, _ => throw .unparsable

/-! ### Records -/

/-- A field of a record: its key, whether it must be present, and how its value changes the
record. -/
structure Slot (ρ : Type) where
  key : String
  required : Bool
  read : Reader (ρ → ρ)

namespace Slot

variable {ρ α : Type}

def mandatory (key : String) (r : Reader α) (set : α → ρ → ρ) : Slot ρ :=
  ⟨key, true, fun origin d => set <$> r origin d⟩

def optional (key : String) (r : Reader α) (set : α → ρ → ρ) : Slot ρ :=
  ⟨key, false, fun origin d => set <$> r origin d⟩

end Slot

namespace Reader

variable {ρ : Type}

/-- A record while its entries are read, with the keys of slots already filled. -/
structure Filling (ρ : Type) where
  record : ρ
  filled : List String := []

/-- Fills the slot of a key. A key without a slot is skipped with its value. -/
def entry (slots : List (Slot ρ)) (origin : Origin) (s : Filling ρ) (e : Option String × Draft) :
    Except ReadError (Filling ρ) := do
  let name ← readable e.1
  match slots.find? (·.key == name) with
  | none => if e.2.isSkippable then pure s else throw .unparsable
  | some slot =>
    if s.filled.contains name then throw (.duplicateField name)
    let update ← slot.read origin e.2
    pure ⟨update s.record, name :: s.filled⟩

/-- Fills slots in order, `index` of them so far. Slots at the end that are not required may be left
out; `expected` names the record to an error. -/
def elements (origin : Origin) (closed : Bool) (length : Nat) (expected : String) (index : Nat) :
    List (Slot ρ) → ρ → List Draft → Except ReadError ρ
  | [], record, [] => do
    ensureClosed closed
    pure record
  | [], _, _ :: _ =>
    match origin with
    | .text _ => throw .unparsable
    | .value => throw (.wrongLength length "fewer elements in array")
  | slot :: slots, record, [] => do
    ensureClosed closed
    if slot.required then throw (.wrongLength index expected)
    elements origin closed length expected (index + 1) slots record []
  | slot :: slots, record, item :: rest => do
    let update ← slot.read origin item
    elements origin closed length expected (index + 1) slots (update record) rest

def record (title : String) (slots : List (Slot ρ)) (blank : ρ) : Reader ρ
  | origin, .object entries closed => do
    let inner ← origin.enter
    let filling ← entries.foldlM (entry slots inner) { record := blank }
    ensureClosed closed
    match slots.find? fun slot => slot.required && !filling.filled.contains slot.key with
    | some slot => throw (.missingField slot.key)
    | none => pure filling.record
  | origin, .array items closed => do
    let inner ← origin.enter
    elements inner closed items.length s!"struct {title} with {slots.length} elements" 0
      slots blank items
  | _, d => throw (d.unexpected s!"struct {title}")

end Reader

end SchemaCatalog.Json
