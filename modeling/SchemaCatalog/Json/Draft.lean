import SchemaCatalog.Json.Basic
import SchemaCatalog.Json.Token

/-!
JSON text as far as it can be read. A draft keeps the order of the text and marks the place where
its grammar breaks off, so that a reader can tell which of two faults comes first. Repeated keys are
kept.
-/

namespace SchemaCatalog.Json

inductive Draft where
  | broken
  | null
  | bool (b : Bool)
  /-- A number, `none` when it is out of range. -/
  | number (n : Option Decimal.Number)
  /-- A string, `none` when its pieces make no text. -/
  | string (s : Option String)
  | array (items : List Draft) (closed : Bool)
  /-- Keys are strings, and `none` when their pieces make no text. -/
  | object (entries : List (Option String × Draft)) (closed : Bool)
deriving Inhabited

/-- An array or object that has been opened, its contents last first. An entry waits for its
value. -/
inductive Frame where
  | array (items : List Draft)
  | object (entries : List (Option String × Draft))
  | entry (entries : List (Option String × Draft)) (key : Option String)

inductive Expects where
  | value
  | firstItem
  | firstKey
  | key
  | colon
  | separator
  | done

structure Builder where
  /-- Innermost first. -/
  frames : List Frame := []
  expects : Expects := .value
  root : Option Draft := none
  /-- No token has been out of place. -/
  intact : Bool := true

namespace Builder

def stop (b : Builder) : Builder :=
  { b with intact := false }

/-- Puts a finished value into its place. -/
def put (b : Builder) (d : Draft) : Builder :=
  match b.frames with
  | .array items :: outer => { b with frames := .array (d :: items) :: outer, expects := .separator }
  | .entry entries key :: outer =>
    { b with frames := .object ((key, d) :: entries) :: outer, expects := .separator }
  | _ => { b with root := some d, expects := .done }

def openFrame (b : Builder) (frame : Frame) (expects : Expects) : Builder :=
  { b with frames := frame :: b.frames, expects }

def closeArray (b : Builder) : Builder :=
  match b.frames with
  | .array items :: outer => put { b with frames := outer } (.array items.reverse true)
  | _ => b.stop

def closeObject (b : Builder) : Builder :=
  match b.frames with
  | .object entries :: outer => put { b with frames := outer } (.object entries.reverse true)
  | _ => b.stop

def value (b : Builder) (token : Token) : Builder :=
  match token with
  | .openArray => b.openFrame (.array []) .firstItem
  | .openObject => b.openFrame (.object []) .firstKey
  | .null => b.put .null
  | .bool v => b.put (.bool v)
  | .number n => b.put (.number n.value)
  | .string s => b.put (.string s)
  | _ => b.stop

/-- Only a string can be a key. -/
def key (b : Builder) (token : Token) : Builder :=
  match token, b.frames with
  | .string s, .object entries :: outer =>
    { b with frames := .entry entries s :: outer, expects := .colon }
  | _, _ => b.stop

def separator (b : Builder) (token : Token) : Builder :=
  match token, b.frames with
  | .comma, .array _ :: _ => { b with expects := .value }
  | .comma, .object _ :: _ => { b with expects := .key }
  | .closeArray, _ => b.closeArray
  | .closeObject, _ => b.closeObject
  | _, _ => b.stop

def step (b : Builder) (token : Token) : Builder :=
  if !b.intact then b
  else
    match b.expects, token with
    | .value, _ => b.value token
    | .firstItem, .closeArray => b.closeArray
    | .firstItem, _ => b.value token
    | .firstKey, .closeObject => b.closeObject
    | .firstKey, _ => b.key token
    | .key, _ => b.key token
    | .colon, .colon => { b with expects := .value }
    | .colon, _ => b.stop
    | .separator, _ => b.separator token
    | .done, _ => b.stop

end Builder

/-- The draft of a frame that is never closed, around the one within it. -/
def Frame.unclosed (inner : Option Draft) : Frame → Draft
  | .array items => .array (inner.toList ++ items).reverse false
  | .object entries => .object entries.reverse false
  | .entry entries key => .object ((key, inner.getD .broken) :: entries).reverse false

/-- The draft of a whole text, and whether the text ends where its value does. -/
structure Document where
  root : Draft
  complete : Bool

def Builder.finish (b : Builder) : Document :=
  match b.root with
  | some d => ⟨d, b.intact⟩
  | none =>
    ⟨(b.frames.foldl (fun inner frame => some (frame.unclosed inner)) none).getD .broken, false⟩

def Document.ofText (text : List (Option Char)) : Document :=
  ((tokens text).foldl Builder.step {}).finish

namespace Draft

/-- Whether a draft that is not kept obeys the grammar. Numbers may be out of range and strings
unreadable. -/
def isSkippable : Draft → Bool
  | .broken => false
  | .array items closed => closed && itemsSkippable items
  | .object entries closed => closed && entriesSkippable entries
  | _ => true
where
  itemsSkippable : List Draft → Bool
    | [] => true
    | item :: rest => item.isSkippable && itemsSkippable rest
  entriesSkippable : List (Option String × Draft) → Bool
    | [] => true
    | (_, value) :: rest => value.isSkippable && entriesSkippable rest

/-- A value that is not text: every part of it is readable. -/
def ofJson : Json → Draft
  | .null => .null
  | .bool b => .bool b
  | .integer n => .number (some (.integer n))
  | .float x => .number (some (.float x))
  | .string s => .string (some s)
  | .array items => .array (ofItems items) true
  | .object entries => .object (ofEntries entries) true
where
  ofItems : List Json → List Draft
    | [] => []
    | item :: rest => ofJson item :: ofItems rest
  ofEntries : List (String × Json) → List (Option String × Draft)
    | [] => []
    | (key, value) :: rest => (some key, ofJson value) :: ofEntries rest

end Draft

end SchemaCatalog.Json
