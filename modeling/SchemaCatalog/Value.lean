import SchemaCatalog.ValueType
import SchemaCatalog.Json.Reader
import SchemaCatalog.Text.Utf8
import SchemaCatalog.Time.Rfc3339

/-! The values of cells and defaults: how they are shown, and how records store them. -/

namespace SchemaCatalog

inductive Value where
  | string (s : String)
  | int (n : Int64)
  | number (x : Float)
  | boolean (b : Bool)
  | bytes (octets : List UInt8)
  | time (t : Instant)
  | strings (items : List String)
  | null
deriving BEq, Inhabited

abbrev Row := List Value

namespace Value

def asString? : Value → Option String
  | string s => some s
  | _ => none

def isNull : Value → Bool
  | null => true
  | _ => false

def type : Value → ValueType
  | string _ => .string
  | int _ => .int
  | number _ => .number
  | boolean _ => .bool
  | bytes _ => .bytes
  | time _ => .time
  | strings _ => .strings
  | null => .nil

/-- Numbers are shown without an exponent and whole ones without a point. -/
def floatStyle : Decimal.FloatStyle where
  tie := .up
  positional _ := true
  wholeEnd := ""
  notANumber := "NaN"
  infinity := "inf"
  negativeInfinity := "-inf"

def display : Value → String
  | string s => s
  | int n => toString n.toInt
  | number x => floatStyle.text x
  | boolean true => "true"
  | boolean false => "false"
  | bytes octets => Text.Utf8.decodeLossy octets
  | time t => Time.Rfc3339.write t "+00:00"
  | strings items => "[" ++ ", ".intercalate items ++ "]"
  | null => "NULL"

/-! ### Stored form -/

def tag : Value → String
  | string _ => "String"
  | int _ => "Int"
  | number _ => "Number"
  | boolean _ => "Boolean"
  | bytes _ => "Bytes"
  | time _ => "Time"
  | strings _ => "Strings"
  | null => "Null"

/-- A number that JSON cannot hold is stored as null. -/
def numberJson (x : Float) : Json :=
  if x.isFinite then .float x else .null

/-- Null is its tag; any other value is stored under its tag. -/
def toJson (v : Value) : Json :=
  let under (contents : Json) : Json := .object [(v.tag, contents)]
  match v with
  | string s => under (.string s)
  | int n => under (.integer n.toInt)
  | number x => under (numberJson x)
  | boolean b => under (.bool b)
  | bytes octets => under (.array (octets.map fun b => .integer b.toNat))
  | time t => under (.string (Time.Rfc3339.write t "Z"))
  | strings items => under (.array (items.map .string))
  | null => .string v.tag

open Json (Reader)

def timeReader : Reader Instant := fun origin d => do
  let text ← Reader.stringAs "an RFC 3339 formatted date and time string" origin d
  match Time.Rfc3339.read text with
  | some t => pure t
  | none => throw .unparsable

/-- Only null may stand as a tag alone. -/
def reader : Reader Value :=
  Reader.tagged [
    .holding "String" Reader.string string,
    .holding "Int" Reader.int64 int,
    .holding "Number" Reader.float number,
    .holding "Boolean" Reader.bool boolean,
    .holding "Bytes" (Reader.list Reader.byte) bytes,
    .holding "Time" timeReader time,
    .holding "Strings" (Reader.list Reader.string) strings,
    .plain "Null" null]

end Value

end SchemaCatalog
