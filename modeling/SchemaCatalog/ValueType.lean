import SchemaCatalog.Json.Reader

/-! The declared types of columns, and the names under which descriptions and records show them. -/

namespace SchemaCatalog

inductive ValueType where
  | unknown
  | nil
  | error
  | bytes
  | bool
  | int
  | number
  | string
  | time
  | strings
  | json
  | map
deriving DecidableEq, Repr, Inhabited

namespace ValueType

def all : List ValueType :=
  [unknown, nil, error, bytes, bool, int, number, string, time, strings, json, map]

/-- The name used in descriptions of columns. -/
def name : ValueType → String
  | unknown => "unknown"
  | nil => "nil"
  | error => "error"
  | bytes => "bytes"
  | bool => "bool"
  | int => "int"
  | number => "number"
  | string => "string"
  | time => "time"
  | strings => "[]string"
  | json => "json"
  | map => "map[string]value"

/-- The tag that stands for the type in stored records. -/
def tag : ValueType → String
  | unknown => "Unknown"
  | nil => "Nil"
  | error => "Error"
  | bytes => "Bytes"
  | bool => "Bool"
  | int => "Int"
  | number => "Number"
  | string => "String"
  | time => "Time"
  | strings => "Strings"
  | json => "Json"
  | map => "Map"

/-- A name that no type has stands for an unknown type. -/
def ofName (name : String) : ValueType :=
  (all.find? (·.name == name)).getD unknown

theorem ofName_name (t : ValueType) : ofName t.name = t := by
  cases t <;> decide

/-! ### Stored form -/

open Json (Reader)

def toJson (t : ValueType) : Json :=
  .string t.tag

def reader : Reader ValueType :=
  Reader.tagged (all.map fun t => .plain t.tag t)

end ValueType

end SchemaCatalog
