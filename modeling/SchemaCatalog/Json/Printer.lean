import SchemaCatalog.Json.Basic
import SchemaCatalog.Decimal.FloatText

/-! JSON text without blanks. -/

namespace SchemaCatalog.Json

/-- Quotes, backslashes and control characters are escaped, five of the latter by a letter. -/
def escapedChar (c : Char) : List Char :=
  match c with
  | '"' => ['\\', '"']
  | '\\' => ['\\', '\\']
  | '\x08' => ['\\', 'b']
  | '\x0c' => ['\\', 'f']
  | '\n' => ['\\', 'n']
  | '\r' => ['\\', 'r']
  | '\t' => ['\\', 't']
  | c =>
    if c.toNat < 0x20 then
      ['\\', 'u', '0', '0', Nat.digitChar (c.toNat / 16), Nat.digitChar (c.toNat % 16)]
    else [c]

def stringChars (s : String) : List Char :=
  '"' :: s.toList.flatMap escapedChar ++ ['"']

/-- Decimal exponents from -5 to 15 are written out, and what is not a number is no value. -/
def floatStyle : Decimal.FloatStyle where
  tie := .even
  positional exponent := -5 ≤ exponent && exponent < 16
  wholeEnd := ".0"
  notANumber := "null"
  infinity := "null"
  negativeInfinity := "null"

mutual

def chars : Json → List Char
  | .null => ['n', 'u', 'l', 'l']
  | .bool true => ['t', 'r', 'u', 'e']
  | .bool false => ['f', 'a', 'l', 's', 'e']
  | .integer n => (toString n).toList
  | .float x => (floatStyle.text x).toList
  | .string s => stringChars s
  | .array items => '[' :: itemsChars items ++ [']']
  | .object entries => '\x7b' :: entriesChars entries ++ ['\x7d']

def itemsChars : List Json → List Char
  | [] => []
  | [item] => chars item
  | item :: next :: rest => chars item ++ ',' :: itemsChars (next :: rest)

def entriesChars : List (String × Json) → List Char
  | [] => []
  | [(key, value)] => stringChars key ++ ':' :: chars value
  | (key, value) :: next :: rest =>
    stringChars key ++ ':' :: chars value ++ ',' :: entriesChars (next :: rest)

end

def text (j : Json) : String :=
  String.ofList j.chars

end SchemaCatalog.Json
