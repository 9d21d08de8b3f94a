import SchemaCatalog.Decimal.Numeral

/-!
The tokens of JSON text. A text is a list of characters with `none` where its bytes are unreadable.
Scanning stops at the first place that no token can cover, with a stray token there.
-/

namespace SchemaCatalog.Json

open Decimal (Numeral)

inductive Token where
  | openArray
  | closeArray
  | openObject
  | closeObject
  | colon
  | comma
  | null
  | bool (b : Bool)
  | number (n : Numeral)
  /-- A string, `none` when its pieces make no text. -/
  | string (content : Option String)
  | stray
deriving Repr, DecidableEq

/-- A piece of a string: a character as it stands or escaped by a letter, a 16-bit unit given by
its number, or an unreadable place. -/
inductive Piece where
  | char (c : Char)
  | unit (n : Nat)
  | unreadable

def isHighSurrogate (n : Nat) : Bool :=
  0xD800 ≤ n && n ≤ 0xDBFF

def isLowSurrogate (n : Nat) : Bool :=
  0xDC00 ≤ n && n ≤ 0xDFFF

/-- Joins pieces to the characters before them, last first. Surrogates must come in pairs. -/
def Piece.join (before : List Char) : List Piece → Option String
  | [] => some (String.ofList before.reverse)
  | .char c :: rest => join (c :: before) rest
  | .unreadable :: _ => none
  | .unit high :: .unit low :: rest =>
    if isHighSurrogate high && isLowSurrogate low then
      join (Char.ofNat (0x10000 + (high - 0xD800) * 0x400 + (low - 0xDC00)) :: before) rest
    else if isHighSurrogate high || isLowSurrogate high then none
    else join (Char.ofNat high :: before) (.unit low :: rest)
  | .unit n :: rest =>
    if isHighSurrogate n || isLowSurrogate n then none else join (Char.ofNat n :: before) rest

/-- The part of a numeral that has been read last. -/
inductive NumeralPart where
  | sign
  | zero
  | whole
  | point
  | fraction
  | mark
  | markSign
  | exponent

/-- Whether a numeral may end after this part. -/
def NumeralPart.canEnd : NumeralPart → Bool
  | .zero | .whole | .fraction | .exponent => true
  | .sign | .point | .mark | .markSign => false

/-- Where scanning stands. Pieces and digits are kept last first. -/
inductive Scan where
  | between
  /-- Within a word, of which `next` and `rest` are missing. -/
  | word (next : Char) (rest : List Char) (token : Token)
  | string (pieces : List Piece)
  | escape (pieces : List Piece)
  | unit (pieces : List Piece) (missing : Nat) (value : Nat)
  | numeral (part : NumeralPart) (read : Numeral)
  | stopped

def isJsonBlank (c : Char) : Bool :=
  c == ' ' || c == '\n' || c == '\t' || c == '\r'

def digitValue (c : Char) : Nat :=
  c.toNat - '0'.toNat

def hexValue? (c : Char) : Option Nat :=
  if c.isDigit then some (digitValue c)
  else if 'a' ≤ c && c ≤ 'f' then some (c.toNat - 'a'.toNat + 10)
  else if 'A' ≤ c && c ≤ 'F' then some (c.toNat - 'A'.toNat + 10)
  else none

/-- What a letter after a backslash stands for. -/
def escapeMeaning? (c : Char) : Option Char :=
  match c with
  | '"' => some '"'
  | '\\' => some '\\'
  | '/' => some '/'
  | 'b' => some '\x08'
  | 'f' => some '\x0c'
  | 'n' => some '\n'
  | 'r' => some '\r'
  | 't' => some '\t'
  | _ => none

/-- The state after a step, and the tokens that the step completes. -/
abbrev Scanned := Scan × List Token

def strayed : Scanned :=
  (.stopped, [.stray])

def scanBetween (c : Char) : Scanned :=
  match c with
  | '[' => (.between, [.openArray])
  | ']' => (.between, [.closeArray])
  | '\x7b' => (.between, [.openObject])
  | '\x7d' => (.between, [.closeObject])
  | ':' => (.between, [.colon])
  | ',' => (.between, [.comma])
  | '"' => (.string [], [])
  | 'n' => (.word 'u' ['l', 'l'] .null, [])
  | 't' => (.word 'r' ['u', 'e'] (.bool true), [])
  | 'f' => (.word 'a' ['l', 's', 'e'] (.bool false), [])
  | '-' => (.numeral .sign { negative := true }, [])
  | '0' => (.numeral .zero { whole := [0] }, [])
  | c =>
    if isJsonBlank c then (.between, [])
    else if c.isDigit then (.numeral .whole { whole := [digitValue c] }, [])
    else strayed

/-- The numeral with its digits in the order of writing. -/
def numeralToken (read : Numeral) : Token :=
  .number
    { read with
      whole := read.whole.reverse
      fraction := read.fraction.map List.reverse
      exponent := read.exponent.map fun e => (e.1, e.2.reverse) }

def addFraction (n : Numeral) (digit : Nat) : Numeral :=
  { n with fraction := some (digit :: n.fraction.getD []) }

def addExponent (n : Numeral) (digit : Nat) : Numeral :=
  let (negative, digits) := n.exponent.getD (false, [])
  { n with exponent := some (negative, digit :: digits) }

/-- The numeral goes on with the character, ends before it, or is none. -/
def scanNumeral (part : NumeralPart) (n : Numeral) (c : Char) : Scanned :=
  let digit := digitValue c
  let ends : Scanned :=
    let (state, tokens) := scanBetween c
    (state, numeralToken n :: tokens)
  match part with
  | .sign =>
    if c = '0' then (.numeral .zero { n with whole := [0] }, [])
    else if c.isDigit then (.numeral .whole { n with whole := [digit] }, [])
    else strayed
  | .zero =>
    if c.isDigit then strayed
    else if c = '.' then (.numeral .point n, [])
    else if c = 'e' || c = 'E' then (.numeral .mark n, [])
    else ends
  | .whole =>
    if c.isDigit then (.numeral .whole { n with whole := digit :: n.whole }, [])
    else if c = '.' then (.numeral .point n, [])
    else if c = 'e' || c = 'E' then (.numeral .mark n, [])
    else ends
  | .point => if c.isDigit then (.numeral .fraction (addFraction n digit), []) else strayed
  | .fraction =>
    if c.isDigit then (.numeral .fraction (addFraction n digit), [])
    else if c = 'e' || c = 'E' then (.numeral .mark n, [])
    else ends
  | .mark =>
    if c.isDigit then (.numeral .exponent (addExponent n digit), [])
    else if c = '+' then (.numeral .markSign n, [])
    else if c = '-' then (.numeral .markSign { n with exponent := some (true, []) }, [])
    else strayed
  | .markSign => if c.isDigit then (.numeral .exponent (addExponent n digit), []) else strayed
  | .exponent => if c.isDigit then (.numeral .exponent (addExponent n digit), []) else ends

/-- An unreadable place can stand in a string only. A numeral may end before it. -/
def Scan.step (state : Scan) (place : Option Char) : Scanned :=
  match state, place with
  | .stopped, _ => (.stopped, [])
  | .string pieces, none => (.string (.unreadable :: pieces), [])
  | .numeral part n, none =>
    if part.canEnd then (.stopped, [numeralToken n, .stray]) else strayed
  | _, none => strayed
  | .between, some c => scanBetween c
  | .word next rest token, some c =>
    if c ≠ next then strayed
    else
      match rest with
      | [] => (.between, [token])
      | next :: rest => (.word next rest token, [])
  | .string pieces, some c =>
    if c = '"' then (.between, [.string (Piece.join [] pieces.reverse)])
    else if c = '\\' then (.escape pieces, [])
    else if c.toNat < 0x20 then strayed
    else (.string (.char c :: pieces), [])
  | .escape pieces, some c =>
    if c = 'u' then (.unit pieces 4 0, [])
    else
      match escapeMeaning? c with
      | some d => (.string (.char d :: pieces), [])
      | none => strayed
  | .unit pieces missing value, some c =>
    match hexValue? c with
    | none => strayed
    | some digit =>
      if missing ≤ 1 then (.string (.unit (value * 16 + digit) :: pieces), [])
      else (.unit pieces (missing - 1) (value * 16 + digit), [])
  | .numeral part n, some c => scanNumeral part n c

/-- The token that the end of the text completes. -/
def Scan.last : Scan → List Token
  | .between | .stopped => []
  | .numeral part n => if part.canEnd then [numeralToken n] else [.stray]
  | _ => [.stray]

/-- Goes on with tokens read so far, last first. -/
def scanFrom (state : Scan) (tokens : List Token) : List (Option Char) → List Token
  | [] => (state.last.reverse ++ tokens).reverse
  | place :: rest =>
    let (next, completed) := state.step place
    scanFrom next (completed.reverse ++ tokens) rest

def tokens (text : List (Option Char)) : List Token :=
  scanFrom .between [] text

end SchemaCatalog.Json
