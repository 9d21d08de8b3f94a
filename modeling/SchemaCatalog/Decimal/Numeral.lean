/-!
Numerals as they are written, and the numbers that they stand for. Whole numbers of 64 bits are
exact. Any other numeral is a 64-bit significand scaled by a power of ten in floating point, so its
last digit may differ from that of the nearest float.
-/

namespace SchemaCatalog.Decimal

/-- A numeral taken apart. A fraction or an exponent that is present has at least one digit. -/
structure Numeral where
  negative : Bool := false
  whole : List Nat := []
  fraction : Option (List Nat) := none
  /-- Whether the exponent is negative, and its digits. -/
  exponent : Option (Bool × List Nat) := none
deriving Repr, DecidableEq

inductive Number where
  | integer (n : Int)
  | float (x : Float)

namespace Numeral

def significandBound : Nat := UInt64.size

/-- Digits gathered so far: the significand, the decimal places that it has been shifted by, and
whether a digit has been dropped because the significand was full. -/
structure Gathered where
  significand : Nat := 0
  scale : Int := 0
  full : Bool := false

/-- A whole digit beyond a full significand counts as a place. -/
def Gathered.whole (g : Gathered) (digit : Nat) : Gathered :=
  let next := g.significand * 10 + digit
  if g.full || significandBound ≤ next then { g with scale := g.scale + 1, full := true }
  else { g with significand := next }

/-- A digit of the fraction beyond a full significand is dropped. -/
def Gathered.fraction (g : Gathered) (digit : Nat) : Gathered :=
  let next := g.significand * 10 + digit
  if g.full || significandBound ≤ next then { g with full := true }
  else { g with significand := next, scale := g.scale - 1 }

def tenToThe (n : Nat) : Float :=
  Float.ofScientific 1 false n

/-- Divides by a power of ten beyond the range of floats in steps of the greatest one. -/
def scaleDown (x : Float) (places : Nat) : Float :=
  if places ≤ 308 then x / tenToThe places
  else if x == 0 then x
  else scaleDown (x / tenToThe 308) (places - 308)
termination_by places

/-- `none` when the number is beyond the greatest float. -/
def scaled (significand : Nat) (scale : Int) : Option Float :=
  let x := significand.toUInt64.toFloat
  if scale < 0 then some (scaleDown x (-scale).toNat)
  else if 308 < scale then (if significand = 0 then some x else none)
  else
    let y := x * tenToThe scale.toNat
    if y.isInf then none else some y

def ofDigits (digits : List Nat) : Nat :=
  digits.foldl (fun n d => n * 10 + d) 0

/-- A positive exponent beyond 31 bits is out of range whatever it scales, unless that is zero. -/
def floatMagnitude (numeral : Numeral) (g : Gathered) : Option Float :=
  match numeral.exponent with
  | none => scaled g.significand g.scale
  | some (negative, digits) =>
    let exponent : Int := ofDigits digits
    scaled g.significand (if negative then g.scale - exponent else g.scale + exponent)

/-- The number for a numeral, `none` when it is out of range. Negative zero is a float. -/
def value (numeral : Numeral) : Option Number :=
  let whole := numeral.whole.foldl Gathered.whole {}
  let digits := (numeral.fraction.getD []).foldl Gathered.fraction { whole with full := false }
  let signed (x : Float) : Number := .float (if numeral.negative then -x else x)
  if numeral.fraction.isSome || numeral.exponent.isSome || whole.full then
    (numeral.floatMagnitude digits).map signed
  else if numeral.negative then
    if whole.significand = 0 || Nat.pow 2 63 < whole.significand then
      some (signed whole.significand.toUInt64.toFloat)
    else some (.integer (-whole.significand))
  else some (.integer whole.significand)

end Numeral

end SchemaCatalog.Decimal
