import SchemaCatalog.Decimal.Shortest

/-! The text of floating point numbers, in the style that a format prescribes. -/

namespace SchemaCatalog.Decimal

/-- How a format writes floating point numbers. -/
structure FloatStyle where
  tie : Tie
  /-- Whether a number with this decimal exponent is written without an exponent. -/
  positional : Int → Bool
  /-- What follows a whole number written without an exponent. -/
  wholeEnd : String
  notANumber : String
  infinity : String
  negativeInfinity : String

namespace FloatStyle

def zeros (n : Int) : List Char :=
  List.replicate n.toNat '0'

/-- Digits with the point placed after the digit of exponent zero. -/
def placePoint (style : FloatStyle) (digits : List Char) (exponent : Int) : List Char :=
  if exponent < 0 then
    ['0', '.'] ++ zeros (-exponent - 1) ++ digits
  else if digits.length ≤ exponent + 1 then
    digits ++ zeros (exponent + 1 - digits.length) ++ style.wholeEnd.toList
  else
    digits.take (exponent.toNat + 1) ++ '.' :: digits.drop (exponent.toNat + 1)

def withExponent (digits : List Char) (exponent : Int) : List Char :=
  let sign := if exponent < 0 then '-' else '+'
  let tail := match digits.drop 1 with
    | [] => []
    | rest => '.' :: rest
  digits.take 1 ++ tail ++ ['e', sign] ++ Nat.toDigits 10 exponent.natAbs

def magnitude (style : FloatStyle) (bits : UInt64) : List Char :=
  if bits.toNat % Nat.pow 2 63 = 0 then '0' :: style.wholeEnd.toList
  else
    let decimal := (Binary.ofBits bits).shortest style.tie
    let digits := Nat.toDigits 10 decimal.digits
    let exponent := decimal.scale + digits.length - 1
    if style.positional exponent then style.placePoint digits exponent
    else withExponent digits exponent

def text (style : FloatStyle) (x : Float) : String :=
  let bits := x.toBits
  let negative := bits.toNat / Nat.pow 2 63 = 1
  if x.isNaN then style.notANumber
  else if x.isInf then (if negative then style.negativeInfinity else style.infinity)
  else String.ofList ((if negative then ['-'] else []) ++ style.magnitude bits)

end FloatStyle

end SchemaCatalog.Decimal
