/-!
The shortest decimal that reads back as a given binary floating point number. The reals that round
to the number form an interval; of the coarsest decimal grid with a point in it, the nearer of the
number's two neighbours is taken.
-/

namespace SchemaCatalog.Decimal

/-- Which way a number exactly between two decimals goes. -/
inductive Tie where
  | even
  | up

/-- The positive number `mantissa * 2 ^ exponent`. At a power of two the gap to the next number
below is half of the gap above. -/
structure Binary where
  mantissa : Nat
  exponent : Int
  halfGapBelow : Bool

/-- The decimal `digits * 10 ^ scale`. -/
structure Scaled where
  digits : Nat
  scale : Int

/-- The magnitude of a finite float other than zero. -/
def Binary.ofBits (bits : UInt64) : Binary :=
  let fraction : Nat := bits.toNat % Nat.pow 2 52
  let power : Nat := bits.toNat / Nat.pow 2 52 % Nat.pow 2 11
  if power = 0 then ⟨fraction, -1074, false⟩
  else ⟨Nat.pow 2 52 + fraction, (power : Int) - 1075, fraction = 0 && power ≠ 1⟩

namespace Binary

/-- Quarters of the last binary place, brought to a common denominator with tens. -/
def quarters (b : Binary) (scale : Int) (n : Nat) : Nat :=
  n * Nat.pow 2 (b.exponent - 2).toNat * Nat.pow 10 (-scale).toNat

/-- A point of the grid `10 ^ scale`, brought to the same denominator. -/
def gridPoint (b : Binary) (scale : Int) (n : Nat) : Nat :=
  n * Nat.pow 10 scale.toNat * Nat.pow 2 (2 - b.exponent).toNat

/-- Whether `n * 10 ^ scale` rounds to the number. The ends of the interval belong to it iff the
mantissa is even. -/
def rounds (b : Binary) (scale : Int) (n : Nat) : Bool :=
  let low := b.quarters scale (4 * b.mantissa - (if b.halfGapBelow then 1 else 2))
  let high := b.quarters scale (4 * b.mantissa + 2)
  let point := b.gridPoint scale n
  if b.mantissa % 2 = 0 then low ≤ point && point ≤ high else low < point && point < high

/-- The nearer of the neighbours on the grid `10 ^ scale` that round to the number. -/
def onGrid (b : Binary) (tie : Tie) (scale : Int) : Option Nat :=
  let value := b.quarters scale (4 * b.mantissa)
  let below := value / b.gridPoint scale 1
  match b.rounds scale below, b.rounds scale (below + 1) with
  | false, false => none
  | true, false => some below
  | false, true => some (below + 1)
  | true, true =>
    let down := value - b.gridPoint scale below
    let up := b.gridPoint scale (below + 1) - value
    if down < up then some below
    else if up < down then some (below + 1)
    else
      match tie with
      | .even => some (if below % 2 = 0 then below else below + 1)
      | .up => some (below + 1)

/-- Tries `grids` further grids, each ten times finer than the one before. -/
def search (b : Binary) (tie : Tie) (scale : Int) : Nat → Scaled
  | 0 => ⟨b.quarters scale (4 * b.mantissa) / b.gridPoint scale 1, scale⟩
  | grids + 1 =>
    match b.onGrid tie scale with
    | some n => ⟨n, scale⟩
    | none => b.search tie (scale - 1) grids

/-- The search starts above the number; twenty grids further down every number has a decimal. -/
def shortest (b : Binary) (tie : Tie) : Scaled :=
  let magnitude := (Nat.log2 b.mantissa : Int) + b.exponent
  b.search tie (magnitude * 30103 / 100000 + 2) 20

end Binary

end SchemaCatalog.Decimal
