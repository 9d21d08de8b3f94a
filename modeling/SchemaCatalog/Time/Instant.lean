import SchemaCatalog.Time.Calendar

/-!
Points in time with nanoseconds, within the years that the calendar covers. A second may be longer
than a billion nanoseconds: the rest is a leap second.
-/

namespace SchemaCatalog

/-- A span of time in milliseconds. -/
abbrev Millis := Int

structure Instant where
  /-- Seconds since the start of 1970, without leap seconds. -/
  seconds : Int
  nanos : Nat
deriving DecidableEq, Repr, Inhabited

namespace Instant

def secondsPerDay : Int := 86400

def earliest : Int :=
  Time.Date.toDays ⟨-262143, 1, 1⟩ * secondsPerDay

def latest : Int :=
  Time.Date.toDays ⟨262142, 12, 31⟩ * secondsPerDay + 86399

def inRange (t : Instant) : Bool :=
  earliest ≤ t.seconds && t.seconds ≤ latest

/-- `none` when the sum leaves the range of the calendar. -/
def add? (t : Instant) (span : Millis) : Option Instant :=
  let nanos : Int := t.nanos + span * 1000000
  let sum : Instant := ⟨t.seconds + nanos / 1000000000, (nanos % 1000000000).toNat⟩
  if sum.inRange then some sum else none

def isAfter (t u : Instant) : Bool :=
  u.seconds < t.seconds || (u.seconds = t.seconds && u.nanos < t.nanos)

/-- Whether something last refreshed at `refreshed` is later than `now + window`. What was never
refreshed is not; otherwise `none` says that the cut-off lies outside the calendar. -/
def isWithin (refreshed : Option Instant) (window : Millis) (now : Instant) : Option Bool :=
  match refreshed with
  | none => some false
  | some t => (now.add? window).map t.isAfter

theorem isAfter_irrefl (t : Instant) : t.isAfter t = false := by
  simp [isAfter]

end Instant

end SchemaCatalog
