import SchemaCatalog.Time.Instant
import SchemaCatalog.Text.Blank

/-!
Timestamps as text. Writing has one form for each instant; reading also accepts blanks between the
parts, numbers without their leading zeros, and any offset from universal time.
-/

namespace SchemaCatalog.Time.Rfc3339

/-! ### Writing -/

def padded (width n : Nat) : List Char :=
  let digits := Nat.toDigits 10 n
  List.replicate (width - digits.length) '0' ++ digits

/-- Years of four digits are plain; any other has a sign. -/
def yearText (year : Int) : List Char :=
  if 0 ≤ year && year ≤ 9999 then padded 4 year.toNat
  else (if year < 0 then '-' else '+') :: padded 4 year.natAbs

/-- As many digits as the fraction needs, in groups of three. -/
def fractionText (nanos : Nat) : List Char :=
  if nanos = 0 then []
  else if nanos % 1000000 = 0 then '.' :: padded 3 (nanos / 1000000)
  else if nanos % 1000 = 0 then '.' :: padded 6 (nanos / 1000)
  else '.' :: padded 9 nanos

def write (t : Instant) (zone : String) : String :=
  let date := Date.ofDays (t.seconds / Instant.secondsPerDay)
  let second := (t.seconds % Instant.secondsPerDay).toNat
  let leap := t.nanos / 1000000000
  String.ofList <|
    yearText date.year ++ '-' :: padded 2 date.month ++ '-' :: padded 2 date.day ++
    'T' :: padded 2 (second / 3600) ++ ':' :: padded 2 (second / 60 % 60) ++
    ':' :: padded 2 (second % 60 + leap) ++ fractionText (t.nanos % 1000000000) ++ zone.toList

/-! ### Reading -/

/-- A reader of the front of a text: what it found and what is left. -/
abbrev Front (α : Type) := List Char → Option (α × List Char)

def skipBlanks (s : List Char) : List Char :=
  s.dropWhile Text.isBlank

def digitsValue (digits : List Char) : Nat :=
  digits.foldl (fun n c => n * 10 + (c.toNat - '0'.toNat)) 0

/-- At least one digit, and at most `width` of them. -/
def number (width : Nat) : Front Nat := fun s =>
  let digits := (s.take width).takeWhile Char.isDigit
  if digits.isEmpty then none else some (digitsValue digits, s.drop digits.length)

def paddedNumber (width : Nat) : Front Nat := fun s =>
  number width (skipBlanks s)

/-- Up to four digits, or any number of them after a sign. -/
def signedYear : Front Int := fun s =>
  match skipBlanks s with
  | '-' :: rest => (number rest.length rest).map fun (n, r) => (-(n : Int), r)
  | '+' :: rest => (number rest.length rest).map fun (n, r) => ((n : Int), r)
  | s => (number 4 s).map fun (n, r) => ((n : Int), r)

def mark (c : Char) : Front Unit := fun s =>
  match skipBlanks s with
  | d :: rest => if d = c then some ((), rest) else none
  | [] => none

def date : Front Date := fun s => do
  let (year, s) ← signedYear s
  let (_, s) ← mark '-' s
  let (month, s) ← paddedNumber 2 s
  let (_, s) ← mark '-' s
  let (day, s) ← paddedNumber 2 s
  pure (⟨year, month, day⟩, s)

/-- Nanoseconds after a point, if there is one. Digits beyond the ninth are dropped. -/
def fraction : Front Nat := fun s =>
  match s with
  | '.' :: rest =>
    let digits := (rest.takeWhile Char.isDigit).take 9
    if digits.isEmpty then none
    else some (digitsValue digits * Nat.pow 10 (9 - digits.length), rest.dropWhile Char.isDigit)
  | s => some (0, s)

/-- The seconds since midnight and the nanoseconds; a sixtieth second is a leap second. -/
def timeOfDay : Front (Nat × Nat) := fun s => do
  let (hour, s) ← paddedNumber 2 s
  let (_, s) ← mark ':' s
  let (minute, s) ← paddedNumber 2 s
  let (_, s) ← mark ':' s
  let (second, s) ← paddedNumber 2 s
  let (nanos, s) ← fraction s
  guard (hour ≤ 23 && minute ≤ 59 && second ≤ 60)
  if second = 60 then pure ((hour * 3600 + minute * 60 + 59, nanos + 1000000000), s)
  else pure ((hour * 3600 + minute * 60 + second, nanos), s)

def isZoneGap (c : Char) : Bool :=
  c = ':' || Text.isBlank c

/-- Two digits of hours and two of minutes, in seconds. -/
def zoneSeconds : Front Int := fun s => do
  let (hours, s) ← twoDigits s
  let (minutes, s) ← twoDigits (s.dropWhile isZoneGap)
  guard (minutes ≤ 59 && hours ≤ 23)
  pure ((hours * 3600 + minutes * 60 : Nat), s)
where
  twoDigits : Front Nat
    | a :: b :: rest =>
      if a.isDigit && b.isDigit then some (digitsValue [a, b], rest) else none
    | _ => none

/-- The offset of the local time from universal time. -/
def zone : Front Int := fun s =>
  match skipBlanks s with
  | 'Z' :: rest | 'z' :: rest => some (0, rest)
  | '+' :: rest => zoneSeconds rest
  | '-' :: rest | '−' :: rest => (zoneSeconds rest).map fun (n, r) => (-n, r)
  | a :: b :: c :: rest =>
    if [a, b, c].map Char.toUpper = ['U', 'T', 'C'] then some (0, rest) else none
  | _ => none

def isSeparator (c : Char) : Bool :=
  c = 'T' || c = 't' || c = ' '

def read (text : String) : Option Instant := do
  let (date, s) ← date text.toList
  let (separator, s) ← s.head?.map (·, s.tail)
  guard (isSeparator separator && date.isValid)
  let ((second, nanos), s) ← timeOfDay s
  let (offset, s) ← zone s
  guard (skipBlanks s).isEmpty
  let wall : Instant := ⟨date.toDays * Instant.secondsPerDay + second, nanos⟩
  let t : Instant := ⟨wall.seconds - offset, nanos⟩
  guard (wall.inRange && t.inRange)
  pure t

end SchemaCatalog.Time.Rfc3339
