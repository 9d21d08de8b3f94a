/-!
Reading bytes as UTF-8 text. A run of bytes that starts a character and cannot be continued is one
unreadable place, so a text with faults has a length of its own.
-/

namespace SchemaCatalog.Text.Utf8

/-- A character of which some bytes have been read: the bits so far, how many continuation bytes
are missing, and the range in which the next of them lies. -/
structure Partial where
  bits : Nat
  missing : Nat
  low : Nat
  high : Nat

/-- What a first byte means: a whole character, the start of one, or neither. -/
inductive Lead where
  | whole (c : Char)
  | start (p : Partial)
  | stray

def lead (b : Nat) : Lead :=
  if b < 0x80 then .whole (Char.ofNat b)
  else if 0xC2 ≤ b && b ≤ 0xDF then .start ⟨b - 0xC0, 1, 0x80, 0xBF⟩
  else if b == 0xE0 then .start ⟨0, 2, 0xA0, 0xBF⟩
  else if b == 0xED then .start ⟨0xD, 2, 0x80, 0x9F⟩
  else if 0xE1 ≤ b && b ≤ 0xEF then .start ⟨b - 0xE0, 2, 0x80, 0xBF⟩
  else if b == 0xF0 then .start ⟨0, 3, 0x90, 0xBF⟩
  else if 0xF1 ≤ b && b ≤ 0xF3 then .start ⟨b - 0xF0, 3, 0x80, 0xBF⟩
  else if b == 0xF4 then .start ⟨4, 3, 0x80, 0x8F⟩
  else .stray

/-- The places of a byte string read so far, last first, and the character begun. -/
structure Progress where
  places : List (Option Char) := []
  begun : Option Partial := none

def Progress.begin (p : Progress) (b : Nat) : Progress :=
  match lead b with
  | .whole c => ⟨some c :: p.places, none⟩
  | .start q => ⟨p.places, some q⟩
  | .stray => ⟨none :: p.places, none⟩

def Progress.step (p : Progress) (byte : UInt8) : Progress :=
  let b := byte.toNat
  match p.begun with
  | none => p.begin b
  | some q =>
    if q.low ≤ b && b ≤ q.high then
      let bits := q.bits * 64 + (b - 0x80)
      if q.missing ≤ 1 then ⟨some (Char.ofNat bits) :: p.places, none⟩
      else ⟨p.places, some ⟨bits, q.missing - 1, 0x80, 0xBF⟩⟩
    else
      Progress.begin ⟨none :: p.places, none⟩ b

def Progress.finish (p : Progress) : List (Option Char) :=
  match p.begun with
  | none => p.places.reverse
  | some _ => (none :: p.places).reverse

/-- The characters of a byte string, with `none` for each unreadable place. -/
def decode (bytes : List UInt8) : List (Option Char) :=
  (bytes.foldl Progress.step {}).finish

/-- The text of a byte string, with the replacement character for each unreadable place. -/
def decodeLossy (bytes : List UInt8) : String :=
  String.ofList ((decode bytes).map (·.getD '\uFFFD'))

def encode (s : String) : List UInt8 :=
  s.toUTF8.data.toList

end SchemaCatalog.Text.Utf8
