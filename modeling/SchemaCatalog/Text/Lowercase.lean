import SchemaCatalog.Text.CaseTable
import SchemaCatalog.Text.CharRange

/-!
The lowercase form of a text, by the full Unicode mapping. Every character maps on its own but
one: a capital sigma at the end of a word has a form of its own.
-/

namespace SchemaCatalog.Text

def CaseRun.image? (run : CaseRun) (n : Nat) : Option Nat :=
  if run.first ≤ n && n ≤ run.last && (n - run.first) % run.step == 0 then
    some (run.image + (n - run.first))
  else
    none

/-- The lowercase form of one character without its context. Only the dotted capital I has a form
of two characters. -/
def lowerChar (c : Char) : List Char :=
  if c.toNat < 0x80 then [c.toLower]
  else if c = '\u0130' then ['i', '\u0307']
  else
    match lowerRuns.findSome? (·.image? c.toNat) with
    | some n => [Char.ofNat n]
    | none => [c]

/-- Whether the first character that is not passed over is cased. -/
def meetsCased (text : List Char) : Bool :=
  match text.dropWhile (inRanges caseIgnorableRanges) with
  | [] => false
  | c :: _ => inRanges casedRanges c

/-- Lowercases the rest of a text of which `before` has been read, last character first. -/
def lowerAfter (before : List Char) : List Char → List Char
  | [] => []
  | c :: rest =>
    (if c = 'Σ' then [if meetsCased before && !meetsCased rest then 'ς' else 'σ'] else lowerChar c)
      ++ lowerAfter (c :: before) rest

def lowercase (s : String) : String :=
  String.ofList (lowerAfter [] s.toList)

theorem lowerAfter_nil (before : List Char) : lowerAfter before [] = [] := rfl

theorem lowercase_empty : lowercase "" = "" := by simp [lowercase, lowerAfter_nil]

end SchemaCatalog.Text
