/-! Comparison of texts up to the case of the 26 ASCII letters. -/

namespace SchemaCatalog.Text

/-- `Char.toLower` changes ASCII letters alone. -/
def asciiFold (s : String) : List Char :=
  s.toList.map Char.toLower

def sameAsciiCase (a b : String) : Bool :=
  asciiFold a == asciiFold b

theorem sameAsciiCase_iff {a b : String} : sameAsciiCase a b = true ↔ asciiFold a = asciiFold b := by
  simp [sameAsciiCase]

theorem sameAsciiCase_refl (a : String) : sameAsciiCase a a = true := by
  simp [sameAsciiCase]

theorem sameAsciiCase_comm (a b : String) : sameAsciiCase a b = sameAsciiCase b a := by
  simp only [sameAsciiCase, Bool.beq_comm]

end SchemaCatalog.Text
