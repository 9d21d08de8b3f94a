import SchemaCatalog.Json.Printer
import SchemaCatalog.Proofs.Json.Grammar

/-!
Printed text. The text of a value that is plain stands for that very value, whatever its strings
and whole numbers are.
-/

namespace SchemaCatalog.Json

open Decimal (Numeral)
open Decimal.Numeral (Gathered significandBound)

/-! ### Plain values -/

/-- A value without floats. Its whole numbers have 64 bits, with or without a sign, and the keys of
its objects ascend. -/
inductive Plain : Json → Prop
  | null : Plain .null
  | bool (b : Bool) : Plain (.bool b)
  | integer {n : Int} (hlow : -2 ^ 63 ≤ n) (hhigh : n < 2 ^ 64) : Plain (.integer n)
  | string (s : String) : Plain (.string s)
  | array {items : List Json} (h : ∀ item ∈ items, Plain item) : Plain (.array items)
  | object {entries : List (String × Json)} (hkeys : entries.Pairwise (·.1 < ·.1))
    (h : ∀ e ∈ entries, Plain e.2) : Plain (.object entries)

/-! ### Whole numbers -/

theorem digitValue_digitChar {d : Nat} (h : d < 10) : digitValue d.digitChar = d :=
  Nat.toNat_digitChar_sub_48_of_lt_ten h

/-- The values of the digits of a number. -/
def digitsOf (n : Nat) : List Nat :=
  (Nat.toDigits 10 n).map digitValue

theorem digitsOf_of_lt {n : Nat} (h : n < 10) : digitsOf n = [n] := by
  rw [digitsOf, Nat.toDigits_of_lt_base h, List.map_singleton, digitValue_digitChar h]

theorem digitsOf_of_le {n : Nat} (h : 10 ≤ n) : digitsOf n = digitsOf (n / 10) ++ [n % 10] := by
  have hlast := digitValue_digitChar (Nat.mod_lt n (by decide : 0 < 10))
  rw [digitsOf, Nat.toDigits_of_base_le (by decide) h, List.map_append, List.map_singleton, hlast,
    digitsOf]

theorem toDigits_moves (negative : Bool) (n : Nat) :
    Moves (beforeDigits negative) (Nat.toDigits 10 n)
      (.numeral (if n = 0 then .zero else .whole) { negative, whole := (digitsOf n).reverse }) := by
  induction n using Nat.strong_induction_on with
  | _ n ih =>
    by_cases h : n < 10
    · rw [Nat.toDigits_of_lt_base h, digitsOf_of_lt h]
      have hdigit : n.digitChar.isDigit := by simp [Nat.isDigit_digitChar, h]
      refine .step ?_ (.refl _)
      rw [beforeDigits_step negative hdigit, digitValue_digitChar h]
      simp
    · have hle : 10 ≤ n := by omega
      have hfirst := ih (n / 10) (by omega)
      rw [if_neg (by omega)] at hfirst
      have hdigit : (n % 10).digitChar.isDigit := by simp [Nat.isDigit_digitChar, Nat.mod_lt]
      have hlast := Moves.whole (List.forall_mem_singleton.mpr hdigit)
        { negative, whole := (digitsOf (n / 10)).reverse }
      rw [Nat.toDigits_of_base_le (by decide) hle, if_neg (by omega), digitsOf_of_le hle]
      have hvalue := digitValue_digitChar (Nat.mod_lt n (by decide : 0 < 10))
      simpa [hvalue] using hfirst.trans hlast

theorem gathered_digitsOf {n : Nat} (h : n < significandBound) :
    (digitsOf n).foldl Gathered.whole {} = { significand := n } := by
  induction n using Nat.strong_induction_on with
  | _ n ih =>
    by_cases hn : n < 10
    · have hbound : ¬ significandBound ≤ n := by omega
      simp [digitsOf_of_lt hn, Gathered.whole, hbound]
    · have hsplit : n / 10 * 10 + n % 10 = n := by omega
      rw [digitsOf_of_le (by omega), List.foldl_append, ih (n / 10) (by omega) (by omega)]
      have hbound : ¬ significandBound ≤ n := by omega
      simp [Gathered.whole, hsplit, hbound]

theorem value_natural {n : Nat} (h : n < significandBound) :
    Numeral.value { whole := digitsOf n } = some (.integer n) := by
  simp [Numeral.value, gathered_digitsOf h]

theorem value_negative {n : Nat} (hpos : 0 < n) (h : n ≤ 2 ^ 63) :
    Numeral.value { negative := true, whole := digitsOf n } = some (.integer (-n)) := by
  have hbound : n < significandBound := by simp [significandBound, UInt64.size]; omega
  have hlow : ¬ Nat.pow 2 63 < n := Nat.not_lt.mpr h
  simp [Numeral.value, gathered_digitsOf hbound, hpos.ne', hlow]

theorem decimal_lexes (negative : Bool) (n : Nat) :
    Lexes (signText negative ++ Nat.toDigits 10 n) [.number { negative, whole := digitsOf n }] := by
  have hend : (if n = 0 then NumeralPart.zero else .whole).canEnd := by split <;> rfl
  have hlexes := Lexes.numeral hend ((sign_moves negative).trans (toDigits_moves negative n))
  simpa [numeralToken] using hlexes

theorem natural_chars (n : Nat) : chars (.integer n) = signText false ++ Nat.toDigits 10 n := by
  rw [chars, Int.toString_eq_repr, Int.repr_eq_if]
  simp [signText, Nat.repr_eq_ofList_toDigits]

theorem negative_chars {n : Nat} (h : 0 < n) :
    chars (.integer (-n)) = signText true ++ Nat.toDigits 10 n := by
  rw [chars, Int.toString_eq_repr, Int.repr_eq_if, if_neg (by omega)]
  simp [signText, Nat.repr_eq_ofList_toDigits]

/-- A sign is printed before no zero, which would be read as a float. -/
theorem integer_writes {n : Int} (hlow : -2 ^ 63 ≤ n) (hhigh : n < 2 ^ 64) :
    Writes (chars (.integer n)) (.number (some (.integer n))) := by
  by_cases hn : 0 ≤ n
  · obtain ⟨m, rfl⟩ := Int.eq_ofNat_of_zero_le hn
    rw [natural_chars, ← value_natural (by simp [significandBound, UInt64.size]; omega)]
    exact .number (decimal_lexes false m)
  · obtain ⟨m, rfl⟩ : ∃ m : Nat, n = -m := ⟨n.natAbs, by omega⟩
    rw [negative_chars (by omega), ← value_negative (by omega) (by omega)]
    exact .number (decimal_lexes true m)

/-! ### Strings -/

theorem escapedChar_piece (c : Char) :
    IsPiece (escapedChar c) (.char c) ∨
      c.toNat < 0x20 ∧ IsPiece (escapedChar c) (.unit c.toNat) := by
  unfold escapedChar
  split
  case h_8 hquote hback _ _ _ _ _ =>
    split
    next hcontrol =>
      have hdigit : ∀ n < 16, IsHexDigit n.digitChar n := fun n hn => ⟨hn, .inl rfl⟩
      have hunit := IsPiece.unit (hdigit 0 (by decide)) (hdigit 0 (by decide))
        (hdigit (c.toNat / 16) (by omega)) (hdigit (c.toNat % 16) (by omega))
      have hsum : 0 * 0x1000 + 0 * 0x100 + c.toNat / 16 * 0x10 + c.toNat % 16 = c.toNat := by omega
      rw [hsum] at hunit
      exact .inr ⟨hcontrol, hunit⟩
    next hcontrol => exact .inl (.plain (by grind) (by grind) (by omega))
  all_goals exact .inl (.letter (by decide))

theorem escaped_spells (cs : List Char) : Spells (cs.flatMap escapedChar) cs := by
  induction cs with
  | nil => exact .nil
  | cons c cs ih =>
    rw [List.flatMap_cons]
    rcases escapedChar_piece c with h | ⟨hcontrol, h⟩
    · exact .char h ih
    · simpa using Spells.unit h (.inl (by omega)) ih

theorem stringChars_lexes (s : String) : Lexes (stringChars s) [.string (some s)] :=
  (escaped_spells s.toList).lexes

/-! ### Values -/

theorem itemsChars_eq (items : List Json) :
    itemsChars items = [','].intercalate (items.map chars) := by
  induction items with
  | nil => rfl
  | cons item rest ih =>
    cases rest with
    | nil => simp [itemsChars]
    | cons next rest => simp [itemsChars, ih]

/-- A key and its value, as they are printed. -/
def memberChars (e : String × Json) : List Char :=
  stringChars e.1 ++ ':' :: chars e.2

theorem entriesChars_eq (entries : List (String × Json)) :
    entriesChars entries = [','].intercalate (entries.map memberChars) := by
  induction entries with
  | nil => rfl
  | cons e rest ih =>
    cases rest with
    | nil => simp [entriesChars, memberChars]
    | cons next rest => simp [entriesChars, memberChars, ih]

theorem chars_array (items : List Json) :
    chars (.array items) = '[' :: [','].intercalate (items.map chars) ++ [']'] := by
  rw [chars, itemsChars_eq]

theorem chars_object (entries : List (String × Json)) :
    chars (.object entries) =
      '\x7b' :: [','].intercalate (entries.map memberChars) ++ ['\x7d'] := by
  rw [chars, entriesChars_eq]

namespace Draft

theorem ofItems_eq (items : List Json) : ofJson.ofItems items = items.map ofJson := by
  induction items with
  | nil => rfl
  | cons item rest ih => simp [ofJson.ofItems, ih]

theorem ofEntries_eq (entries : List (String × Json)) :
    ofJson.ofEntries entries = entries.map fun e => (some e.1, ofJson e.2) := by
  induction entries with
  | nil => rfl
  | cons e rest ih => simp [ofJson.ofEntries, ih]

theorem ofJson_array (items : List Json) :
    ofJson (.array items) = .array (items.map ofJson) true := by
  rw [ofJson, ofItems_eq]

theorem ofJson_object (entries : List (String × Json)) :
    ofJson (.object entries) = .object (entries.map fun e => (some e.1, ofJson e.2)) true := by
  rw [ofJson, ofEntries_eq]

end Draft

/-- Printed text stands for the value that was printed. -/
theorem Plain.writes {j : Json} (h : j.Plain) : Writes j.chars (.ofJson j) := by
  induction h with
  | null => exact .nullWord
  | bool b =>
    cases b with
    | false => exact .falseWord
    | true => exact .trueWord
  | integer hlow hhigh => exact integer_writes hlow hhigh
  | string s => exact .string (stringChars_lexes s)
  | @array items _ ih =>
    rw [chars_array, Draft.ofJson_array]
    exact .array (by simpa [List.forall₂_map_left_iff, List.forall₂_map_right_iff] using ih)
  | @object entries _ _ ih =>
    rw [chars_object, Draft.ofJson_object]
    refine .object ?_
    rw [List.forall₂_map_left_iff, List.forall₂_map_right_iff, List.forall₂_same]
    exact fun e he => .of_key (stringChars_lexes e.1) (ih e he)

end SchemaCatalog.Json
