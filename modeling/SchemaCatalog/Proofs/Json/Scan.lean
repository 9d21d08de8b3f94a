import Mathlib.Tactic.Common
import SchemaCatalog.Json.Token

/-!
Scanning, part by part. A part of a text either takes the scanner from one state to another without
a token, or, before a character that cannot belong to it, puts its tokens before those of the rest.
-/

namespace SchemaCatalog.Json

open Decimal (Numeral)

/-! ### Moves -/

/-- The tokens of a readable text that is scanned from some state on. -/
def Scan.run (s : Scan) (text : List Char) : List Token :=
  scanFrom s [] (text.map some)

theorem scanFrom_eq_append (s : Scan) (before : List Token) (text : List (Option Char)) :
    scanFrom s before text = before.reverse ++ scanFrom s [] text := by
  induction text generalizing s before with
  | nil => simp [scanFrom]
  | cons place rest ih =>
    simp only [scanFrom]
    rw [ih, ih _ (_ ++ [])]
    simp

theorem Scan.run_nil (s : Scan) : s.run [] = s.last := by
  simp [Scan.run, scanFrom]

theorem Scan.run_cons (s : Scan) (c : Char) (text : List Char) :
    s.run (c :: text) = (s.step (some c)).2 ++ (s.step (some c)).1.run text := by
  simp only [Scan.run, List.map_cons, scanFrom]
  rw [scanFrom_eq_append]
  simp

/-- The text takes the scanner from one state to another, and completes no token. -/
def Moves (s : Scan) (text : List Char) (t : Scan) : Prop :=
  ∀ rest, s.run (text ++ rest) = t.run rest

namespace Moves

variable {r s t : Scan} {text more : List Char} {c : Char}

theorem refl (s : Scan) : Moves s [] s := fun _ => rfl

theorem trans (h : Moves r text s) (h' : Moves s more t) : Moves r (text ++ more) t :=
  fun rest => by rw [List.append_assoc, h, h']

theorem step (h : r.step (some c) = (s, [])) (h' : Moves s text t) : Moves r (c :: text) t :=
  fun rest => by rw [List.cons_append, Scan.run_cons, h, h', List.nil_append]

end Moves

/-! ### Tokens -/

def delimiters : List Char :=
  [',', ':', ']', '\x7d', ' ', '\n', '\t', '\r']

/-- What follows cannot belong to a numeral. -/
def Delimited (rest : List Char) : Prop :=
  ∀ c ∈ rest.head?, c ∈ delimiters

theorem Delimited.nil : Delimited [] := by
  simp [Delimited]

theorem Delimited.cons {c : Char} (h : c ∈ delimiters) (rest : List Char) :
    Delimited (c :: rest) := by
  simpa [Delimited] using h

theorem Delimited.append {text rest : List Char} (h : Delimited text) (h' : Delimited rest) :
    Delimited (text ++ rest) := by
  cases text with
  | nil => exact h'
  | cons c text => exact .cons (h c rfl) _

/-- The text is made of these tokens, whatever follows at a distance. -/
def Lexes (text : List Char) (ts : List Token) : Prop :=
  ∀ rest, Delimited rest → Scan.between.run (text ++ rest) = ts ++ Scan.between.run rest

namespace Lexes

variable {text more : List Char} {ts us : List Token} {t : Token} {c : Char}

theorem nil : Lexes [] [] := fun _ _ => rfl

theorem append (h : Lexes text ts) (apart : Delimited more) (h' : Lexes more us) :
    Lexes (text ++ more) (ts ++ us) := fun rest hrest => by
  rw [List.append_assoc, h _ (apart.append hrest), h' rest hrest, List.append_assoc]

theorem cons (hc : scanBetween c = (.between, ts)) (h : Lexes text us) :
    Lexes (c :: text) (ts ++ us) := fun rest hrest => by
  rw [List.cons_append, Scan.run_cons, Scan.step, hc, h rest hrest, List.append_assoc]

theorem cons_token (hc : scanBetween c = (.between, [t])) (h : Lexes text us) :
    Lexes (c :: text) (t :: us) :=
  h.cons hc

theorem append_cons (h : Lexes text ts) (hd : c ∈ delimiters) (hc : scanBetween c = (.between, [t]))
    (h' : Lexes more us) : Lexes (text ++ c :: more) (ts ++ t :: us) :=
  h.append (.cons hd more) (h'.cons_token hc)

/-- All of the text but its last character moves the scanner, and that completes a token. -/
theorem of_moves {s : Scan} {t : Token} (h : Moves .between text s)
    (hc : s.step (some c) = (.between, [t])) : Lexes (text ++ [c]) [t] := fun rest _ => by
  rw [List.append_assoc, h, List.singleton_append, Scan.run_cons, hc]

theorem tokens_eq (h : Lexes text ts) : tokens (text.map some) = ts := by
  have hrun := h [] .nil
  rw [List.append_nil, Scan.run_nil, Scan.last, List.append_nil] at hrun
  exact hrun

theorem nullWord : Lexes ['n', 'u', 'l', 'l'] [.null] :=
  have hmove : Moves .between ['n', 'u', 'l'] _ := .step rfl (.step rfl (.step rfl (.refl _)))
  of_moves hmove rfl

theorem trueWord : Lexes ['t', 'r', 'u', 'e'] [.bool true] :=
  have hmove : Moves .between ['t', 'r', 'u'] _ := .step rfl (.step rfl (.step rfl (.refl _)))
  of_moves hmove rfl

theorem falseWord : Lexes ['f', 'a', 'l', 's', 'e'] [.bool false] :=
  have hmove : Moves .between ['f', 'a', 'l', 's'] _ :=
    .step rfl (.step rfl (.step rfl (.step rfl (.refl _))))
  of_moves hmove rfl

end Lexes

/-! ### Blanks -/

def Blanks (text : List Char) : Prop :=
  ∀ c ∈ text, isJsonBlank c

instance (text : List Char) : Decidable (Blanks text) :=
  List.decidableBAll (isJsonBlank · = true) text

theorem scanBetween_blank {c : Char} (h : isJsonBlank c) : scanBetween c = (.between, []) := by
  simp only [isJsonBlank, Bool.or_eq_true, beq_iff_eq] at h
  rcases h with ((rfl | rfl) | rfl) | rfl <;> rfl

theorem Blanks.delimited {text : List Char} (h : Blanks text) : Delimited text := fun c hc => by
  have hblank := h c (List.mem_of_mem_head? hc)
  simp only [isJsonBlank, Bool.or_eq_true, beq_iff_eq] at hblank
  rcases hblank with ((rfl | rfl) | rfl) | rfl <;> decide

theorem Lexes.blanks_append {blanks text : List Char} {ts : List Token} (hb : Blanks blanks)
    (h : Lexes text ts) : Lexes (blanks ++ text) ts := by
  induction blanks with
  | nil => exact h
  | cons c blanks ih =>
    obtain ⟨hc, hb⟩ := List.forall_mem_cons.mp hb
    exact (ih hb).cons (scanBetween_blank hc)

theorem Lexes.blanks {blanks : List Char} (h : Blanks blanks) : Lexes blanks [] := by
  simpa using Lexes.nil.blanks_append h

theorem Lexes.padded {before text after : List Char} {ts : List Token} (hb : Blanks before)
    (h : Lexes text ts) (ha : Blanks after) : Lexes (before ++ text ++ after) ts := by
  simpa using (h.blanks_append hb).append ha.delimited (.blanks ha)

/-! ### Strings -/

/-- Within a string, the text stands for these pieces. -/
def Pieces (text : List Char) (pieces : List Piece) : Prop :=
  ∀ before, Moves (.string before) text (.string (pieces.reverse ++ before))

namespace Pieces

variable {text more : List Char} {ps qs : List Piece}

theorem nil : Pieces [] [] := fun before => .refl (.string before)

theorem append (h : Pieces text ps) (h' : Pieces more qs) : Pieces (text ++ more) (ps ++ qs) :=
  fun before => by simpa using (h before).trans (h' (ps.reverse ++ before))

theorem plain {c : Char} (hquote : c ≠ '"') (hback : c ≠ '\\') (hcontrol : ¬ c.toNat < 0x20) :
    Pieces [c] [.char c] := fun _ =>
  .step (by simp [Scan.step, hquote, hback, hcontrol]) (.refl _)

theorem letter {c d : Char} (hu : c ≠ 'u') (h : escapeMeaning? c = some d) :
    Pieces ['\\', c] [.char d] := fun _ =>
  .step rfl (.step (by simp [Scan.step, hu, h]) (.refl _))

theorem unit {a b c d : Char} {i j k l : Nat} (ha : hexValue? a = some i)
    (hb : hexValue? b = some j) (hc : hexValue? c = some k) (hd : hexValue? d = some l) :
    Pieces ['\\', 'u', a, b, c, d] [.unit (((i * 16 + j) * 16 + k) * 16 + l)] := fun _ =>
  .step rfl <| .step rfl <| .step (by simp [Scan.step, ha]; rfl) <|
    .step (by simp [Scan.step, hb]; rfl) <| .step (by simp [Scan.step, hc]; rfl) <|
    .step (by simp [Scan.step, hd]) (.refl _)

theorem lexes (h : Pieces text ps) : Lexes ('"' :: text ++ ['"']) [.string (Piece.join [] ps)] :=
  .of_moves (.step rfl (h [])) (by simp [Scan.step])

end Pieces

/-! ### Numerals -/

theorem Scan.run_numeral {part : NumeralPart} (hend : part.canEnd) (n : Numeral)
    {rest : List Char} (h : Delimited rest) :
    (Scan.numeral part n).run rest = numeralToken n :: Scan.between.run rest := by
  cases rest with
  | nil => simp [Scan.run_nil, Scan.last, hend]
  | cons c rest =>
    have hc : c ∈ delimiters := h c rfl
    have hdigit : c.isDigit = false ∧ c ≠ '.' ∧ c ≠ 'e' ∧ c ≠ 'E' := by
      simp only [delimiters, List.mem_cons, List.not_mem_nil, or_false] at hc
      rcases hc with rfl | rfl | rfl | rfl | rfl | rfl | rfl | rfl <;> decide
    rw [Scan.run_cons, Scan.run_cons]
    cases part <;> simp_all [Scan.step, scanNumeral, NumeralPart.canEnd]

theorem Lexes.numeral {text : List Char} {part : NumeralPart} {n : Numeral} (hend : part.canEnd)
    (h : Moves .between text (.numeral part n)) : Lexes text [numeralToken n] := by
  intro rest hrest
  rw [h, Scan.run_numeral hend n hrest, List.singleton_append]

def Digits (text : List Char) : Prop :=
  ∀ c ∈ text, c.isDigit

instance (text : List Char) : Decidable (Digits text) :=
  List.decidableBAll (Char.isDigit · = true) text

theorem digits_cons {d : Char} {ds : List Char} : Digits (d :: ds) ↔ d.isDigit ∧ Digits ds :=
  List.forall_mem_cons

theorem scanBetween_digit {d : Char} (h : d.isDigit) :
    scanBetween d =
      (.numeral (if d = '0' then .zero else .whole) { whole := [digitValue d] }, []) := by
  have hblank : isJsonBlank d = false := by
    cases hb : isJsonBlank d with
    | false => rfl
    | true =>
      simp only [isJsonBlank, Bool.or_eq_true, beq_iff_eq] at hb
      rcases hb with ((rfl | rfl) | rfl) | rfl <;> exact absurd h (by decide)
  unfold scanBetween
  split
  case h_12 => rfl
  case h_13 => simp_all
  all_goals exact absurd h (by decide)

def signText (negative : Bool) : List Char :=
  if negative then ['-'] else []

/-- Where the digits of a numeral may begin. -/
def beforeDigits (negative : Bool) : Scan :=
  if negative then .numeral .sign { negative := true } else .between

theorem sign_moves (negative : Bool) :
    Moves .between (signText negative) (beforeDigits negative) := by
  cases negative with
  | false => exact .refl _
  | true => exact .step rfl (.refl _)

theorem beforeDigits_step (negative : Bool) {d : Char} (h : d.isDigit) :
    (beforeDigits negative).step (some d) =
      (.numeral (if d = '0' then .zero else .whole) { negative, whole := [digitValue d] }, []) := by
  cases negative with
  | false => exact scanBetween_digit h
  | true =>
    by_cases h0 : d = '0'
    · subst h0
      rfl
    · simp [beforeDigits, Scan.step, scanNumeral, h0, h]

theorem Moves.whole {text : List Char} (h : Digits text) (n : Numeral) :
    Moves (.numeral .whole n) text
      (.numeral .whole { n with whole := (text.map digitValue).reverse ++ n.whole }) := by
  induction text generalizing n with
  | nil => exact .refl _
  | cons c text ih =>
    obtain ⟨hc, ht⟩ := digits_cons.mp h
    refine .step (s := .numeral .whole { n with whole := digitValue c :: n.whole }) ?_ ?_
    · simp [Scan.step, scanNumeral, hc]
    · simpa using ih ht { n with whole := digitValue c :: n.whole }

end SchemaCatalog.Json
