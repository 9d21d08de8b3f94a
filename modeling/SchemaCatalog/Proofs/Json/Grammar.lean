import Mathlib.Data.List.Forall2
import Mathlib.Tactic.IntervalCases
import SchemaCatalog.Proofs.Json.Draft

/-!
The grammar of JSON text, and how keys are spelled in it. Numbers have no bound, strings may hold
halves of surrogate pairs, and nothing limits how deep values nest: the grammar is that of what is
skipped. Whatever it admits is read as a draft that can be skipped.
-/

namespace SchemaCatalog.Json

open Decimal (Numeral)

/-! ### Strings -/

/-- The letters that may follow a backslash, with what they stand for. -/
def escapeLetters : List (Char × Char) :=
  [('"', '"'), ('\\', '\\'), ('/', '/'), ('b', '\x08'), ('f', '\x0c'), ('n', '\n'), ('r', '\r'),
    ('t', '\t')]

/-- A digit of base sixteen, of either case. -/
def IsHexDigit (c : Char) (n : Nat) : Prop :=
  n < 16 ∧ (c = n.digitChar ∨ c = n.digitChar.toUpper)

/-- The texts of the pieces of a string. -/
inductive IsPiece : List Char → Piece → Prop
  | plain {c : Char} (hquote : c ≠ '"') (hback : c ≠ '\\') (hcontrol : 0x20 ≤ c.toNat) :
    IsPiece [c] (.char c)
  | letter {e c : Char} (h : (e, c) ∈ escapeLetters) : IsPiece ['\\', e] (.char c)
  | unit {a b c d : Char} {i j k l : Nat} (ha : IsHexDigit a i) (hb : IsHexDigit b j)
    (hc : IsHexDigit c k) (hd : IsHexDigit d l) :
    IsPiece ['\\', 'u', a, b, c, d] (.unit (i * 0x1000 + j * 0x100 + k * 0x10 + l))

/-- Any pieces between quotes. -/
def IsString (text : List Char) : Prop :=
  ∃ parts : List (List Char), (∀ part ∈ parts, ∃ p, IsPiece part p) ∧
    text = '"' :: parts.flatten ++ ['"']

/-- The text between the quotes of a string that stands for these characters. -/
inductive Spells : List Char → List Char → Prop
  | nil : Spells [] []
  | char {part text cs : List Char} {c : Char} (h : IsPiece part (.char c)) (ht : Spells text cs) :
    Spells (part ++ text) (c :: cs)
  | unit {part text cs : List Char} {n : Nat} (h : IsPiece part (.unit n))
    (hn : n < 0xD800 ∨ 0xE000 ≤ n) (ht : Spells text cs) : Spells (part ++ text) (.ofNat n :: cs)
  | pair {part next text cs : List Char} {high low : Nat} (h : IsPiece part (.unit high))
    (h' : IsPiece next (.unit low)) (hhigh : 0xD800 ≤ high ∧ high < 0xDC00)
    (hlow : 0xDC00 ≤ low ∧ low < 0xE000) (ht : Spells text cs) :
    Spells (part ++ next ++ text)
      (.ofNat (0x10000 + (high - 0xD800) * 0x400 + (low - 0xDC00)) :: cs)

theorem IsHexDigit.value {c : Char} {n : Nat} (h : IsHexDigit c n) : hexValue? c = some n := by
  obtain ⟨hn, rfl | rfl⟩ := h <;> interval_cases n <;> decide

theorem escapeMeaning?_of_mem {e c : Char} (h : (e, c) ∈ escapeLetters) :
    e ≠ 'u' ∧ escapeMeaning? e = some c := by
  simp only [escapeLetters, List.mem_cons, Prod.mk.injEq, List.not_mem_nil, or_false] at h
  rcases h with h | h | h | h | h | h | h | h <;> obtain ⟨rfl, rfl⟩ := h <;> decide

theorem IsPiece.pieces {part : List Char} {p : Piece} (h : IsPiece part p) : Pieces part [p] := by
  cases h with
  | plain hquote hback hcontrol => exact .plain hquote hback (by omega)
  | letter h =>
    obtain ⟨hu, hmeaning⟩ := escapeMeaning?_of_mem h
    exact .letter hu hmeaning
  | @unit a b c d i j k l ha hb hc hd =>
    have hsum : i * 0x1000 + j * 0x100 + k * 0x10 + l = ((i * 16 + j) * 16 + k) * 16 + l := by omega
    rw [hsum]
    exact .unit ha.value hb.value hc.value hd.value

theorem IsString.lexes {text : List Char} (h : IsString text) : ∃ s, Lexes text [.string s] := by
  obtain ⟨parts, hparts, rfl⟩ := h
  have hpieces : ∃ ps, Pieces parts.flatten ps := by
    induction parts with
    | nil => exact ⟨[], .nil⟩
    | cons part parts ih =>
      obtain ⟨⟨p, hp⟩, hrest⟩ := List.forall_mem_cons.mp hparts
      obtain ⟨ps, hps⟩ := ih hrest
      exact ⟨_, hp.pieces.append hps⟩
  obtain ⟨ps, hps⟩ := hpieces
  exact ⟨_, hps.lexes⟩

theorem Piece.join_unit {n : Nat} (h : n < 0xD800 ∨ 0xE000 ≤ n) (before : List Char)
    (rest : List Piece) : join before (.unit n :: rest) = join (.ofNat n :: before) rest := by
  have hhigh : isHighSurrogate n = false := by simp [isHighSurrogate]; omega
  have hlow : isLowSurrogate n = false := by simp [isLowSurrogate]; omega
  cases rest with
  | nil => simp [join, hhigh, hlow]
  | cons p rest => cases p <;> simp [join, hhigh, hlow]

theorem Piece.join_pair {high low : Nat} (hhigh : 0xD800 ≤ high ∧ high < 0xDC00)
    (hlow : 0xDC00 ≤ low ∧ low < 0xE000) (before : List Char) (rest : List Piece) :
    join before (.unit high :: .unit low :: rest) =
      join (.ofNat (0x10000 + (high - 0xD800) * 0x400 + (low - 0xDC00)) :: before) rest := by
  have hhigh : isHighSurrogate high := by simp [isHighSurrogate]; omega
  have hlow : isLowSurrogate low := by simp [isLowSurrogate]; omega
  simp [join, hhigh, hlow]

theorem Spells.pieces {text cs : List Char} (h : Spells text cs) :
    ∃ ps, Pieces text ps ∧
      ∀ before, Piece.join before ps = some (String.ofList (before.reverse ++ cs)) := by
  induction h with
  | nil => exact ⟨[], .nil, fun before => by simp [Piece.join]⟩
  | @char part text cs c h _ ih =>
    obtain ⟨ps, hps, hjoin⟩ := ih
    exact ⟨_, h.pieces.append hps, fun before => by simp [Piece.join, hjoin]⟩
  | @unit part text cs n h hn _ ih =>
    obtain ⟨ps, hps, hjoin⟩ := ih
    refine ⟨_, h.pieces.append hps, fun before => ?_⟩
    rw [List.singleton_append, Piece.join_unit hn, hjoin]
    simp
  | @pair part next text cs high low h h' hhigh hlow _ ih =>
    obtain ⟨ps, hps, hjoin⟩ := ih
    refine ⟨_, (h.pieces.append h'.pieces).append hps, fun before => ?_⟩
    simp only [List.cons_append, List.nil_append]
    rw [Piece.join_pair hhigh hlow, hjoin]
    simp

theorem Spells.lexes {text : List Char} {s : String} (h : Spells text s.toList) :
    Lexes ('"' :: text ++ ['"']) [.string (some s)] := by
  obtain ⟨ps, hps, hjoin⟩ := h.pieces
  have hs : Piece.join [] ps = some s := by simp [hjoin]
  exact hs ▸ hps.lexes

/-! ### Numbers -/

inductive IsWhole : List Char → Prop
  | zero : IsWhole ['0']
  | digits {d : Char} {ds : List Char} (hd : d ≠ '0') (h : Digits (d :: ds)) : IsWhole (d :: ds)

inductive IsFraction : List Char → Prop
  | none : IsFraction []
  | digits {d : Char} {ds : List Char} (h : Digits (d :: ds)) : IsFraction ('.' :: d :: ds)

inductive IsExponent : List Char → Prop
  | none : IsExponent []
  | digits {mark d : Char} {sign ds : List Char} (hm : mark ∈ ['e', 'E'])
    (hs : sign ∈ [[], ['+'], ['-']]) (h : Digits (d :: ds)) : IsExponent (mark :: sign ++ d :: ds)

inductive IsNumber : List Char → Prop
  | mk {sign whole fraction exponent : List Char} (hs : sign ∈ [[], ['-']]) (hw : IsWhole whole)
    (hf : IsFraction fraction) (he : IsExponent exponent) :
    IsNumber (sign ++ whole ++ fraction ++ exponent)

/-- Some numeral is read up to one of these parts. -/
def InNumeral (parts : List NumeralPart) (s : Scan) : Prop :=
  ∃ part ∈ parts, ∃ n, s = .numeral part n

theorem InNumeral.mono {parts more : List NumeralPart} {s : Scan} (h : InNumeral parts s)
    (hsub : parts ⊆ more) : InNumeral more s := by
  obtain ⟨part, hp, hn⟩ := h
  exact ⟨part, hsub hp, hn⟩

theorem Digits.move {ds : List Char} (h : Digits ds) (part : NumeralPart)
    (hp : part ∈ [.whole, .fraction, .exponent]) (n : Numeral) :
    ∃ s, InNumeral [part] s ∧ Moves (.numeral part n) ds s := by
  induction ds generalizing n with
  | nil => exact ⟨_, ⟨part, by simp, n, rfl⟩, .refl _⟩
  | cons d ds ih =>
    obtain ⟨hd, hds⟩ := digits_cons.mp h
    have hstep : ∃ n', (Scan.numeral part n).step (some d) = (.numeral part n', []) := by
      simp only [List.mem_cons, List.not_mem_nil, or_false] at hp
      rcases hp with rfl | rfl | rfl <;> exact ⟨_, by simp [Scan.step, scanNumeral, hd]; rfl⟩
    obtain ⟨n', hstep⟩ := hstep
    obtain ⟨s, hs, hmove⟩ := ih hds n'
    exact ⟨s, hs, .step hstep hmove⟩

theorem IsWhole.move {sign whole : List Char} (hs : sign ∈ [[], ['-']]) (hw : IsWhole whole) :
    ∃ s, InNumeral [.zero, .whole] s ∧ Moves .between (sign ++ whole) s := by
  obtain ⟨negative, rfl⟩ : ∃ negative, sign = signText negative := by
    simp only [List.mem_cons, List.not_mem_nil, or_false] at hs
    rcases hs with rfl | rfl
    · exact ⟨false, rfl⟩
    · exact ⟨true, rfl⟩
  have hsign := sign_moves negative
  cases hw with
  | zero =>
    have hzero := Moves.step (beforeDigits_step negative (by decide : '0'.isDigit)) (.refl _)
    exact ⟨_, ⟨.zero, by simp, _, rfl⟩, hsign.trans hzero⟩
  | @digits d ds hd h =>
    obtain ⟨hdigit, hds⟩ := digits_cons.mp h
    have hfirst := beforeDigits_step negative hdigit
    rw [if_neg hd] at hfirst
    obtain ⟨s, hs, hmove⟩ := hds.move .whole (by simp) _
    exact ⟨s, hs.mono (by simp), hsign.trans (.step hfirst hmove)⟩

theorem IsFraction.move {text : List Char} (h : IsFraction text) {r : Scan}
    (hr : InNumeral [.zero, .whole] r) :
    ∃ s, InNumeral [.zero, .whole, .fraction] s ∧ Moves r text s := by
  cases h with
  | none => exact ⟨r, hr.mono (by simp), .refl _⟩
  | @digits d ds h =>
    obtain ⟨hd, hds⟩ := digits_cons.mp h
    obtain ⟨part, hp, n, rfl⟩ := hr
    have hpoint : (Scan.numeral part n).step (some '.') = (.numeral .point n, []) := by
      simp only [List.mem_cons, List.not_mem_nil, or_false] at hp
      rcases hp with rfl | rfl <;> rfl
    have hfirst : (Scan.numeral .point n).step (some d) =
        (.numeral .fraction (addFraction n (digitValue d)), []) := by
      simp [Scan.step, scanNumeral, hd]
    obtain ⟨s, hs, hmove⟩ := hds.move .fraction (by simp) _
    exact ⟨s, hs.mono (by simp), .step hpoint (.step hfirst hmove)⟩

theorem IsExponent.move {text : List Char} (h : IsExponent text) {r : Scan}
    (hr : InNumeral [.zero, .whole, .fraction] r) :
    ∃ s, InNumeral [.zero, .whole, .fraction, .exponent] s ∧ Moves r text s := by
  cases h with
  | none => exact ⟨r, hr.mono (by simp), .refl _⟩
  | @digits mark d sign ds hm hs h =>
    obtain ⟨hd, hds⟩ := digits_cons.mp h
    obtain ⟨part, hp, n, rfl⟩ := hr
    have hmark : (Scan.numeral part n).step (some mark) = (.numeral .mark n, []) := by
      simp only [List.mem_cons, List.not_mem_nil, or_false] at hp hm
      rcases hp with rfl | rfl | rfl <;> rcases hm with rfl | rfl <;> rfl
    have hsign : ∃ s, InNumeral [.mark, .markSign] s ∧ Moves (.numeral .mark n) sign s := by
      simp only [List.mem_cons, List.not_mem_nil, or_false] at hs
      rcases hs with rfl | rfl | rfl
      · exact ⟨_, ⟨.mark, by simp, n, rfl⟩, .refl _⟩
      · exact ⟨_, ⟨.markSign, by simp, n, rfl⟩, .step rfl (.refl _)⟩
      · exact ⟨_, ⟨.markSign, by simp, _, rfl⟩, .step rfl (.refl _)⟩
    obtain ⟨_, ⟨part', hp', n', rfl⟩, hsign⟩ := hsign
    have hfirst : (Scan.numeral part' n').step (some d) =
        (.numeral .exponent (addExponent n' (digitValue d)), []) := by
      simp only [List.mem_cons, List.not_mem_nil, or_false] at hp'
      rcases hp' with rfl | rfl <;> simp [Scan.step, scanNumeral, hd]
    obtain ⟨s, hs, hmove⟩ := hds.move .exponent (by simp) _
    exact ⟨s, hs.mono (by simp), .step hmark (hsign.trans (.step hfirst hmove))⟩

theorem IsNumber.lexes {text : List Char} (h : IsNumber text) : ∃ n, Lexes text [.number n] := by
  obtain ⟨hs, hw, hf, he⟩ := h
  obtain ⟨r, hr, hwhole⟩ := hw.move hs
  obtain ⟨s, hs, hfraction⟩ := hf.move hr
  obtain ⟨t, ⟨part, hp, n, rfl⟩, hexponent⟩ := he.move hs
  have hend : part.canEnd := by
    simp only [List.mem_cons, List.not_mem_nil, or_false] at hp
    rcases hp with rfl | rfl | rfl | rfl <;> rfl
  exact ⟨_, .numeral hend ((hwhole.trans hfraction).trans hexponent)⟩

/-! ### Values -/

/-- A string between blanks. -/
inductive IsKey : List Char → Prop
  | mk {before text after : List Char} (hb : Blanks before) (h : IsString text)
    (ha : Blanks after) : IsKey (before ++ text ++ after)

/-- The text is one value, of any kind and depth, with blanks wherever they may stand. -/
inductive IsValue : List Char → Prop
  | nullWord : IsValue ['n', 'u', 'l', 'l']
  | trueWord : IsValue ['t', 'r', 'u', 'e']
  | falseWord : IsValue ['f', 'a', 'l', 's', 'e']
  | number {text : List Char} (h : IsNumber text) : IsValue text
  | string {text : List Char} (h : IsString text) : IsValue text
  | emptyArray {blanks : List Char} (h : Blanks blanks) : IsValue ('[' :: blanks ++ [']'])
  | array {items : List (List Char)} (h : ∀ item ∈ items, IsValue item) :
    IsValue ('[' :: [','].intercalate items ++ [']'])
  | emptyObject {blanks : List Char} (h : Blanks blanks) : IsValue ('\x7b' :: blanks ++ ['\x7d'])
  | object {members : List (List Char × List Char)} (hk : ∀ m ∈ members, IsKey m.1)
    (hv : ∀ m ∈ members, IsValue m.2) :
    IsValue ('\x7b' :: [','].intercalate (members.map fun m => m.1 ++ ':' :: m.2) ++ ['\x7d'])
  | padded {before text after : List Char} (hb : Blanks before) (h : IsValue text)
    (ha : Blanks after) : IsValue (before ++ text ++ after)

theorem IsKey.lexes {text : List Char} (h : IsKey text) : ∃ s, Lexes text [.string s] := by
  obtain ⟨hb, htext, ha⟩ := h
  obtain ⟨s, hs⟩ := htext.lexes
  exact ⟨s, hs.padded hb ha⟩

namespace Draft

theorem itemsSkippable_iff {ds : List Draft} :
    isSkippable.itemsSkippable ds ↔ ∀ d ∈ ds, d.isSkippable := by
  induction ds with
  | nil => simp [isSkippable.itemsSkippable]
  | cons d ds ih => simp [isSkippable.itemsSkippable, ih]

theorem entriesSkippable_iff {es : List (Option String × Draft)} :
    isSkippable.entriesSkippable es ↔ ∀ e ∈ es, e.2.isSkippable := by
  induction es with
  | nil => simp [isSkippable.entriesSkippable]
  | cons e es ih => simp [isSkippable.entriesSkippable, ih]

end Draft

theorem exists_forall₂ {α β : Type} {R : α → β → Prop} {Q : β → Prop} {as : List α}
    (h : ∀ a ∈ as, ∃ b, R a b ∧ Q b) : ∃ bs, List.Forall₂ R as bs ∧ ∀ b ∈ bs, Q b := by
  induction as with
  | nil => exact ⟨[], .nil, nofun⟩
  | cons a as ih =>
    obtain ⟨⟨b, hb, hq⟩, hrest⟩ := List.forall_mem_cons.mp h
    obtain ⟨bs, hbs, hqs⟩ := ih hrest
    exact ⟨b :: bs, .cons hb hbs, List.forall_mem_cons.mpr ⟨hq, hqs⟩⟩

/-- Every value of the grammar is read, and can be skipped. -/
theorem IsValue.writes {text : List Char} (h : IsValue text) :
    ∃ d, Writes text d ∧ d.isSkippable := by
  induction h with
  | nullWord => exact ⟨_, .nullWord, rfl⟩
  | trueWord => exact ⟨_, .trueWord, rfl⟩
  | falseWord => exact ⟨_, .falseWord, rfl⟩
  | number h =>
    obtain ⟨n, hn⟩ := h.lexes
    exact ⟨_, .number hn, rfl⟩
  | string h =>
    obtain ⟨s, hs⟩ := h.lexes
    exact ⟨_, .string hs, rfl⟩
  | emptyArray h => exact ⟨_, .emptyArray h, rfl⟩
  | @array items _ ih =>
    obtain ⟨ds, hds, hskip⟩ := exists_forall₂ ih
    exact ⟨_, .array hds, by simpa [Draft.isSkippable, Draft.itemsSkippable_iff] using hskip⟩
  | emptyObject h => exact ⟨_, .emptyObject h, rfl⟩
  | @object members hk _ ih =>
    have hmembers : ∀ text ∈ members.map fun m => m.1 ++ ':' :: m.2,
        ∃ e, WritesMember text e ∧ e.2.isSkippable := by
      refine List.forall_mem_map.mpr fun m hm => ?_
      obtain ⟨s, hs⟩ := (hk m hm).lexes
      obtain ⟨d, hd, hskip⟩ := ih m hm
      exact ⟨(s, d), .of_key hs hd, hskip⟩
    obtain ⟨es, hes, hskip⟩ := exists_forall₂ hmembers
    exact ⟨_, .object hes, by simpa [Draft.isSkippable, Draft.entriesSkippable_iff] using hskip⟩
  | padded hb _ ha ih =>
    obtain ⟨d, hd, hskip⟩ := ih
    exact ⟨d, hd.padded hb ha, hskip⟩

end SchemaCatalog.Json
