import SchemaCatalog.Json.Draft
import SchemaCatalog.Proofs.Json.Scan

/-!
Texts that are read as one draft. Wherever a value may stand, the tokens of such a text do what
putting its draft there does, so the draft of an array or object is composed of those of its parts.
-/

namespace SchemaCatalog.Json

/-! ### Tokens that build a draft -/

namespace Builder

/-- A value may come next. -/
def Ready (b : Builder) : Prop :=
  b.intact ∧ (b.expects = .value ∨ b.expects = .firstItem)

theorem Ready.step_eq {b : Builder} (h : b.Ready) {t : Token} (ht : t ≠ .closeArray) :
    b.step t = b.value t := by
  obtain ⟨hintact, hexp | hexp⟩ := h
  · simp [step, hintact, hexp]
  · cases t <;> simp_all [step]

theorem Ready.step_openArray {b : Builder} (h : b.Ready) :
    b.step .openArray = b.openFrame (.array []) .firstItem :=
  h.step_eq nofun

theorem Ready.step_openObject {b : Builder} (h : b.Ready) :
    b.step .openObject = b.openFrame (.object []) .firstKey :=
  h.step_eq nofun

theorem put_of_array {b : Builder} {items : List Draft} {outer : List Frame}
    (h : b.frames = .array items :: outer) (d : Draft) :
    b.put d = { b with frames := .array (d :: items) :: outer, expects := .separator } := by
  simp [put, h]

theorem put_of_entry {b : Builder} {entries : List (Option String × Draft)} {k : Option String}
    {outer : List Frame} (h : b.frames = .entry entries k :: outer) (d : Draft) :
    b.put d =
      { b with frames := .object ((k, d) :: entries) :: outer, expects := .separator } := by
  simp [put, h]

theorem step_closeArray {b : Builder} {items : List Draft} {outer : List Frame} (hintact : b.intact)
    (hexp : b.expects = .firstItem ∨ b.expects = .separator)
    (hframes : b.frames = .array items :: outer) :
    b.step .closeArray = { b with frames := outer }.put (.array items.reverse true) := by
  rcases hexp with hexp | hexp <;> simp [step, separator, closeArray, hintact, hexp, hframes]

theorem step_closeObject {b : Builder} {entries : List (Option String × Draft)}
    {outer : List Frame} (hintact : b.intact)
    (hexp : b.expects = .firstKey ∨ b.expects = .separator)
    (hframes : b.frames = .object entries :: outer) :
    b.step .closeObject = { b with frames := outer }.put (.object entries.reverse true) := by
  rcases hexp with hexp | hexp <;> simp [step, separator, closeObject, hintact, hexp, hframes]

theorem put_congr {b c : Builder} (hframes : b.frames = c.frames) (hroot : b.root = c.root)
    (hintact : b.intact = c.intact) (d : Draft) : b.put d = c.put d := by
  obtain ⟨frames, e, root, intact⟩ := b
  obtain ⟨_, e', _, _⟩ := c
  obtain ⟨rfl, rfl, rfl⟩ : frames = _ ∧ root = _ ∧ intact = _ := ⟨hframes, hroot, hintact⟩
  cases frames with
  | nil => rfl
  | cons frame outer => cases frame <;> rfl

end Builder

/-- Where a value may come next, the tokens put the draft into its place. -/
def Builds (ts : List Token) (d : Draft) : Prop :=
  ∀ b : Builder, b.Ready → ts.foldl Builder.step b = b.put d

theorem Builds.single {t : Token} {d : Draft} (ht : t ≠ .closeArray)
    (h : ∀ b : Builder, b.value t = b.put d) : Builds [t] d := fun b hb => by
  rw [List.foldl_cons, List.foldl_nil, hb.step_eq ht, h]

/-! ### Texts that write a draft -/

/-- The text stands for the draft, whatever follows at a distance. -/
def Writes (text : List Char) (d : Draft) : Prop :=
  ∃ ts, Lexes text ts ∧ Builds ts d

/-- The text is a key and its value, with their drafts. -/
def WritesMember (text : List Char) (e : Option String × Draft) : Prop :=
  ∃ ts, Lexes text (.string e.1 :: .colon :: ts) ∧ Builds ts e.2

namespace Writes

variable {text : List Char} {t : Token} {d : Draft}

theorem of_token (h : Lexes text [t]) (ht : t ≠ .closeArray)
    (hput : ∀ b : Builder, b.value t = b.put d) : Writes text d :=
  ⟨[t], h, .single ht hput⟩

theorem nullWord : Writes ['n', 'u', 'l', 'l'] .null :=
  of_token .nullWord nofun fun _ => rfl

theorem trueWord : Writes ['t', 'r', 'u', 'e'] (.bool true) :=
  of_token .trueWord nofun fun _ => rfl

theorem falseWord : Writes ['f', 'a', 'l', 's', 'e'] (.bool false) :=
  of_token .falseWord nofun fun _ => rfl

theorem number {n : Decimal.Numeral} (h : Lexes text [.number n]) : Writes text (.number n.value) :=
  of_token h nofun fun _ => rfl

theorem string {s : Option String} (h : Lexes text [.string s]) : Writes text (.string s) :=
  of_token h nofun fun _ => rfl

theorem padded {before after : List Char} (hb : Blanks before) (h : Writes text d)
    (ha : Blanks after) : Writes (before ++ text ++ after) d := by
  obtain ⟨ts, hlex, hbuild⟩ := h
  exact ⟨ts, .padded hb hlex ha, hbuild⟩

theorem document (h : Writes text d) : Document.ofText (text.map some) = ⟨d, true⟩ := by
  obtain ⟨ts, hlex, hbuild⟩ := h
  have hready : ({} : Builder).Ready := ⟨rfl, .inl rfl⟩
  rw [Document.ofText, hlex.tokens_eq, hbuild _ hready]
  rfl

end Writes

theorem WritesMember.of_key {key value : List Char} {k : Option String} {d : Draft}
    (hkey : Lexes key [.string k]) (hvalue : Writes value d) :
    WritesMember (key ++ ':' :: value) (k, d) := by
  obtain ⟨ts, hlex, hbuild⟩ := hvalue
  exact ⟨ts, hkey.append_cons (by decide) rfl hlex, hbuild⟩

/-! ### Arrays -/

/-- The items of an open array and its end, read after the items before them. -/
theorem items_written {texts : List (List Char)} {ds : List Draft}
    (h : List.Forall₂ Writes texts ds) (hne : texts ≠ []) :
    ∃ ts, Lexes ([','].intercalate texts ++ [']']) ts ∧
      ∀ (b : Builder) (before : List Draft) (outer : List Frame), b.Ready →
        b.frames = .array before :: outer →
        ts.foldl Builder.step b =
          { b with frames := outer }.put (.array (before.reverse ++ ds) true) := by
  induction h with
  | nil => exact absurd rfl hne
  | @cons text d texts ds hd hds ih =>
    obtain ⟨us, hlex, hbuild⟩ := hd
    cases hds with
    | nil =>
      refine ⟨us ++ [.closeArray], ?_, fun b before outer hready hframes => ?_⟩
      · simpa using hlex.append_cons (by decide) rfl .nil
      · let full : Builder :=
          { b with frames := .array (d :: before) :: outer, expects := .separator }
        rw [List.foldl_append, hbuild b hready, Builder.put_of_array hframes, List.foldl_cons,
          List.foldl_nil, Builder.step_closeArray (b := full) hready.1 (.inr rfl) rfl,
          List.reverse_cons]
        exact Builder.put_congr rfl rfl rfl _
    | @cons next e texts ds he hds =>
      obtain ⟨ts, hlexes, hbuilds⟩ := ih (by simp)
      refine ⟨us ++ .comma :: ts, ?_, fun b before outer hready hframes => ?_⟩
      · simpa using hlex.append_cons (by decide) rfl hlexes
      · let next : Builder := { b with frames := .array (d :: before) :: outer, expects := .value }
        have hcomma : (b.put d).step .comma = next := by
          simp [next, Builder.put_of_array hframes, Builder.step, Builder.separator, hready.1]
        rw [List.foldl_append, hbuild b hready, List.foldl_cons, hcomma,
          hbuilds next (d :: before) outer ⟨hready.1, .inl rfl⟩ rfl]
        simp only [List.reverse_cons, List.append_assoc, List.singleton_append]
        exact Builder.put_congr rfl rfl rfl _

namespace Writes

theorem emptyArray {blanks : List Char} (h : Blanks blanks) :
    Writes ('[' :: blanks ++ [']']) (.array [] true) := by
  refine ⟨[.openArray, .closeArray], ?_, fun b hready => ?_⟩
  · exact ((Lexes.nil.cons_token rfl).blanks_append h).cons_token rfl
  · let opened := b.openFrame (.array []) .firstItem
    rw [List.foldl_cons, hready.step_openArray, List.foldl_cons, List.foldl_nil,
      Builder.step_closeArray (b := opened) hready.1 (.inl rfl) rfl]
    exact Builder.put_congr rfl rfl rfl _

theorem array {texts : List (List Char)} {ds : List Draft} (h : List.Forall₂ Writes texts ds) :
    Writes ('[' :: [','].intercalate texts ++ [']']) (.array ds true) := by
  by_cases hne : texts = []
  · subst hne
    cases h
    exact emptyArray (by simp [Blanks] : Blanks [])
  · obtain ⟨ts, hlex, hbuild⟩ := items_written h hne
    refine ⟨.openArray :: ts, hlex.cons_token rfl, fun b hready => ?_⟩
    let opened := b.openFrame (.array []) .firstItem
    rw [List.foldl_cons, hready.step_openArray,
      hbuild opened [] b.frames ⟨hready.1, .inr rfl⟩ rfl]
    exact Builder.put_congr rfl rfl rfl _

end Writes

/-! ### Objects -/

theorem member_read {e : Option String × Draft} {ts : List Token} (h : Builds ts e.2) {b : Builder}
    {before : List (Option String × Draft)} {outer : List Frame} (hintact : b.intact)
    (hexp : b.expects = .firstKey ∨ b.expects = .key)
    (hframes : b.frames = .object before :: outer) :
    (.string e.1 :: .colon :: ts).foldl Builder.step b =
      { b with frames := .object (e :: before) :: outer, expects := .separator } := by
  let entered : Builder := { b with frames := .entry before e.1 :: outer, expects := .value }
  have hcolon : (b.step (.string e.1)).step .colon = entered := by
    rcases hexp with hexp | hexp <;>
      simp [entered, Builder.step, Builder.key, hintact, hexp, hframes]
  rw [List.foldl_cons, List.foldl_cons, hcolon, h entered ⟨hintact, .inl rfl⟩,
    Builder.put_of_entry rfl]

theorem members_written {texts : List (List Char)} {es : List (Option String × Draft)}
    (h : List.Forall₂ WritesMember texts es) (hne : texts ≠ []) :
    ∃ ts, Lexes ([','].intercalate texts ++ ['\x7d']) ts ∧
      ∀ (b : Builder) (before : List (Option String × Draft)) (outer : List Frame),
        b.intact → b.expects = .firstKey ∨ b.expects = .key →
        b.frames = .object before :: outer →
        ts.foldl Builder.step b =
          { b with frames := outer }.put (.object (before.reverse ++ es) true) := by
  induction h with
  | nil => exact absurd rfl hne
  | @cons text e texts es he hes ih =>
    obtain ⟨us, hlex, hbuild⟩ := he
    cases hes with
    | nil =>
      refine ⟨(.string e.1 :: .colon :: us) ++ [.closeObject], ?_,
        fun b before outer hintact hexp hframes => ?_⟩
      · simpa using hlex.append_cons (by decide) rfl .nil
      · let full : Builder :=
          { b with frames := .object (e :: before) :: outer, expects := .separator }
        rw [List.foldl_append, member_read hbuild hintact hexp hframes, List.foldl_cons,
          List.foldl_nil, Builder.step_closeObject (b := full) hintact (.inr rfl) rfl,
          List.reverse_cons]
        exact Builder.put_congr rfl rfl rfl _
    | @cons next f texts es hf hes =>
      obtain ⟨ts, hlexes, hbuilds⟩ := ih (by simp)
      refine ⟨(.string e.1 :: .colon :: us) ++ .comma :: ts, ?_,
        fun b before outer hintact hexp hframes => ?_⟩
      · simpa using hlex.append_cons (by decide) rfl hlexes
      · let full : Builder :=
          { b with frames := .object (e :: before) :: outer, expects := .separator }
        let next : Builder := { full with expects := .key }
        have hcomma : full.step .comma = next := by
          simp [full, next, Builder.step, Builder.separator, hintact]
        rw [List.foldl_append, member_read hbuild hintact hexp hframes, List.foldl_cons, hcomma,
          hbuilds next (e :: before) outer hintact (.inr rfl) rfl]
        simp only [List.reverse_cons, List.append_assoc, List.singleton_append]
        exact Builder.put_congr rfl rfl rfl _

namespace Writes

theorem emptyObject {blanks : List Char} (h : Blanks blanks) :
    Writes ('\x7b' :: blanks ++ ['\x7d']) (.object [] true) := by
  refine ⟨[.openObject, .closeObject], ?_, fun b hready => ?_⟩
  · exact ((Lexes.nil.cons_token rfl).blanks_append h).cons_token rfl
  · let opened := b.openFrame (.object []) .firstKey
    rw [List.foldl_cons, hready.step_openObject, List.foldl_cons, List.foldl_nil,
      Builder.step_closeObject (b := opened) hready.1 (.inl rfl) rfl]
    exact Builder.put_congr rfl rfl rfl _

theorem object {texts : List (List Char)} {es : List (Option String × Draft)}
    (h : List.Forall₂ WritesMember texts es) :
    Writes ('\x7b' :: [','].intercalate texts ++ ['\x7d']) (.object es true) := by
  by_cases hne : texts = []
  · subst hne
    cases h
    exact emptyObject (by simp [Blanks] : Blanks [])
  · obtain ⟨ts, hlex, hbuild⟩ := members_written h hne
    refine ⟨.openObject :: ts, hlex.cons_token rfl, fun b hready => ?_⟩
    let opened := b.openFrame (.object []) .firstKey
    rw [List.foldl_cons, hready.step_openObject,
      hbuild opened [] b.frames hready.1 (.inl rfl) rfl]
    exact Builder.put_congr rfl rfl rfl _

end Writes

end SchemaCatalog.Json
