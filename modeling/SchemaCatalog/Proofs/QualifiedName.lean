import Mathlib.Data.List.DropRight
import SchemaCatalog.QualifiedName

/-!
The grammar of references. A reference is divided at its first dot; each side is a name with any
backticks and double quotes around it. Reading a reference finds its two names wherever it has them,
and these names are the only ones.
-/

namespace SchemaCatalog.QualifiedName

variable {side front body back left right : List Char}

/-! ### Quotes around a side -/

theorem mem_of_mem_stripQuotes {c : Char} (h : c ∈ stripQuotes side) : c ∈ side := by
  have left := (List.dropWhile_sublist isQuote).subset (List.mem_reverse.mp h)
  exact (List.dropWhile_sublist isQuote).subset (List.mem_reverse.mp left)

theorem stripQuotes_eq_rdropWhile (side : List Char) :
    stripQuotes side = (side.dropWhile isQuote).rdropWhile isQuote := rfl

theorem stripQuotes_eq_nil_iff : stripQuotes side = [] ↔ ∀ c ∈ side, isQuote c := by
  rw [stripQuotes_eq_rdropWhile, List.rdropWhile_eq_nil_iff]
  constructor
  · intro rest c mem
    rw [← List.takeWhile_append_dropWhile (p := isQuote) (l := side)] at mem
    rcases List.mem_append.mp mem with taken | dropped
    · exact List.mem_takeWhile_imp taken
    · exact rest c dropped
  · intro all c mem
    exact all c ((List.dropWhile_sublist isQuote).subset mem)

/-- No quote stands at either end. -/
structure IsTrimmed (body : List Char) : Prop where
  first : ∀ c, body.head? = some c → isQuote c = false
  last : ∀ c, body.getLast? = some c → isQuote c = false

theorem isTrimmed_stripQuotes (side : List Char) : IsTrimmed (stripQuotes side) where
  first c found := by
    obtain ⟨rest, whole⟩ := List.rdropWhile_prefix isQuote (side.dropWhile isQuote)
    rw [← stripQuotes_eq_rdropWhile] at whole
    have stopped := List.head?_dropWhile_not isQuote side
    rw [← whole, List.head?_append, found] at stopped
    simpa using stopped
  last c found := by
    obtain ⟨nonempty, rfl⟩ := List.mem_getLast?_eq_getLast found
    exact Bool.eq_false_iff.mpr (List.rdropWhile_last_not isQuote _ nonempty)

theorem exists_eq_append_stripQuotes (side : List Char) : ∃ front back,
    (∀ c ∈ front, isQuote c) ∧ (∀ c ∈ back, isQuote c) ∧
      side = front ++ stripQuotes side ++ back := by
  refine ⟨side.takeWhile isQuote, (side.dropWhile isQuote).rtakeWhile isQuote,
    fun c => List.mem_takeWhile_imp, fun c => List.mem_rtakeWhile_imp, ?_⟩
  rw [stripQuotes_eq_rdropWhile, List.append_assoc, List.rdropWhile_append_rtakeWhile,
    List.takeWhile_append_dropWhile]

theorem dropWhile_isQuote (hfront : ∀ c ∈ front, isQuote c)
    (hbody : ∀ c, body.head? = some c → isQuote c = false) :
    (front ++ body).dropWhile isQuote = body := by
  rw [List.dropWhile_append_of_pos hfront]
  cases body with
  | nil => rfl
  | cons c body => exact List.dropWhile_cons_of_neg (by simp [hbody c rfl])

/-- Whatever quotes were put around a name, the name is left. -/
theorem stripQuotes_append (hfront : ∀ c ∈ front, isQuote c) (hback : ∀ c ∈ back, isQuote c)
    (nonempty : body ≠ []) (trimmed : IsTrimmed body) :
    stripQuotes (front ++ body ++ back) = body := by
  have begins : ∀ c, (body ++ back).head? = some c → isQuote c = false := by
    rw [List.head?_append_of_ne_nil _ nonempty]
    exact trimmed.first
  have ends : ∀ c, body.reverse.head? = some c → isQuote c = false := by
    rw [List.head?_reverse]
    exact trimmed.last
  have hback' : ∀ c ∈ back.reverse, isQuote c := fun c mem => hback c (List.mem_reverse.mp mem)
  rw [stripQuotes, List.append_assoc, dropWhile_isQuote hfront begins, List.reverse_append,
    dropWhile_isQuote hback' ends, List.reverse_reverse]

/-! ### Dots -/

theorem mem_of_mem_table {ident : String} {q : QualifiedName} (h : ofString? ident = some q)
    {c : Char} (hc : c ∈ q.table.toList) : c ∈ ident.toList := by
  unfold ofString? at h
  split at h
  · cases h
  · rename_i dot right split_at
    simp only at h
    split at h
    · cases h
    · cases h
      rw [String.toList_ofList] at hc
      have tail : c ∈ ident.toList.dropWhile (· != '.') :=
        split_at ▸ List.mem_cons_of_mem dot (mem_of_mem_stripQuotes hc)
      exact (List.dropWhile_sublist _).subset tail

theorem ofString?_of_no_dot {ident : String} (h : '.' ∉ ident.toList) : ofString? ident = none := by
  have undivided : ident.toList.dropWhile (· != '.') = [] := by
    refine List.dropWhile_eq_nil_iff.mpr fun c hc => ?_
    rw [bne_iff_ne]
    rintro rfl
    exact h hc
  rw [ofString?, undivided]

/-- Both sides of the first dot are freed from their quotes, and none may be empty then. -/
theorem ofString?_of_divided {ident : String} (divided : ident.toList = left ++ '.' :: right)
    (undivided : '.' ∉ left) : ofString? ident =
      if stripQuotes left = [] ∨ stripQuotes right = [] then none
      else some ⟨String.ofList (stripQuotes left), String.ofList (stripQuotes right)⟩ := by
  have before : ∀ c ∈ left, (c != '.') = true := by
    intro c mem
    rw [bne_iff_ne]
    rintro rfl
    exact undivided mem
  have rest : (left ++ '.' :: right).dropWhile (· != '.') = '.' :: right := by
    rw [List.dropWhile_append_of_pos before]
    rfl
  have first : (left ++ '.' :: right).takeWhile (· != '.') = left := by
    rw [List.takeWhile_append_of_pos before]
    simp
  simp only [ofString?, divided, rest, first]
  simp

theorem ofString?_divided (undivided : '.' ∉ left) (hleft : stripQuotes left ≠ [])
    (hright : stripQuotes right ≠ []) : ofString? (String.ofList (left ++ '.' :: right)) =
      some ⟨String.ofList (stripQuotes left), String.ofList (stripQuotes right)⟩ := by
  rw [ofString?_of_divided String.toList_ofList undivided, if_neg (not_or.mpr ⟨hleft, hright⟩)]

/-! ### The grammar -/

/-- Backticks and double quotes, and nothing else. -/
def IsQuoting (s : String) : Prop :=
  ∀ c ∈ s.toList, c = '\x60' ∨ c = '"'

/-- A name: it is not empty, and quotes stand inside it at most. -/
structure IsName (s : String) : Prop where
  nonempty : s ≠ ""
  first : ∀ c, s.toList.head? = some c → c ≠ '\x60' ∧ c ≠ '"'
  last : ∀ c, s.toList.getLast? = some c → c ≠ '\x60' ∧ c ≠ '"'

/-- The side is the name with quotes around it. -/
def Encloses (side name : String) : Prop :=
  ∃ front back, IsQuoting front ∧ IsQuoting back ∧ side = front ++ name ++ back

/-- The reference has these sides at its first dot. -/
structure Divides (ident left right : String) : Prop where
  parts : ident = left ++ "." ++ right
  undivided : '.' ∉ left.toList

/-- The reference is made of the two names. -/
def Denotes (ident : String) (q : QualifiedName) : Prop :=
  ∃ left right, Divides ident left right ∧ IsName q.schema ∧ IsName q.table ∧
    Encloses left q.schema ∧ Encloses right q.table

theorem isQuote_iff {c : Char} : isQuote c ↔ c = '\x60' ∨ c = '"' := by
  simp [isQuote]

theorem isQuote_eq_false_iff {c : Char} : isQuote c = false ↔ c ≠ '\x60' ∧ c ≠ '"' := by
  simp [isQuote]

theorem isQuoting_iff {s : String} : IsQuoting s ↔ stripQuotes s.toList = [] := by
  simp only [IsQuoting, stripQuotes_eq_nil_iff, isQuote_iff]

theorem isName_iff {s : String} : IsName s ↔ s.toList ≠ [] ∧ IsTrimmed s.toList := by
  have nonempty : s ≠ "" ↔ s.toList ≠ [] := by rw [Ne, Ne, String.toList_eq_nil_iff]
  constructor
  · rintro ⟨h, first, last⟩
    exact ⟨nonempty.mp h, fun c hc => isQuote_eq_false_iff.mpr (first c hc),
      fun c hc => isQuote_eq_false_iff.mpr (last c hc)⟩
  · rintro ⟨h, first, last⟩
    exact ⟨nonempty.mpr h, fun c hc => isQuote_eq_false_iff.mp (first c hc),
      fun c hc => isQuote_eq_false_iff.mp (last c hc)⟩

theorem Divides.toList_eq {ident left right : String} (h : Divides ident left right) :
    ident.toList = left.toList ++ '.' :: right.toList := by
  simp [h.parts]

/-- A name with quotes around it is what is left of the side without them. -/
theorem isName_and_encloses_iff {side name : String} : IsName name ∧ Encloses side name ↔
    stripQuotes side.toList ≠ [] ∧ name = String.ofList (stripQuotes side.toList) := by
  constructor
  · rintro ⟨named, front, back, hfront, hback, rfl⟩
    obtain ⟨nonempty, trimmed⟩ := isName_iff.mp named
    have freed : stripQuotes (front ++ name ++ back).toList = name.toList := by
      rw [String.toList_append, String.toList_append]
      exact stripQuotes_append (fun c mem => isQuote_iff.mpr (hfront c mem))
        (fun c mem => isQuote_iff.mpr (hback c mem)) nonempty trimmed
    rw [freed, String.ofList_toList]
    exact ⟨nonempty, rfl⟩
  · rintro ⟨nonempty, rfl⟩
    obtain ⟨front, back, hfront, hback, whole⟩ := exists_eq_append_stripQuotes side.toList
    refine ⟨isName_iff.mpr ?_, String.ofList front, String.ofList back, ?_, ?_, ?_⟩
    · rw [String.toList_ofList]
      exact ⟨nonempty, isTrimmed_stripQuotes _⟩
    · intro c mem
      exact isQuote_iff.mp (hfront c (by simpa using mem))
    · intro c mem
      exact isQuote_iff.mp (hback c (by simpa using mem))
    · rw [← String.toList_inj]
      simpa using whole

theorem exists_divides {ident : String} (h : '.' ∈ ident.toList) :
    ∃ left right, Divides ident left right := by
  obtain ⟨left, right, divided, undivided⟩ := List.eq_append_cons_of_mem h
  refine ⟨String.ofList left, String.ofList right, ?_, by simpa using undivided⟩
  rw [← String.toList_inj]
  simpa using divided

theorem Divides.ofString?_eq_some_iff {ident left right : String} (h : Divides ident left right)
    {q : QualifiedName} : ofString? ident = some q ↔
      (IsName q.schema ∧ Encloses left q.schema) ∧ IsName q.table ∧ Encloses right q.table := by
  rw [isName_and_encloses_iff, isName_and_encloses_iff, ofString?_of_divided h.toList_eq h.undivided]
  obtain ⟨schema, table⟩ := q
  split
  · rename_i empty
    refine iff_of_false nofun ?_
    rintro ⟨⟨hleft, -⟩, hright, -⟩
    exact empty.elim hleft hright
  · rename_i nonempty
    obtain ⟨hleft, hright⟩ := not_or.mp nonempty
    simp [hleft, hright, eq_comm]

theorem Divides.ofString?_eq_none_iff {ident left right : String} (h : Divides ident left right) :
    ofString? ident = none ↔ IsQuoting left ∨ IsQuoting right := by
  rw [isQuoting_iff, isQuoting_iff, ofString?_of_divided h.toList_eq h.undivided, ite_eq_left_iff]
  simp only [reduceCtorEq, imp_false, not_not]

theorem ofString?_eq_some_iff {ident : String} {q : QualifiedName} :
    ofString? ident = some q ↔ Denotes ident q := by
  constructor
  · intro read
    by_cases dotted : '.' ∈ ident.toList
    · obtain ⟨left, right, divides⟩ := exists_divides dotted
      obtain ⟨⟨schema, hleft⟩, table, hright⟩ := divides.ofString?_eq_some_iff.mp read
      exact ⟨left, right, divides, schema, table, hleft, hright⟩
    · rw [ofString?_of_no_dot dotted] at read
      cases read
  · rintro ⟨left, right, divides, schema, table, hleft, hright⟩
    exact divides.ofString?_eq_some_iff.mpr ⟨⟨schema, hleft⟩, table, hright⟩

theorem ofString?_eq_none_iff {ident : String} : ofString? ident = none ↔
    '.' ∉ ident.toList ∨ ∃ left right, Divides ident left right ∧
      (IsQuoting left ∨ IsQuoting right) := by
  by_cases dotted : '.' ∈ ident.toList
  · obtain ⟨left, right, divides⟩ := exists_divides dotted
    simp only [dotted, not_true_eq_false, false_or]
    constructor
    · intro unread
      exact ⟨left, right, divides, divides.ofString?_eq_none_iff.mp unread⟩
    · rintro ⟨left', right', divides', quoting⟩
      exact divides'.ofString?_eq_none_iff.mpr quoting
  · simp [ofString?_of_no_dot dotted, dotted]

theorem Encloses.undivided {side name : String} (h : Encloses side name)
    (undivided : '.' ∉ name.toList) : '.' ∉ side.toList := by
  obtain ⟨front, back, hfront, hback, rfl⟩ := h
  have unquoted : ¬ ('.' = '\x60' ∨ '.' = '"') := by decide
  simp only [String.toList_append, List.mem_append, not_or]
  exact ⟨⟨fun mem => unquoted (hfront _ mem), undivided⟩, fun mem => unquoted (hback _ mem)⟩

/-- A reference is read exactly as the grammar has it, in one way at most. Two names of which the
first has no dot are read again whatever quotes are put around each, and what is not read has no dot
or nothing but quotes on one side of the first one. -/
theorem ofString?_grammatical :
    (∀ ident q, ofString? ident = some q ↔ Denotes ident q) ∧
    (∀ ident q q', Denotes ident q → Denotes ident q' → q = q') ∧
    (∀ schema table left right, IsName schema → '.' ∉ schema.toList → IsName table →
      Encloses left schema → Encloses right table →
      ofString? (left ++ "." ++ right) = some ⟨schema, table⟩) ∧
    ∀ ident, ofString? ident = none ↔ '.' ∉ ident.toList ∨
      ∃ left right, Divides ident left right ∧ (IsQuoting left ∨ IsQuoting right) := by
  refine ⟨fun _ _ => ofString?_eq_some_iff, ?_, ?_, fun _ => ofString?_eq_none_iff⟩
  · intro ident q q' h h'
    rw [← ofString?_eq_some_iff] at h h'
    exact Option.some.inj (h.symm.trans h')
  · intro schema table left right hschema undivided htable hleft hright
    exact ofString?_eq_some_iff.mpr
      ⟨left, right, ⟨rfl, hleft.undivided undivided⟩, hschema, htable, hleft, hright⟩

/-- Quotes of both kinds, not in pairs, around a schema and around a table with a dot and a quote in
its name. -/
theorem ofString?_grammatical_mixed :
    IsName "sales" ∧ '.' ∉ "sales".toList ∧ IsName "or.d\x60ers" ∧
    Encloses "\x60\"sales\x60" "sales" ∧ Encloses "\"or.d\x60ers\x60\x60" "or.d\x60ers" ∧
    Denotes "\x60\"sales\x60.\"or.d\x60ers\x60\x60" ⟨"sales", "or.d\x60ers"⟩ ∧
    ofString? "\x60\"sales\x60.\"or.d\x60ers\x60\x60" = some ⟨"sales", "or.d\x60ers"⟩ := by
  have hschema : IsName "sales" := ⟨by decide, by simp, by simp⟩
  have undivided : '.' ∉ "sales".toList := by decide
  have htable : IsName "or.d\x60ers" := ⟨by decide, by simp, by simp⟩
  have hleft : Encloses "\x60\"sales\x60" "sales" :=
    ⟨"\x60\"", "\x60", by simp [IsQuoting], by simp [IsQuoting], by decide⟩
  have hright : Encloses "\"or.d\x60ers\x60\x60" "or.d\x60ers" :=
    ⟨"\"", "\x60\x60", by simp [IsQuoting], by simp [IsQuoting], by decide⟩
  obtain ⟨read_iff, -, quoted, -⟩ := ofString?_grammatical
  have read := quoted _ _ _ _ hschema undivided htable hleft hright
  exact ⟨hschema, undivided, htable, hleft, hright, (read_iff _ _).mp read, read⟩

end SchemaCatalog.QualifiedName
