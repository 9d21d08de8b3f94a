import SchemaCatalog.Proofs.Catalog.Run
import SchemaCatalog.Proofs.Resolution

/-!
References to a table with its schema. A reference is put into lowercase as a whole and divided
then, so the table's part is the lowercase form of the plain name unless the schema shows in it.
That happens to a name that opens with a lone sigma: a dot and backticks are passed over when the
form of a sigma is decided. Double quotes are not.
-/

namespace SchemaCatalog

open Text (lowerBetween meetsCased opensWithLoneSigma Settled)

namespace QualifiedName

/-! ### References as they are written -/

/-- How a side of a reference is wrapped. -/
inductive Wrapping where
  | bare
  | backticks
  | doubleQuotes
deriving DecidableEq, Repr

def Wrapping.mark : Wrapping → List Char
  | bare => []
  | backticks => ['\x60']
  | doubleQuotes => ['"']

def Wrapping.wrap (w : Wrapping) (side : List Char) : List Char :=
  w.mark ++ side ++ w.mark

def written (left right : Wrapping) (schema table : String) : String :=
  String.ofList (left.wrap schema.toList ++ '.' :: right.wrap table.toList)

theorem written_bare (schema table : String) :
    written .bare .bare schema table = schema ++ "." ++ table := by
  simp [written, Wrapping.wrap, Wrapping.mark, ← String.toList_inj]

/-- A name that neither a dot divides nor quotes can be taken off from. -/
structure IsSide (s : String) : Prop where
  nonempty : s ≠ ""
  undivided : '.' ∉ s.toList
  no_backtick : '\x60' ∉ s.toList
  no_double_quote : '"' ∉ s.toList

/-! ### Taking references apart -/

namespace Wrapping

variable {w : Wrapping} {side : List Char}

theorem isQuote_of_mem_mark {c : Char} (h : c ∈ w.mark) : isQuote c := by
  cases w with
  | bare => cases h
  | backticks => exact List.mem_singleton.mp h ▸ rfl
  | doubleQuotes => exact List.mem_singleton.mp h ▸ rfl

theorem reverse_mark (w : Wrapping) : w.mark.reverse = w.mark := by
  cases w <;> rfl

theorem reverse_wrap (w : Wrapping) (side : List Char) :
    (w.wrap side).reverse = w.wrap side.reverse := by
  rw [wrap, wrap, List.reverse_append, List.reverse_append, reverse_mark, List.append_assoc]

theorem stripQuotes_wrap (unquoted : ∀ c ∈ side, isQuote c = false) (nonempty : side ≠ []) :
    stripQuotes (w.wrap side) = side := by
  have marks : ∀ c ∈ w.mark, isQuote c := fun c => isQuote_of_mem_mark
  exact stripQuotes_append marks marks nonempty
    ⟨fun c first => unquoted c (List.mem_of_head? first),
      fun c last => unquoted c (List.mem_of_getLast? last)⟩

theorem not_mem_wrap (undivided : '.' ∉ side) : '.' ∉ w.wrap side := by
  have unmarked : '.' ∉ w.mark := by cases w <;> decide
  simp [wrap, unmarked, undivided]

end Wrapping

/-! ### References in lowercase -/

variable {left right : Wrapping} {schema table : String}

theorem Wrapping.settled_mark (w : Wrapping) : ∀ c ∈ w.mark, Settled c := by
  cases w with
  | bare => exact nofun
  | backticks => exact List.forall_mem_singleton.mpr (by decide +kernel)
  | doubleQuotes => exact List.forall_mem_singleton.mpr (by decide +kernel)

theorem Wrapping.meetsCased_mark (w : Wrapping) : meetsCased w.mark = false := by
  cases w <;> decide +kernel

/-- Backticks let a sigma see what is behind them, double quotes do not. -/
theorem Wrapping.meetsCased_mark_append (w : Wrapping) (behind : List Char) :
    meetsCased (w.mark ++ behind) ↔ w ≠ .doubleQuotes ∧ meetsCased behind := by
  have passed : Text.isIgnorable '\x60' := by decide +kernel
  have stopped : ¬ Text.isIgnorable '"' ∧ ¬ Text.isCased '"' := by decide +kernel
  cases w with
  | bare => simp [mark]
  | backticks => simp [mark, Text.meetsCased_cons, passed]
  | doubleQuotes => simp [mark, Text.meetsCased_cons, stopped]

namespace IsSide

variable {s : String}

theorem toList_ne_nil (h : IsSide s) : s.toList ≠ [] :=
  fun empty => h.nonempty (String.toList_eq_nil_iff.mp empty)

theorem unquoted (h : IsSide s) : ∀ c ∈ s.toList, isQuote c = false := by
  intro c mem
  rw [isQuote, Bool.or_eq_false_iff, beq_eq_false_iff_ne, beq_eq_false_iff_ne]
  constructor
  · rintro rfl
    exact h.no_backtick mem
  · rintro rfl
    exact h.no_double_quote mem

theorem lowered (h : IsSide s) (before after : List Char) :
    lowerBetween before after s.toList ≠ [] ∧ '.' ∉ lowerBetween before after s.toList ∧
      ∀ c ∈ lowerBetween before after s.toList, isQuote c = false := by
  refine ⟨Text.lowerBetween_ne_nil h.toList_ne_nil,
    fun mem => h.undivided (Text.mem_of_mem_lowerBetween (by decide) mem), fun c mem => ?_⟩
  cases quote : isQuote c with
  | false => rfl
  | true =>
      have low : c.toNat ≤ 0x60 := by
        simp only [isQuote, Bool.or_eq_true, beq_iff_eq] at quote
        rcases quote with rfl | rfl <;> decide
      rw [← quote]
      exact h.unquoted c (Text.mem_of_mem_lowerBetween low mem)

end IsSide

/-- What stands before the table in a reference, last character first. -/
def ahead (left right : Wrapping) (schema : String) : List Char :=
  right.mark ++ '.' :: left.wrap schema.toList.reverse

theorem lowercase_written (left right : Wrapping) (schema table : String) :
    Text.lowercase (written left right schema table) = String.ofList
      (left.wrap (lowerBetween left.mark (left.mark ++ '.' :: right.wrap table.toList)
        schema.toList) ++
      '.' :: right.wrap (lowerBetween (ahead left right schema) right.mark table.toList)) := by
  have opening : ∀ c ∈ '.' :: right.mark, Settled c :=
    List.forall_mem_cons.mpr ⟨by decide +kernel, right.settled_mark⟩
  have schema_part := Text.lowerBetween_wrapped left.settled_mark left.settled_mark []
    ('.' :: right.wrap table.toList) schema.toList
  have table_part := Text.lowerBetween_wrapped opening right.settled_mark
    (left.wrap schema.toList.reverse) [] table.toList
  rw [Wrapping.reverse_mark, List.append_nil] at schema_part
  rw [List.reverse_cons, Wrapping.reverse_mark, List.append_assoc, List.append_nil] at table_part
  rw [← String.toList_inj, Text.lowercase_eq_lowerBetween, String.toList_ofList, written,
    String.toList_ofList, Text.lowerBetween_append, List.append_nil, List.append_nil,
    Wrapping.reverse_wrap]
  refine congrArg₂ (· ++ ·) schema_part ?_
  simpa [Wrapping.wrap, ahead] using table_part

theorem meetsCased_ahead (left right : Wrapping) (schema : String) :
    meetsCased (ahead left right schema) ↔
      left ≠ .doubleQuotes ∧ right ≠ .doubleQuotes ∧ meetsCased schema.toList.reverse := by
  have dot : Text.isIgnorable '.' := by decide +kernel
  rw [ahead, Wrapping.meetsCased_mark_append, Text.meetsCased_cons, if_pos dot, Wrapping.wrap,
    Text.meetsCased_append_of_uncased _ left.meetsCased_mark, Wrapping.meetsCased_mark_append]
  exact and_left_comm

end QualifiedName

open QualifiedName (Wrapping IsSide written ahead)

namespace Node

variable {n : Node} {name : String} {left right : Wrapping} {schema table : String}

theorem plainName_written (hschema : IsSide schema) (htable : IsSide table) :
    plainName (written left right schema table) =
      String.ofList (lowerBetween (ahead left right schema) right.mark table.toList) := by
  obtain ⟨schema_nonempty, schema_undivided, schema_unquoted⟩ :=
    hschema.lowered left.mark (left.mark ++ '.' :: right.wrap table.toList)
  obtain ⟨table_nonempty, -, table_unquoted⟩ :=
    htable.lowered (ahead left right schema) right.mark
  have schema_side := Wrapping.stripQuotes_wrap (w := left) schema_unquoted schema_nonempty
  have table_side := Wrapping.stripQuotes_wrap (w := right) table_unquoted table_nonempty
  have parts := QualifiedName.ofString?_divided (Wrapping.not_mem_wrap (w := left) schema_undivided)
    (ne_of_eq_of_ne schema_side schema_nonempty) (ne_of_eq_of_ne table_side table_nonempty)
  simp only [plainName, QualifiedName.lowercase_written, parts, table_side]

/-- The plain name of a reference is the lowercase form of the table's name, unless the schema
shows. -/
theorem plainName_written_iff (hschema : IsSide schema) (htable : IsSide table) :
    plainName (written left right schema table) = Text.lowercase table ↔
      ¬ (left ≠ .doubleQuotes ∧ right ≠ .doubleQuotes ∧ meetsCased schema.toList.reverse ∧
        opensWithLoneSigma table.toList) := by
  rw [plainName_written hschema htable, ← String.toList_inj, String.toList_ofList, Text.lowercase,
    String.toList_ofList, Text.lowerBetween_eq_iff right.meetsCased_mark,
    QualifiedName.meetsCased_ahead, and_assoc, and_assoc]

/-! ### Resolution -/

/-- What a node answers when the name itself is not indexed. -/
def plainTable (n : Node) (plain : String) : Except CatalogError Table :=
  match n.directory.tables.get? plain <|> n.aliased? plain with
  | some t => .ok t
  | none => .error (.tableNotFound plain)

theorem table_of_missed (missed : n.directory.tables.get? (Text.lowercase name) = none) :
    n.table name = n.plainTable (plainName name) := by
  simp only [table, plainTable, missed]
  rfl

theorem table_of_no_dot (h : '.' ∉ name.toList) :
    n.table name = n.plainTable (Text.lowercase name) := by
  simp only [table, plainTable, plainName_of_no_dot h]
  cases n.directory.tables.get? (Text.lowercase name) <;> rfl

/-- A reference resolves like the plain name, at every node that does not index the reference
itself, unless the name opens with a lone sigma and something cased is seen before it. -/
theorem references_resolve_plainly (left right : Wrapping) (hschema : IsSide schema)
    (htable : IsSide table) :
    (∀ n : Node,
      n.directory.tables.get? (Text.lowercase (written left right schema table)) = none →
        n.table (written left right schema table) = n.table table) ↔
      ¬ (left ≠ .doubleQuotes ∧ right ≠ .doubleQuotes ∧ meetsCased schema.toList.reverse ∧
        opensWithLoneSigma table.toList) := by
  rw [← plainName_written_iff hschema htable]
  constructor
  · intro plainly
    have answers := plainly default rfl
    rw [table_of_missed rfl, table_of_no_dot htable.undivided] at answers
    exact CatalogError.tableNotFound.inj (Except.error.inj answers)
  · intro plain n missed
    rw [table_of_missed missed, table_of_no_dot htable.undivided, plain]

end Node

/-! ### Runs -/

namespace Run

/-- One node with one table. -/
def stall (name : String) : Run Unit where
  backend := silent
  sources := ()
  operations := [.create "sales" none, .addTable ⟨0⟩ (.new name)]

/-- Whether the node indexes a reference itself, and what it answers for a name and for the
reference. -/
def stallAnswers (held name reference : String) :
    Option (Option Unit × Option String × Except CatalogError String) :=
  ((stall held).after (stall held).operations).bind fun f =>
    (f.catalog.node? ⟨0⟩).map fun n =>
      ((n.directory.tables.get? (Text.lowercase reference)).map fun _ => (),
        (n.table name).toOption.map (·.originalName), (n.table reference).map (·.originalName))

end Run

theorem Node.references_resolve_plainly_orders : ∃ f n t, (Run.stall "Orders").Visits f ∧
    f.catalog.node? ⟨0⟩ = some n ∧ IsSide "Sales" ∧ IsSide "ORDERS" ∧
    n.directory.tables.get? (Text.lowercase (written .backticks .backticks "Sales" "ORDERS")) =
      none ∧
    n.table "ORDERS" = .ok t ∧
    n.table (written .backticks .backticks "Sales" "ORDERS") = .ok t := by
  have computed :
      Run.stallAnswers "Orders" "ORDERS" (written .backticks .backticks "Sales" "ORDERS") =
        some (none, some "Orders", .ok "Orders") := by
    decide +kernel
  obtain ⟨f, hf, hfound⟩ := Option.bind_eq_some_iff.mp computed
  obtain ⟨n, found, hparts⟩ := Option.map_eq_some_iff.mp hfound
  simp only [Prod.mk.injEq, Option.map_eq_none_iff] at hparts
  obtain ⟨missed, answer, -⟩ := hparts
  obtain ⟨t, resolved, -⟩ := exists_ok_of_toOption answer
  have hschema : IsSide "Sales" := ⟨by decide, by decide, by decide, by decide⟩
  have htable : IsSide "ORDERS" := ⟨by decide, by decide, by decide, by decide⟩
  have shut : opensWithLoneSigma "ORDERS".toList = false := by decide +kernel
  have plainly := (references_resolve_plainly .backticks .backticks hschema htable).mpr
    (fun seen => Bool.noConfusion (shut.symm.trans seen.2.2.2)) n missed
  exact ⟨f, n, t, ⟨_, List.prefix_rfl, hf⟩, found, hschema, htable, missed, resolved,
    plainly.trans resolved⟩

/-- A lone sigma resolves by itself and not with a schema in front of it: there it is taken for the
end of a word, and the node looks for its final form. -/
theorem Run.stall_overlooks_sigma : ∃ f n t, (Run.stall "Σ").Visits f ∧
    f.catalog.node? ⟨0⟩ = some n ∧ IsSide "sales" ∧ IsSide "Σ" ∧
    written .bare .bare "sales" "Σ" = "sales.Σ" ∧
    n.directory.tables.get? (Text.lowercase "sales.Σ") = none ∧
    n.table "Σ" = .ok t ∧ n.table "sales.Σ" = .error (.tableNotFound "ς") := by
  have computed : Run.stallAnswers "Σ" "Σ" "sales.Σ" =
      some (none, some "Σ", .error (.tableNotFound "ς")) := by
    decide +kernel
  obtain ⟨f, hf, hfound⟩ := Option.bind_eq_some_iff.mp computed
  obtain ⟨n, found, hparts⟩ := Option.map_eq_some_iff.mp hfound
  simp only [Prod.mk.injEq, Option.map_eq_none_iff] at hparts
  obtain ⟨missed, answer, overlooked⟩ := hparts
  obtain ⟨t, resolved, -⟩ := exists_ok_of_toOption answer
  have hschema : IsSide "sales" := ⟨by decide, by decide, by decide, by decide⟩
  have htable : IsSide "Σ" := ⟨by decide, by decide, by decide, by decide⟩
  have error : n.table "sales.Σ" = .error (.tableNotFound "ς") := by
    cases h : n.table "sales.Σ" with
    | ok t =>
        rw [h] at overlooked
        cases overlooked
    | error e =>
        rw [h] at overlooked
        exact congrArg _ (Except.error.inj overlooked)
  exact ⟨f, n, t, ⟨_, List.prefix_rfl, hf⟩, found, hschema, htable,
    QualifiedName.written_bare "sales" "Σ", missed, resolved, error⟩

end SchemaCatalog
