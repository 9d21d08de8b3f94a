import SchemaCatalog.Proofs.Catalog.Outcome
import SchemaCatalog.Proofs.Catalog.References

/-!
Names in other cases. Every operation that is asked with a name goes by the lowercase form of it, so
two names with one lowercase form get the same answers and leave the same state. Only the report of
a command repeats a name as it was given, and nothing reads the reports.
-/

namespace SchemaCatalog

open Text (lowercase)

namespace Catalog

/-! ### Reports are not read -/

/-- The same nodes with other reports. -/
def withJournal (c : Catalog) (journal : Journal) : Catalog :=
  { c with journal }

theorem chainFrom_withJournal (c : Catalog) (journal : Journal) (steps : Nat) (chain : List NodeId)
    (next : Option NodeId) :
    (c.withJournal journal).chainFrom steps chain next = c.chainFrom steps chain next := by
  induction steps generalizing chain next with
  | zero => cases next <;> rfl
  | succ steps ih =>
      cases next with
      | none => rfl
      | some next =>
          simp only [chainFrom, ih]
          rfl

theorem ancestors_withJournal (c : Catalog) (journal : Journal) (id : NodeId) :
    (c.withJournal journal).ancestors id = c.ancestors id := by
  simp only [ancestors, chainFrom_withJournal]
  rfl

theorem eraseAlong_withJournal (name : String) (owner : NodeId) (held : Option Table) (c : Catalog)
    (journal : Journal) (chain : List NodeId) :
    eraseAlong name owner held (c.withJournal journal) chain =
      ((eraseAlong name owner held c chain).1,
        (eraseAlong name owner held c chain).2.withJournal journal) := by
  induction chain generalizing held c with
  | nil => rfl
  | cons id rest ih =>
      have same : (c.withJournal journal).get id = c.get id := rfl
      simp only [eraseAlong, same]
      split
      · rfl
      · split
        · exact ih _ (c.modify id _)
        · exact ih _ c

/-- What a drop answers and does to the nodes does not depend on the reports. It adds to them. -/
theorem drop_withJournal (c : Catalog) (id : NodeId) (name : String) : ∃ added, ∀ journal,
    (c.withJournal journal).drop id name =
      ((c.drop id name).1, (c.drop id name).2.withJournal (journal ++ added)) := by
  have same (journal : Journal) : (c.withJournal journal).get id = c.get id := rfl
  unfold drop
  simp only [same, ancestors_withJournal]
  split
  · exact ⟨[], fun journal => by rw [List.append_nil]⟩
  · rename_i owner chain _
    simp only [eraseAlong_withJournal]
    rcases eraseAlong (lowercase name) owner none c chain with ⟨_ | held, d⟩
    · exact ⟨[], fun journal => by rw [List.append_nil]⟩
    · cases held <;> exact ⟨[_], fun journal => rfl⟩

/-- A table is dropped from the schema of a name. -/
def dropNamed (c : Catalog) (schema table : String) : Except CatalogError Unit × Catalog :=
  match c.byName? schema with
  | none => (.error (.schemaNotFound (lowercase schema)), c)
  | some n => ((c.drop n.id table).1.map fun _ => (), (c.drop n.id table).2)

theorem dropNamed_withJournal (c : Catalog) (schema table : String) : ∃ added, ∀ journal,
    (c.withJournal journal).dropNamed schema table =
      ((c.dropNamed schema table).1,
        (c.dropNamed schema table).2.withJournal (journal ++ added)) := by
  have same (journal : Journal) : (c.withJournal journal).byName? schema = c.byName? schema := rfl
  simp only [dropNamed, same]
  split
  · exact ⟨[], fun journal => by rw [List.append_nil]⟩
  · rename_i n _
    obtain ⟨added, hadded⟩ := c.drop_withJournal n.id table
    exact ⟨added, fun journal => by rw [hadded journal]⟩

end Catalog

variable {σ : Type}

namespace Command

/-- The line that is written before a command is carried out. -/
def report (command : Command) : LogEntry :=
  ⟨.debug, s!"applying {command.display}"⟩

theorem run_dropTable (backend : Backend σ) (now : Instant) (schema table : String) :
    (dropTable schema table).run backend now = Action.ofCatalog (·.dropNamed schema table) := by
  funext f
  rw [Action.ofCatalog, Catalog.dropNamed]
  cases named : f.catalog.byName? schema with
  | none => exact Action.bind_of_error (Action.resolve_of_missing named)
  | some n =>
      refine (Action.bind_of_ok (Action.resolve_of_found named)).trans ?_
      show discard (Action.drop n.id table) f =
        some ((f.catalog.drop n.id table).1.map fun _ => (),
          { f with catalog := (f.catalog.drop n.id table).2 })
      rcases answer : f.catalog.drop n.id table with ⟨e | t, c⟩
      · have dropped : Action.drop n.id table f = some (.error e, { f with catalog := c }) := by
          rw [Action.drop, Action.ofCatalog, answer]
        exact Action.bind_of_error dropped
      · have dropped : Action.drop n.id table f = some (.ok t, { f with catalog := c }) := by
          rw [Action.drop, Action.ofCatalog, answer]
        exact Action.bind_of_ok dropped

end Command

/-! ### Names with one lowercase form -/

namespace Catalog

variable {a b : String} (same : lowercase a = lowercase b)

include same

theorem byName?_congr (c : Catalog) : c.byName? a = c.byName? b := by
  simp only [byName?, same]

theorem drop_congr (c : Catalog) (id : NodeId) : c.drop id a = c.drop id b := by
  simp only [drop, same]

theorem dropNamed_congr {s t : String} (same' : lowercase s = lowercase t) (c : Catalog) :
    c.dropNamed a s = c.dropNamed b t := by
  simp only [dropNamed, same, c.byName?_congr same, c.drop_congr same']

end Catalog

namespace Federation

/-- Two commands end alike: with one answer, and with one state up to the line in which each was
reported before it was carried out. -/
def EndsAlike (backend : Backend σ) (now : Instant) (f : Federation σ) (left right : Command) :
    Prop :=
  ∃ (answer : Except CatalogError Unit) (c : Catalog) (added : Journal),
    ∀ command ∈ [left, right], command.apply backend now f = some (answer,
      { f with catalog := c.withJournal (f.catalog.journal ++ command.report :: added) })

/-- What is asked with one of two names is answered as if it had been asked with the other, and
leaves the same state. -/
structure TreatsAlike (backend : Backend σ) (now : Instant) (f : Federation σ) (a b : String) :
    Prop where
  resolved (n : Node) : n.table a = n.table b
  owned (n : Node) : n.ownerOf a = n.ownerOf b
  loaded (id : NodeId) : f.loadTable backend id a = f.loadTable backend id b
  visible (id : NodeId) : f.catalog.table id a = f.catalog.table id b
  below (id : NodeId) : f.catalog.child id a = f.catalog.child id b
  named : f.catalog.byName? a = f.catalog.byName? b
  answering (id : NodeId) : f.catalog.schemaForTable id a = f.catalog.schemaForTable id b
  opened (id : NodeId) : f.openTable backend id a = f.openTable backend id b
  dropped (id : NodeId) : f.catalog.drop id a = f.catalog.drop id b
  droppedFrom (table : String) : f.EndsAlike backend now (.dropTable a table) (.dropTable b table)
  droppedBy (schema : String) : f.EndsAlike backend now (.dropTable schema a) (.dropTable schema b)

theorem endsAlike_dropTable {a b s t : String} (same : lowercase a = lowercase b)
    (same' : lowercase s = lowercase t) (backend : Backend σ) (now : Instant) (f : Federation σ) :
    f.EndsAlike backend now (.dropTable a s) (.dropTable b t) := by
  obtain ⟨added, hadded⟩ := f.catalog.dropNamed_withJournal b t
  refine ⟨(f.catalog.dropNamed b t).1, (f.catalog.dropNamed b t).2, added, fun command mem => ?_⟩
  have carried_out : command.run backend now = Action.ofCatalog (·.dropNamed b t) := by
    rcases List.mem_pair.mp mem with rfl | rfl
    · rw [Command.run_dropTable]
      simp only [Catalog.dropNamed_congr same same']
    · rw [Command.run_dropTable]
  have reported : (Action.log .debug s!"applying {command.display}" : Action σ Unit) f =
      some (.ok (),
        { f with catalog := f.catalog.withJournal (f.catalog.journal ++ [command.report]) }) := rfl
  rw [Command.apply, Action.bind_of_ok reported, carried_out, Action.ofCatalog, hadded,
    List.append_assoc]
  rfl

/-- Two names are treated alike, in every state, exactly when they have one lowercase form. Of two
others a node knows an owner for the one alone. -/
theorem treatsAlike_iff {a b : String} (backend : Backend σ) (now : Instant) (f : Federation σ) :
    f.TreatsAlike backend now a b ↔ lowercase a = lowercase b := by
  constructor
  · intro alike
    let n := (default : Node).register (lowercase a) ⟨0⟩ (.new a)
    have ownerOf (name : String) :
        n.ownerOf name = if lowercase name = lowercase a then some ⟨0⟩ else none :=
      NameMap.get?_insert _ _ _ _
    have owned := alike.owned n
    rw [ownerOf, ownerOf, if_pos rfl] at owned
    by_contra other
    rw [if_neg (Ne.symm other)] at owned
    cases owned
  · intro same
    have plain : Node.plainName a = Node.plainName b := Node.plainName_congr same
    have resolved (n : Node) : n.table a = n.table b := by
      simp only [Node.table, same, plain]
    have owned (n : Node) : n.ownerOf a = n.ownerOf b := by
      rw [Node.ownerOf, Node.ownerOf, same]
    exact {
      resolved, owned
      loaded := fun id => by simp only [loadTable, resolved, plain]
      visible := fun id => by simp only [Catalog.table, resolved]
      below := fun id => by simp only [Catalog.child, same]
      named := f.catalog.byName?_congr same
      answering := fun id => by simp only [Catalog.schemaForTable, same]
      opened := fun id => by simp only [openTable, same]
      dropped := fun id => f.catalog.drop_congr same id
      droppedFrom := fun table => endsAlike_dropTable same rfl backend now f
      droppedBy := fun schema => endsAlike_dropTable rfl same backend now f }

/-- Names are insensitive to case. In every state, names that differ in the case of ASCII letters
alone are treated alike, and so are a name and its lowercase form; a name is treated like those that
share its lowercase form and like no others. -/
theorem names_case_insensitive {a b : String} (h : Text.sameAsciiCase a b ∨ b = lowercase a)
    (backend : Backend σ) (now : Instant) (f : Federation σ) :
    f.TreatsAlike backend now a b ∧
      ∀ other, f.TreatsAlike backend now a other ↔ lowercase a = lowercase other := by
  refine ⟨(treatsAlike_iff backend now f).mpr ?_, fun other => treatsAlike_iff backend now f⟩
  rcases h with cased | rfl
  · exact Text.lowercase_eq_of_sameAsciiCase cased
  · exact (Text.lowercase_lowercase a).symm

/-- The two forms of a small sigma are different letters. -/
theorem names_case_insensitive_street : ∃ f t, (Run.stall "Street_ΟΔΟΣ").Visits f ∧
    Text.sameAsciiCase "STREET_ΟΔΟΣ" "street_ΟΔΟΣ" ∧ lowercase "STREET_ΟΔΟΣ" = "street_οδος" ∧
    f.TreatsAlike Run.silent ⟨0, 0⟩ "STREET_ΟΔΟΣ" "street_ΟΔΟΣ" ∧
    f.TreatsAlike Run.silent ⟨0, 0⟩ "STREET_ΟΔΟΣ" "street_οδος" ∧
    ¬ f.TreatsAlike Run.silent ⟨0, 0⟩ "STREET_ΟΔΟΣ" "street_οδοσ" ∧
    (f.catalog.drop ⟨0⟩ "STREET_ΟΔΟΣ").1 = .ok t ∧
    (f.catalog.drop ⟨0⟩ "street_οδος").1 = .ok t := by
  have computed : ((Run.stall "Street_ΟΔΟΣ").after (Run.stall "Street_ΟΔΟΣ").operations).bind
      (fun f => (f.catalog.drop ⟨0⟩ "STREET_ΟΔΟΣ").1.toOption.map (·.originalName)) =
      some "Street_ΟΔΟΣ" := by
    decide +kernel
  obtain ⟨f, hf, hdropped⟩ := Option.bind_eq_some_iff.mp computed
  obtain ⟨t, dropped, -⟩ := exists_ok_of_toOption hdropped
  have cased : Text.sameAsciiCase "STREET_ΟΔΟΣ" "street_ΟΔΟΣ" := by decide +kernel
  have lowered : lowercase "STREET_ΟΔΟΣ" = "street_οδος" := by decide +kernel
  have apart : lowercase "STREET_ΟΔΟΣ" ≠ lowercase "street_οδοσ" := by decide +kernel
  obtain ⟨upper, only⟩ := names_case_insensitive (.inl cased) Run.silent ⟨0, 0⟩ f
  obtain ⟨lower, -⟩ := names_case_insensitive (.inr lowered.symm) Run.silent ⟨0, 0⟩ f
  exact ⟨f, t, ⟨_, List.prefix_rfl, hf⟩, cased, lowered, upper, lower,
    fun alike => apart ((only _).mp alike), dropped, lower.dropped ⟨0⟩ ▸ dropped⟩

end Federation

end SchemaCatalog
