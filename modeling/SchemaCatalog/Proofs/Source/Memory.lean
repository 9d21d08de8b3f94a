import Mathlib.Data.List.Induction
import Mathlib.Data.List.Nodup
import SchemaCatalog.Proofs.Source.Declared

/-!
A source held in memory as a map in order of insertion. Whatever tables are added and removed, the
source lists the names that are there in the order in which they came, and has the last table of
each. A name that is removed and added again comes last.
-/

namespace SchemaCatalog.MemorySource

/-! ### Changes -/

/-- What can be done to the tables of a source. -/
inductive Change where
  | add (t : Table)
  | remove (name : String)

namespace Change

def apply (s : MemorySource) : Change → MemorySource
  | add t => s.addTable t
  | remove name => (s.removeTable name).2

def Adds : Change → String → Prop
  | add t, name => t.name = name
  | remove _, _ => False

/-- A name is removed in any case that it is given in. -/
def Removes : Change → String → Prop
  | add _, _ => False
  | remove given, name => Text.lowercase given = name

theorem not_removes_of_adds {c : Change} {name : String} (h : c.Adds name) : ¬ c.Removes name := by
  cases c with
  | add t => exact id
  | remove given => exact absurd h id

end Change

/-- A new source after some changes. -/
def changed (source : String) (changes : List Change) : MemorySource :=
  changes.foldl Change.apply { name := source }

theorem changed_concat (source : String) (changes : List Change) (c : Change) :
    changed source (changes ++ [c]) = c.apply (changed source changes) := by
  rw [changed, List.foldl_append]
  rfl

/-! ### What changes come to -/

/-- Wherever the name is added, it is removed afterwards. -/
def Absent (changes : List Change) (name : String) : Prop :=
  ∀ before c after, changes = before ++ c :: after → c.Adds name → ∃ d ∈ after, d.Removes name

/-- The name is absent after the changes `before`, is added by the next one, and stays. -/
def Arrives (changes : List Change) (name : String) (before : List Change) : Prop :=
  ∃ c after, changes = before ++ c :: after ∧ c.Adds name ∧ Absent before name ∧
    ∀ d ∈ after, ¬ d.Removes name

/-- No table of its name is added after the table, nor is the name removed. -/
def Latest (changes : List Change) (t : Table) : Prop :=
  ∃ before after, changes = before ++ .add t :: after ∧
    ∀ c ∈ after, ¬ c.Adds t.name ∧ ¬ c.Removes t.name

variable {changes before before' : List Change} {last : Change} {name : String} {t : Table}

theorem absent_nil (name : String) : Absent [] name := by
  intro before c after split
  simp at split

theorem absent_concat : Absent (changes ++ [last]) name ↔
    last.Removes name ∨ ¬ last.Adds name ∧ Absent changes name := by
  constructor
  · intro absent
    by_cases removes : last.Removes name
    · exact .inl removes
    · refine .inr ⟨fun adds => ?_, fun before c after split adds => ?_⟩
      · obtain ⟨d, mem, -⟩ := absent changes last [] rfl adds
        cases mem
      · obtain ⟨d, mem, hd⟩ := absent before c (after ++ [last]) (by simp [split]) adds
        rcases List.mem_append.mp mem with mem | mem
        · exact ⟨d, mem, hd⟩
        · exact absurd (List.mem_singleton.mp mem ▸ hd) removes
  · rintro (removes | ⟨adds_not, absent⟩) before c after split adds
    · rcases concat_eq_append_cons.mp split with ⟨-, rfl, -⟩ | ⟨rest, rfl, -⟩
      · exact absurd removes (Change.not_removes_of_adds adds)
      · exact ⟨last, by simp, removes⟩
    · rcases concat_eq_append_cons.mp split with ⟨-, rfl, -⟩ | ⟨rest, rfl, older⟩
      · exact absurd adds adds_not
      · obtain ⟨d, mem, hd⟩ := absent before c rest older adds
        exact ⟨d, List.mem_append_left _ mem, hd⟩

theorem arrives_concat : Arrives (changes ++ [last]) name before ↔
    before = changes ∧ last.Adds name ∧ Absent changes name ∨
      ¬ last.Removes name ∧ Arrives changes name before := by
  constructor
  · rintro ⟨c, after, split, adds, absent, stays⟩
    rcases concat_eq_append_cons.mp split with ⟨rfl, rfl, rfl⟩ | ⟨rest, rfl, older⟩
    · exact .inl ⟨rfl, adds, absent⟩
    · exact .inr ⟨stays last (by simp), c, rest, older, adds, absent,
        fun d mem => stays d (List.mem_append_left _ mem)⟩
  · rintro (⟨rfl, adds, absent⟩ | ⟨removes, c, after, rfl, adds, absent, stays⟩)
    · exact ⟨last, [], rfl, adds, absent, nofun⟩
    · exact ⟨c, after ++ [last], by simp, adds, absent,
        List.forall_mem_append.mpr ⟨stays, List.forall_mem_singleton.mpr removes⟩⟩

theorem latest_concat : Latest (changes ++ [last]) t ↔
    last = .add t ∨ (¬ last.Adds t.name ∧ ¬ last.Removes t.name) ∧ Latest changes t := by
  constructor
  · rintro ⟨before, after, split, later⟩
    rcases concat_eq_append_cons.mp split with ⟨-, heq, -⟩ | ⟨rest, rfl, older⟩
    · exact .inl heq.symm
    · exact .inr ⟨later last (by simp), before, rest, older,
        fun c mem => later c (List.mem_append_left _ mem)⟩
  · rintro (rfl | ⟨other, before, after, rfl, later⟩)
    · exact ⟨changes, [], rfl, nofun⟩
    · exact ⟨before, after ++ [last], by simp,
        List.forall_mem_append.mpr ⟨later, List.forall_mem_singleton.mpr other⟩⟩

variable {other : Table} {given : String}

theorem absent_add : Absent (changes ++ [.add t]) name ↔ t.name ≠ name ∧ Absent changes name := by
  simp [absent_concat, Change.Adds, Change.Removes]

theorem absent_remove : Absent (changes ++ [.remove given]) name ↔
    Text.lowercase given = name ∨ Absent changes name := by
  simp [absent_concat, Change.Adds, Change.Removes]

theorem latest_add : Latest (changes ++ [.add other]) t ↔
    other = t ∨ other.name ≠ t.name ∧ Latest changes t := by
  simp [latest_concat, Change.Adds, Change.Removes]

theorem latest_remove : Latest (changes ++ [.remove given]) t ↔
    Text.lowercase given ≠ t.name ∧ Latest changes t := by
  simp [latest_concat, Change.Adds, Change.Removes]

theorem exists_arrives_iff : (∃ before, Arrives changes name before) ↔ ¬ Absent changes name := by
  induction changes using List.reverseRecOn with
  | nil =>
      refine iff_of_false ?_ (not_not_intro (absent_nil name))
      rintro ⟨before, c, after, split, -⟩
      simp at split
  | append_singleton changes last ih =>
      simp only [arrives_concat, absent_concat, exists_or, exists_eq_left, exists_and_left, ih]
      have exclusive : last.Adds name → ¬ last.Removes name := Change.not_removes_of_adds
      tauto

theorem Arrives.length_lt (h : Arrives changes name before) : before.length < changes.length := by
  obtain ⟨c, after, rfl, -⟩ := h
  simp

theorem Arrives.unique (h : Arrives changes name before) (h' : Arrives changes name before') :
    before = before' := by
  induction changes using List.reverseRecOn with
  | nil => exact absurd h.length_lt (Nat.not_lt_zero _)
  | append_singleton changes last ih =>
      rcases arrives_concat.mp h with ⟨rfl, -, absent⟩ | ⟨-, older⟩ <;>
        rcases arrives_concat.mp h' with ⟨rfl, -, absent'⟩ | ⟨-, older'⟩
      · rfl
      · exact absurd absent (exists_arrives_iff.mp ⟨_, older'⟩)
      · exact absurd absent' (exists_arrives_iff.mp ⟨_, older⟩)
      · exact ih older older'

/-! ### Names in order -/

/-- One name arrives before the other. -/
def Earlier (changes : List Change) (a b : String) : Prop :=
  ∃ before before', Arrives changes a before ∧ Arrives changes b before' ∧
    before.length < before'.length

/-- The names are those that have arrived, in the order in which they did. -/
structure InOrder (changes : List Change) (names : List String) : Prop where
  distinct : names.Nodup
  ordered : names.Pairwise (Earlier changes)
  arrived : ∀ name, name ∈ names ↔ ∃ before, Arrives changes name before

theorem Earlier.concat {a b : String} (h : Earlier changes a b) (ha : ¬ last.Removes a)
    (hb : ¬ last.Removes b) : Earlier (changes ++ [last]) a b := by
  obtain ⟨before, before', arrives, arrives', first⟩ := h
  exact ⟨before, before', arrives_concat.mpr (.inr ⟨ha, arrives⟩),
    arrives_concat.mpr (.inr ⟨hb, arrives'⟩), first⟩

namespace InOrder

variable {names : List String}

theorem absent_iff (h : InOrder changes names) : Absent changes name ↔ name ∉ names := by
  rw [h.arrived, exists_arrives_iff, not_not]

theorem add_known (h : InOrder changes names) (known : t.name ∈ names) :
    InOrder (changes ++ [.add t]) names where
  distinct := h.distinct
  ordered := h.ordered.imp fun earlier => earlier.concat id id
  arrived name := by
    rw [exists_arrives_iff, absent_add, h.absent_iff, not_and, not_not]
    constructor
    · intro mem _
      exact mem
    · intro kept
      by_cases same : t.name = name
      · exact same ▸ known
      · exact kept same

theorem add_new (h : InOrder changes names) (new : t.name ∉ names) :
    InOrder (changes ++ [.add t]) (names ++ [t.name]) where
  distinct := List.nodup_append.mpr ⟨h.distinct, List.nodup_singleton _, by
    rintro a mem b hb rfl
    exact new (List.mem_singleton.mp hb ▸ mem)⟩
  ordered := by
    refine List.pairwise_append.mpr ⟨h.ordered.imp fun earlier => earlier.concat id id,
      List.pairwise_singleton _ _, fun a mem b hb => ?_⟩
    rw [List.mem_singleton.mp hb]
    obtain ⟨before, arrives⟩ := (h.arrived a).mp mem
    exact ⟨before, changes, arrives_concat.mpr (.inr ⟨id, arrives⟩),
      arrives_concat.mpr (.inl ⟨rfl, rfl, h.absent_iff.mpr new⟩), arrives.length_lt⟩
  arrived name := by
    rw [exists_arrives_iff, absent_add, h.absent_iff, not_and, not_not, List.mem_append,
      List.mem_singleton, or_comm, eq_comm, or_iff_not_imp_left]

theorem remove (h : InOrder changes names) (given : String) :
    InOrder (changes ++ [.remove given]) (names.erase (Text.lowercase given)) where
  distinct := h.distinct.erase _
  ordered := by
    refine (h.ordered.sublist List.erase_sublist).imp_of_mem fun {a b} ha hb earlier => ?_
    obtain ⟨other, -⟩ := h.distinct.mem_erase_iff.mp ha
    obtain ⟨other', -⟩ := h.distinct.mem_erase_iff.mp hb
    exact earlier.concat (Ne.symm other) (Ne.symm other')
  arrived name := by
    rw [exists_arrives_iff, absent_remove, h.absent_iff, h.distinct.mem_erase_iff, not_or, not_not]
    exact and_congr_left fun _ => ne_comm

end InOrder

/-! ### The source -/

theorem tableNames_addTable (s : MemorySource) (t : Table) : (s.addTable t).tableNames =
    if t.name ∈ s.tableNames then s.tableNames else s.tableNames ++ [t.name] := by
  unfold addTable tableNames
  split
  · rename_i place found
    obtain ⟨hlt, hname, -⟩ := List.findIdx?_eq_some_iff_getElem.mp found
    have old : s.tables[place].name = t.name := by simpa using hname
    have known : t.name ∈ s.tables.map (·.name) := old ▸ List.mem_map_of_mem (List.getElem_mem hlt)
    have hlt' : place < (s.tables.map (·.name)).length := by simpa using hlt
    rw [if_pos known, List.map_set]
    conv_rhs => rw [← List.set_getElem_self hlt', List.getElem_map, old]
  · rename_i missing
    have new : t.name ∉ s.tables.map (·.name) := by
      simpa [List.findIdx?_eq_none_iff] using missing
    rw [if_neg new, List.map_append, List.map_singleton]

theorem tableNames_removeTable (s : MemorySource) (given : String) :
    (s.removeTable given).2.tableNames = s.tableNames.erase (Text.lowercase given) := by
  rw [tableNames, tableNames, List.erase_eq_eraseP, List.eraseP_map]
  simp [removeTable, Function.comp_def, BEq.comm]

/-- Where all names are distinct, no second table of the name is left. -/
theorem find?_removeTable {s : MemorySource} (distinct : s.tableNames.Nodup)
    (given name : String) : (s.removeTable given).2.tables.find? (·.name == name) =
      if Text.lowercase given = name then none else s.tables.find? (·.name == name) := by
  obtain ⟨source, tables⟩ := s
  show (tables.eraseP (·.name == Text.lowercase given)).find? _ = _
  replace distinct : (tables.map (·.name)).Nodup := distinct
  induction tables with
  | nil => simp
  | cons t tables ih =>
      rw [List.map_cons, List.nodup_cons] at distinct
      by_cases removed : t.name = Text.lowercase given
      · rw [List.eraseP_cons_of_pos (by simp [removed])]
        by_cases same : Text.lowercase given = name
        · have absent : tables.find? (·.name == name) = none := by
            rw [List.find?_eq_none]
            intro other mem named
            have twice : other.name = t.name := by
              rw [removed, same]
              exact beq_iff_eq.mp named
            exact distinct.1 (twice ▸ List.mem_map_of_mem mem)
          rw [if_pos same, absent]
        · rw [if_neg same, List.find?_cons_of_neg (by simp [removed, same])]
      · rw [List.eraseP_cons_of_neg (by simp [removed]), List.find?_cons, List.find?_cons,
          ih distinct.2]
        by_cases here : t.name = name
        · have other : Text.lowercase given ≠ name := fun same => removed (here.trans same.symm)
          simp [here, other]
        · have skipped : (t.name == name) = false := by simpa using here
          simp [skipped]

theorem inOrder_changed (source : String) (changes : List Change) :
    InOrder changes (changed source changes).tableNames := by
  induction changes using List.reverseRecOn with
  | nil =>
      refine ⟨List.nodup_nil, List.Pairwise.nil, fun name => ?_⟩
      rw [exists_arrives_iff]
      exact iff_of_false List.not_mem_nil (not_not_intro (absent_nil name))
  | append_singleton changes last ih =>
      rw [changed_concat]
      cases last with
      | add t =>
          rw [Change.apply, tableNames_addTable]
          split
          · rename_i known
            exact ih.add_known known
          · rename_i new
            exact ih.add_new new
      | remove given =>
          rw [Change.apply, tableNames_removeTable]
          exact ih.remove given

/-- What is found under a name is the last table of the name. -/
theorem find?_changed (source : String) (changes : List Change) (name : String) (t : Table) :
    (changed source changes).tables.find? (·.name == name) = some t ↔
      t.name = name ∧ Latest changes t := by
  induction changes using List.reverseRecOn with
  | nil =>
      refine iff_of_false (by simp [changed]) ?_
      rintro ⟨-, before, after, split, -⟩
      simp at split
  | append_singleton changes last ih =>
      rw [changed_concat]
      cases last with
      | add other =>
          rw [Change.apply, find?_addTable, latest_add]
          by_cases same : other.name = name
          · rw [if_pos same, Option.some.injEq]
            constructor
            · rintro rfl
              exact ⟨same, .inl rfl⟩
            · rintro ⟨named, heq | ⟨apart, -⟩⟩
              · exact heq
              · exact absurd (same.trans named.symm) apart
          · rw [if_neg same, ih]
            constructor
            · rintro ⟨rfl, latest⟩
              exact ⟨rfl, .inr ⟨same, latest⟩⟩
            · rintro ⟨named, rfl | ⟨-, latest⟩⟩
              · exact absurd named same
              · exact ⟨named, latest⟩
      | remove given =>
          rw [Change.apply, find?_removeTable (inOrder_changed source changes).distinct,
            latest_remove]
          by_cases same : Text.lowercase given = name
          · rw [if_pos same]
            refine iff_of_false nofun ?_
            rintro ⟨named, apart, -⟩
            exact apart (same.trans named.symm)
          · rw [if_neg same, ih]
            constructor
            · rintro ⟨rfl, latest⟩
              exact ⟨rfl, same, latest⟩
            · rintro ⟨named, -, latest⟩
              exact ⟨named, latest⟩

/-- The source is a map in order of insertion to which the changes were made: it lists the names
that have arrived, in this order, and describes and opens the last table of each, whatever case a
name is asked for in. -/
structure InsertionOrdered (s : MemorySource) (changes : List Change) : Prop where
  listed : InOrder changes s.tableNames
  arrivedOnce : ∀ name before before', Arrives changes name before →
    Arrives changes name before' → before = before'
  described : ∀ name t, s.table? name = some t ↔
    t.name = Text.lowercase name ∧ Latest changes t
  known : ∀ name, (s.table? name).isSome ↔ Text.lowercase name ∈ s.tableNames
  opened : ∀ name, s.connection? name =
    if Text.lowercase name ∈ s.tableNames then some ⟨s.name, Text.lowercase name⟩ else none

theorem isSome_table?_iff (s : MemorySource) (name : String) :
    (s.table? name).isSome ↔ Text.lowercase name ∈ s.tableNames := by
  simp [table?, tableNames]

theorem connection?_eq (s : MemorySource) (name : String) : s.connection? name =
    if Text.lowercase name ∈ s.tableNames then some ⟨s.name, Text.lowercase name⟩ else none := by
  rw [connection?]
  split
  · rename_i known
    obtain ⟨t, found⟩ := Option.isSome_iff_exists.mp ((isSome_table?_iff s name).mpr known)
    rw [found, Option.map_some]
  · rename_i unknown
    rw [← isSome_table?_iff, Bool.not_eq_true, Option.isSome_eq_false_iff,
      Option.isNone_iff_eq_none] at unknown
    rw [unknown, Option.map_none]

/-- A source is a map in order of insertion, whatever tables were added to it and removed. Where all
of them had names in lowercase, every name that it lists is described and opened. -/
theorem changed_insertionOrdered (source : String) (changes : List Change) :
    let s := changed source changes
    s.InsertionOrdered changes ∧
      ((∀ t, .add t ∈ changes → Text.lowercase t.name = t.name) → ∀ name ∈ s.tableNames,
        (∃ t, (kind.describe name s).1 = .ok (some t) ∧ t.name = name) ∧
          (kind.openTable name s).1 = .ok (some ⟨s.name, name⟩)) := by
  intro s
  have ordered : s.InsertionOrdered changes := {
    listed := inOrder_changed source changes
    arrivedOnce := fun _ _ _ => Arrives.unique
    described := fun name => find?_changed source changes (Text.lowercase name)
    known := isSome_table?_iff s
    opened := connection?_eq s }
  refine ⟨ordered, fun lower name listed => ?_⟩
  obtain ⟨before, c, after, split, adds, -⟩ := (ordered.listed.arrived name).mp listed
  have lowered : Text.lowercase name = name := by
    cases c with
    | add t => exact adds ▸ lower t (by simp [split])
    | remove given => exact absurd adds id
  have known : Text.lowercase name ∈ s.tableNames := lowered.symm ▸ listed
  obtain ⟨t, found⟩ := Option.isSome_iff_exists.mp ((ordered.known name).mpr known)
  have named : t.name = name := ((ordered.described name t).mp found).1.trans lowered
  refine ⟨⟨t, congrArg Except.ok found, named⟩, congrArg Except.ok ?_⟩
  rw [ordered.opened, if_pos known, lowered]

/-- Of two tables the first is replaced and the second removed, and then the first is removed in
another case and comes back behind a third. -/
theorem changed_insertionOrdered_returned :
    let changes : List Change := [.add (.new "Zeta"), .add (.new "alpha"), .add (.new "ZETA"),
      .remove "Alpha", .add (.new "mid"), .remove "zETA", .add (.new "zeta")]
    let s := changed "mem" changes
    s.tableNames = ["mid", "zeta"] ∧ s.InsertionOrdered changes ∧
      (∀ t, .add t ∈ changes → Text.lowercase t.name = t.name) ∧
      ∀ name ∈ s.tableNames, (∃ t, (kind.describe name s).1 = .ok (some t) ∧ t.name = name) ∧
        (kind.openTable name s).1 = .ok (some ⟨s.name, name⟩) := by
  intro changes s
  have lower : ∀ t, .add t ∈ changes → Text.lowercase t.name = t.name := by
    intro t added
    have made : ∃ name, t = .new name := by
      simp only [changes, List.mem_cons, Change.add.injEq, reduceCtorEq, false_or, or_false,
        List.not_mem_nil] at added
      rcases added with rfl | rfl | rfl | rfl | rfl <;> exact ⟨_, rfl⟩
    obtain ⟨name, rfl⟩ := made
    exact Text.lowercase_lowercase name
  obtain ⟨ordered, answered⟩ := changed_insertionOrdered "mem" changes
  exact ⟨by decide +kernel, ordered, lower, answered lower⟩

end SchemaCatalog.MemorySource
