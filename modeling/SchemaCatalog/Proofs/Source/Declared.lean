import Mathlib.Data.List.Basic
import Mathlib.Data.List.Induction
import SchemaCatalog.Node
import SchemaCatalog.Proofs.Table.Fields
import SchemaCatalog.Proofs.Text.Lowercase
import SchemaCatalog.Source.Memory

/-!
The tables that the settings of a source declare. A column that is declared twice keeps its first
place and takes its last type; of the tables of one name the last counts.
-/

namespace SchemaCatalog

open MemorySource (ColumnSetting TableSetting)

/-! ### Columns -/

/-- The field that a column makes. -/
def MemorySource.ColumnSetting.field (column : ColumnSetting) (position : Nat) : Field :=
  { Field.base column.name (.ofName column.type) 0 "" with position }

namespace Table

/-- The fields are those of the columns: they come in the order in which their names occur first,
each is as its last column has it, and each is found by its name. -/
structure HasColumns (t : Table) (columns : List ColumnSetting) : Prop where
  order : t.fields.map (·.name) = (columns.map (·.name)).eraseDups
  last : ∀ i f, t.fields[i]? = some f → ∃ before column after,
    columns = before ++ column :: after ∧ (∀ other ∈ after, other.name ≠ column.name) ∧
    f = column.field i
  places : ∀ name i,
    t.fieldPositions.get? name = some i ↔ (t.fields.map (·.name))[i]? = some name

theorem HasFields.hasColumns {t : Table} {columns : List ColumnSetting}
    (h : t.HasFields (columns.map (·.field 0))) : t.HasColumns columns where
  order := by
    rw [h.order, List.map_map]
    rfl
  last i f found := by
    obtain ⟨g, last, rfl⟩ := h.last i f found
    obtain ⟨before, after, split, -, later⟩ := exists_split_of_lastNamed? last
    obtain ⟨front, rest, rfl, -, hrest⟩ := List.map_eq_append_iff.mp split
    obtain ⟨column, back, rfl, rfl, rfl⟩ := List.map_eq_cons_iff.mp hrest
    exact ⟨front, column, back, rfl, fun other mem => later _ (List.mem_map_of_mem mem), rfl⟩
  places := h.places

theorem name_addFieldType (t : Table) (name : String) (type : ValueType) :
    (t.addFieldType name type).name = t.name ∧
      (t.addFieldType name type).originalName = t.originalName := by
  unfold addFieldType addField
  simp only
  split <;> exact ⟨rfl, rfl⟩

end Table

/-! ### Tables -/

namespace MemorySource

/-- The table is the declared one: it has the name in lowercase, and the columns. -/
structure TableSetting.Makes (setting : TableSetting) (t : Table) : Prop where
  name : t.name = Text.lowercase setting.name
  spelling : t.originalName = setting.name
  fields : t.HasColumns setting.columns
  columns : t.columns = t.fields.map fun f => Text.lowercase f.name

theorem hasFields_foldl (table : String) (columns : List ColumnSetting) :
    let t := columns.foldl (fun (t : Table) c => t.addFieldType c.name (.ofName c.type)) (.new table)
    t.name = Text.lowercase table ∧ t.originalName = table ∧
      t.HasFields (columns.map (·.field 0)) := by
  induction columns using List.reverseRecOn with
  | nil => exact ⟨rfl, rfl, .empty table⟩
  | append_singleton columns column ih =>
      obtain ⟨name, spelling, fields⟩ := ih
      simp only [List.foldl_append, List.foldl_cons, List.foldl_nil, List.map_append]
      obtain ⟨same, same'⟩ := Table.name_addFieldType (columns.foldl
        (fun (t : Table) c => t.addFieldType c.name (.ofName c.type)) (.new table))
        column.name (.ofName column.type)
      exact ⟨same.trans name, same'.trans spelling, fields.add (column.field 0)⟩

theorem TableSetting.makes_toTable (setting : TableSetting) : setting.Makes setting.toTable := by
  obtain ⟨name, spelling, fields⟩ := hasFields_foldl setting.name setting.columns
  have has := fields.hasColumns
  exact ⟨name, spelling, ⟨has.order, has.last, has.places⟩, rfl⟩

/-- A node takes a declared table as it is. -/
theorem TableSetting.Makes.adopt {setting : TableSetting} {t : Table} (h : setting.Makes t)
    (n : Node) : setting.Makes (n.adopt (Text.lowercase setting.name) t) := by
  have spelling : (if t.originalName = "" then Text.lowercase setting.name else t.originalName) =
      setting.name := by
    rw [h.spelling]
    split
    · rename_i empty
      rw [empty, Text.lowercase_empty]
    · rfl
  have name : Text.lowercase t.name = Text.lowercase setting.name := by
    rw [h.name, Text.lowercase_lowercase]
  unfold Node.adopt
  simp only
  split <;>
    exact ⟨name, spelling, ⟨h.fields.order, h.fields.last, h.fields.places⟩, h.columns⟩

/-! ### Sources -/

theorem find?_addTable (s : MemorySource) (t : Table) (name : String) :
    (s.addTable t).tables.find? (·.name == name) =
      if t.name = name then some t else s.tables.find? (·.name == name) := by
  unfold addTable
  split
  · rename_i place found
    obtain ⟨hlt, hname, before⟩ := List.findIdx?_eq_some_iff_getElem.mp found
    have parts : s.tables = s.tables.take place ++ s.tables[place] :: s.tables.drop (place + 1) := by
      rw [List.getElem_cons_drop, List.take_append_drop]
    have old : s.tables[place].name = t.name := by simpa using hname
    show (s.tables.set place t).find? _ = _
    rw [List.set_eq_take_append_cons_drop, if_pos hlt]
    conv_rhs => rw [parts]
    simp only [List.find?_append, List.find?_cons, old]
    by_cases same : t.name = name
    · have absent : (s.tables.take place).find? (·.name == name) = none := by
        rw [List.find?_eq_none]
        intro other mem
        obtain ⟨j, hj, rfl⟩ := List.mem_take_iff_getElem.mp mem
        rw [← same]
        exact before j (by omega)
      simp [same, absent]
    · have ne : (t.name == name) = false := by simpa using same
      simp [same, ne]
  · rename_i missing
    show (s.tables ++ [t]).find? _ = _
    rw [List.find?_append]
    by_cases same : t.name = name
    · have absent : s.tables.find? (·.name == name) = none := by
        rw [List.find?_eq_none, ← same]
        simpa using missing
      simp [same, absent]
    · simp [same]

theorem concat_eq_append_cons {α : Type} {xs before after : List α} {last x : α} :
    xs ++ [last] = before ++ x :: after ↔
      before = xs ∧ x = last ∧ after = [] ∨ ∃ rest, after = rest ++ [last] ∧ xs = before ++ x :: rest := by
  constructor
  · intro split
    rcases List.eq_nil_or_concat' after with rfl | ⟨rest, final, rfl⟩
    · obtain ⟨rfl, heq⟩ := List.append_inj' split rfl
      exact .inl ⟨rfl, (List.cons.inj heq).1.symm, rfl⟩
    · rw [← List.cons_append, ← List.append_assoc] at split
      obtain ⟨rfl, heq⟩ := List.append_inj' split rfl
      exact .inr ⟨rest, by rw [heq], rfl⟩
  · rintro (⟨rfl, rfl, rfl⟩ | ⟨rest, rfl, rfl⟩)
    · rfl
    · simp

/-- The settings declare the name, and last in this way. -/
def DeclaresLast (settings : List TableSetting) (name : String) (setting : TableSetting) : Prop :=
  ∃ before after, settings = before ++ setting :: after ∧ Text.lowercase setting.name = name ∧
    ∀ other ∈ after, Text.lowercase other.name ≠ name

theorem declaresLast_concat {settings : List TableSetting} {last setting : TableSetting}
    {name : String} : DeclaresLast (settings ++ [last]) name setting ↔
      if Text.lowercase last.name = name then setting = last
      else DeclaresLast settings name setting := by
  constructor
  · rintro ⟨before, after, heq, hname, later⟩
    rcases concat_eq_append_cons.mp heq with ⟨-, rfl, -⟩ | ⟨rest, rfl, older⟩
    · rw [if_pos hname]
    · rw [if_neg (later last (by simp))]
      exact ⟨before, rest, older, hname, fun other mem => later other (List.mem_append_left _ mem)⟩
  · split
    · rename_i same
      rintro rfl
      exact ⟨settings, [], rfl, same, nofun⟩
    · rename_i other
      rintro ⟨before, after, rfl, hname, later⟩
      exact ⟨before, after ++ [last], by simp, hname,
        List.forall_mem_append.mpr ⟨later, List.forall_mem_singleton.mpr other⟩⟩

theorem exists_declaresLast {settings : List TableSetting} {setting : TableSetting}
    (mem : setting ∈ settings) :
    ∃ last, DeclaresLast settings (Text.lowercase setting.name) last := by
  induction settings using List.reverseRecOn with
  | nil => cases mem
  | append_singleton settings last ih =>
      simp only [declaresLast_concat]
      split
      · exact ⟨last, rfl⟩
      · rename_i other
        rcases List.mem_append.mp mem with mem | mem
        · exact ih mem
        · rw [List.mem_singleton.mp mem] at other
          exact absurd rfl other

/-- A source with the declared tables. -/
def ofSettings (name : String) (settings : List TableSetting) : MemorySource :=
  settings.foldl (fun s setting => s.addTable setting.toTable) { name }

theorem ofSettings_concat (source : String) (settings : List TableSetting) (setting : TableSetting) :
    ofSettings source (settings ++ [setting]) =
      (ofSettings source settings).addTable setting.toTable := by
  rw [ofSettings, List.foldl_append]
  rfl

/-- A source has the last declaration of every name that is declared. -/
theorem find?_ofSettings (source : String) (settings : List TableSetting) (name : String)
    (t : Table) : (ofSettings source settings).tables.find? (·.name == name) = some t ↔
      ∃ setting, DeclaresLast settings name setting ∧ setting.toTable = t := by
  induction settings using List.reverseRecOn with
  | nil =>
      constructor
      · intro found
        cases found
      · rintro ⟨setting, ⟨before, after, heq, -⟩, -⟩
        simp at heq
  | append_singleton settings last ih =>
      have named : last.toTable.name = Text.lowercase last.name := last.makes_toTable.name
      rw [ofSettings_concat, find?_addTable, named]
      simp only [declaresLast_concat]
      split
      · simp
      · exact ih

theorem declaresLast_of_mem_ofSettings {source : String} {settings : List TableSetting} {t : Table}
    (mem : t ∈ (ofSettings source settings).tables) :
    ∃ setting, DeclaresLast settings t.name setting := by
  have some_found : ((ofSettings source settings).tables.find? (·.name == t.name)).isSome :=
    List.find?_isSome.mpr ⟨t, mem, beq_self_eq_true _⟩
  obtain ⟨other, found⟩ := Option.isSome_iff_exists.mp some_found
  obtain ⟨setting, last, -⟩ := (find?_ofSettings source settings t.name other).mp found
  exact ⟨setting, last⟩

theorem lowercase_of_mem_ofSettings {source : String} {settings : List TableSetting} {t : Table}
    (mem : t ∈ (ofSettings source settings).tables) : Text.lowercase t.name = t.name := by
  obtain ⟨setting, -, -, -, named, -⟩ := declaresLast_of_mem_ofSettings mem
  rw [← named, Text.lowercase_lowercase]

end MemorySource

/-! ### Settings -/

namespace SourceConfig

variable {conf : SourceConfig}

/-- The settings are readable and declare these tables; without a setting there are none. -/
def Declares (conf : SourceConfig) (settings : List TableSetting) : Prop :=
  match conf.settings.get? "tables" with
  | none => settings = []
  | some declared => (Json.Reader.list TableSetting.reader).ofValue declared = .ok settings

/-- The settings are not readable, for this reason. -/
def Unreadable (conf : SourceConfig) (e : Json.ReadError) : Prop :=
  ∃ declared, conf.settings.get? "tables" = some declared ∧
    (Json.Reader.list TableSetting.reader).ofValue declared = .error e

theorem ofConfig_of_declares {settings : List TableSetting} (h : conf.Declares settings) :
    MemorySource.ofConfig conf = .ok (MemorySource.ofSettings conf.name settings) := by
  unfold Declares at h
  unfold MemorySource.ofConfig
  cases declared : conf.settings.get? "tables" with
  | none =>
      rw [declared] at h
      rw [h]
      rfl
  | some json =>
      rw [declared] at h
      simp only [h]
      rfl

theorem ofConfig_of_unreadable {e : Json.ReadError} (h : conf.Unreadable e) :
    MemorySource.ofConfig conf = .error (.badTables conf.name e) := by
  obtain ⟨declared, present, unread⟩ := h
  unfold MemorySource.ofConfig
  rw [present]
  simp only [unread]

theorem declares_or_unreadable (conf : SourceConfig) :
    (∃ settings, conf.Declares settings) ∨ ∃ e, conf.Unreadable e := by
  unfold Declares Unreadable
  cases conf.settings.get? "tables" with
  | none => exact .inl ⟨[], rfl⟩
  | some declared =>
      cases read : (Json.Reader.list TableSetting.reader).ofValue declared with
      | ok settings => exact .inl ⟨settings, read⟩
      | error e => exact .inr ⟨e, declared, rfl, read⟩

theorem Declares.unique {settings settings' : List TableSetting} (h : conf.Declares settings)
    (h' : conf.Declares settings') : settings' = settings := by
  unfold Declares at h h'
  cases declared : conf.settings.get? "tables" with
  | none =>
      rw [declared] at h h'
      exact h'.trans h.symm
  | some json =>
      rw [declared] at h h'
      exact Except.ok.inj (h'.symm.trans h)

theorem Declares.not_unreadable {settings : List TableSetting} (h : conf.Declares settings)
    (e : Json.ReadError) : ¬ conf.Unreadable e := by
  intro unreadable
  have built := ofConfig_of_declares h
  rw [ofConfig_of_unreadable unreadable] at built
  cases built

end SourceConfig

end SchemaCatalog
