import Mathlib.Data.List.Basic
import Mathlib.Data.List.Induction
import Mathlib.Data.List.Nodup
import SchemaCatalog.Table.Basic

/-!
The fields of a table as a map in order of insertion. Whatever is done to the fields and columns of
a table, a name keeps the place that it was given when it was first added, and the field in that
place is the one that was added under the name last.
-/

namespace SchemaCatalog

theorem NameMap.places_concat {places : NameMap Nat} {names : List String} {new : String}
    (h : ∀ name i, places.get? name = some i ↔ names[i]? = some name) (absent : new ∉ names)
    (name : String) (i : Nat) :
    (places.insert new names.length).get? name = some i ↔ (names ++ [new])[i]? = some name := by
  rw [NameMap.get?_insert, List.getElem?_append, List.getElem?_singleton]
  split
  · rename_i same
    rw [Option.some.injEq, same]
    constructor
    · rintro rfl
      simp
    · intro found
      split at found
      · exact absurd (List.mem_of_getElem? found) absent
      · split at found
        · omega
        · cases found
  · rename_i other
    rw [h]
    split
    · rfl
    · rename_i beyond
      have outside : names[i]? = none := List.getElem?_eq_none_iff.mpr (Nat.le_of_not_lt beyond)
      rw [outside]
      split <;> simp [Ne.symm other]

namespace Table

/-! ### Edits -/

/-- What can be done to the fields and the columns of a table. -/
inductive Edit where
  | addField (f : Field)
  | addFieldType (name : String) (type : ValueType)
  | setColumns (columns : List String)
  | setColumnsFromFields

namespace Edit

def apply (t : Table) : Edit → Table
  | addField f => t.addField f
  | addFieldType name type => t.addFieldType name type
  | setColumns columns => t.setColumns columns
  | setColumnsFromFields => t.setColumnsFromFields

/-- The field that is added. -/
def field? : Edit → Option Field
  | addField f => some f
  | addFieldType name type => some (.base name type 0 "")
  | setColumns _ => none
  | setColumnsFromFields => none

end Edit

/-- A new table after some edits. -/
def edited (name : String) (edits : List Edit) : Table :=
  edits.foldl Edit.apply (.new name)

theorem edited_concat (name : String) (edits : List Edit) (e : Edit) :
    edited name (edits ++ [e]) = e.apply (edited name edits) := by
  rw [edited, List.foldl_append]
  rfl

/-- The fields that are added by some edits, in order. -/
def addedFields (edits : List Edit) : List Field :=
  edits.filterMap Edit.field?

theorem addedFields_concat (edits : List Edit) (e : Edit) :
    addedFields (edits ++ [e]) = addedFields edits ++ e.field?.toList := by
  rw [addedFields, List.filterMap_append]
  cases h : e.field? <;> simp [addedFields, h]

/-- The last of some fields that has the name. -/
def lastNamed? (added : List Field) (name : String) : Option Field :=
  added.reverse.find? (·.name == name)

theorem lastNamed?_concat (added : List Field) (f : Field) (name : String) :
    lastNamed? (added ++ [f]) name = if f.name = name then some f else lastNamed? added name := by
  rw [lastNamed?, List.reverse_append, List.reverse_singleton, List.singleton_append,
    List.find?_cons]
  by_cases same : f.name = name
  · simp [same]
  · have ne : (f.name == name) = false := by simpa using same
    rw [ne, if_neg same, lastNamed?]

theorem lastNamed?_eq_none_iff {added : List Field} {name : String} :
    lastNamed? added name = none ↔ name ∉ added.map (·.name) := by
  simp [lastNamed?]

/-- The fields that come after the last one of a name have other names. -/
theorem exists_split_of_lastNamed? {added : List Field} {name : String} {g : Field}
    (h : lastNamed? added name = some g) : ∃ before after, added = before ++ g :: after ∧
      g.name = name ∧ ∀ other ∈ after, other.name ≠ name := by
  obtain ⟨named, after, before, split, later⟩ := List.find?_eq_some_iff_append.mp h
  refine ⟨before.reverse, after.reverse, ?_, by simpa using named, fun other mem => ?_⟩
  · rw [← List.reverse_reverse added, split]
    simp
  · simpa using later other (List.mem_reverse.mp mem)

/-! ### Fields that were added -/

/-- The fields are those that were added: they come in the order in which their names were added
first, each is as its name was added last, and each is found by its name. -/
structure HasFields (t : Table) (added : List Field) : Prop where
  order : t.fields.map (·.name) = (added.map (·.name)).eraseDups
  last : ∀ i f, t.fields[i]? = some f →
    ∃ g, lastNamed? added f.name = some g ∧ f = { g with position := i }
  places : ∀ name i,
    t.fieldPositions.get? name = some i ↔ (t.fields.map (·.name))[i]? = some name

namespace HasFields

variable {t : Table} {added : List Field} {f : Field} {name : String} {i : Nat}

theorem empty (name : String) : (Table.new name).HasFields [] where
  order := rfl
  last i f found := by cases found
  places name i := by simp [Table.new]

theorem nodup (h : t.HasFields added) : (t.fields.map (·.name)).Nodup := by
  rw [List.nodup_iff_getElem?_ne_getElem?]
  intro i j hij hj same
  have known := (h.places _ j).mpr (List.getElem?_eq_getElem hj)
  have known' := (h.places _ i).mpr (same.trans (List.getElem?_eq_getElem hj))
  rw [known] at known'
  cases known'
  exact Nat.lt_irrefl _ hij

theorem position_eq (h : t.HasFields added) (found : t.fields[i]? = some f) : f.position = i := by
  obtain ⟨g, -, rfl⟩ := h.last i f found
  rfl

theorem field_of_place (h : t.HasFields added) (known : t.fieldPositions.get? name = some i) :
    ∃ f, t.fields[i]? = some f ∧ f.name = name ∧ f.position = i := by
  have named := (h.places name i).mp known
  rw [List.getElem?_map] at named
  obtain ⟨f, found, hname⟩ := Option.map_eq_some_iff.mp named
  exact ⟨f, found, hname, h.position_eq found⟩

theorem not_mem_of_unknown (h : t.HasFields added) (new : t.fieldPositions.get? name = none) :
    name ∉ t.fields.map (·.name) := by
  intro mem
  obtain ⟨i, hi⟩ := List.mem_iff_getElem?.mp mem
  rw [(h.places name i).mpr hi] at new
  cases new

theorem mem_names_iff (h : t.HasFields added) :
    name ∈ t.fields.map (·.name) ↔ name ∈ added.map (·.name) := by
  rw [h.order, List.mem_eraseDups]

/-! ### Adding a field -/

theorem addField_of_new (new : t.fieldPositions.get? f.name = none) :
    t.addField f = { t with
      fields := t.fields ++ [{ f with position := t.fields.length }]
      fieldPositions := t.fieldPositions.insert f.name t.fields.length } := by
  simp [addField, new]

theorem addField_of_known (h : t.HasFields added) (known : t.fieldPositions.get? f.name = some i) :
    t.addField f = { t with fields := t.fields.set i { f with position := i } } := by
  obtain ⟨old, found, -, place⟩ := h.field_of_place known
  simp [addField, known, found, place]

theorem names_set (h : t.HasFields added) (known : t.fieldPositions.get? f.name = some i) :
    (t.fields.set i { f with position := i }).map (·.name) = t.fields.map (·.name) := by
  obtain ⟨hlt, hget⟩ := List.getElem?_eq_some_iff.mp ((h.places f.name i).mp known)
  rw [List.map_set]
  conv_rhs => rw [← List.set_getElem_self hlt, hget]

theorem add_new (h : t.HasFields added) (new : t.fieldPositions.get? f.name = none) :
    (t.addField f).HasFields (added ++ [f]) := by
  have absent := h.not_mem_of_unknown new
  rw [addField_of_new new]
  refine ⟨?_, fun i k found => ?_, fun name i => ?_⟩
  · have unlisted : [f.name].removeAll (added.map (·.name)) = [f.name] := by
      rw [h.mem_names_iff] at absent
      simpa [List.removeAll] using absent
    rw [List.map_append, List.map_append, h.order, List.eraseDups_append, List.map_singleton,
      List.map_singleton, unlisted]
    rfl
  · rw [List.getElem?_append] at found
    rw [lastNamed?_concat]
    split at found
    · have other : f.name ≠ k.name := fun same =>
        absent (same ▸ List.mem_map_of_mem (List.mem_of_getElem? found))
      rw [if_neg other]
      exact h.last i k found
    · rw [List.getElem?_singleton] at found
      split at found
      · cases found
        have last : i = t.fields.length := by omega
        exact ⟨f, if_pos rfl, by rw [last]⟩
      · cases found
  · have placed := NameMap.places_concat h.places absent name i
    rw [List.length_map] at placed
    rw [placed, List.map_append, List.map_singleton]

theorem add_known (h : t.HasFields added) (known : t.fieldPositions.get? f.name = some i) :
    (t.addField f).HasFields (added ++ [f]) := by
  rw [h.addField_of_known known]
  refine ⟨?_, fun j k found => ?_, fun name j => by rw [h.names_set known, h.places]⟩
  · have listed : f.name ∈ added.map (·.name) := by
      obtain ⟨old, found, hname, -⟩ := h.field_of_place known
      rw [← h.mem_names_iff, ← hname]
      exact List.mem_map_of_mem (List.mem_of_getElem? found)
    have erased : [f.name].removeAll (added.map (·.name)) = [] := by
      simpa [List.removeAll] using listed
    rw [h.names_set known, h.order, List.map_append, List.eraseDups_append, List.map_singleton,
      erased, List.eraseDups_nil, List.append_nil]
  · rw [List.getElem?_set] at found
    rw [lastNamed?_concat]
    split at found
    · rename_i same
      split at found
      · cases found
        exact ⟨f, if_pos rfl, by rw [same]⟩
      · cases found
    · rename_i elsewhere
      have other : f.name ≠ k.name := by
        intro same
        have twice : t.fieldPositions.get? f.name = some j := by
          rw [h.places, List.getElem?_map, found, Option.map_some, same]
        rw [known] at twice
        exact elsewhere (Option.some.inj twice)
      rw [if_neg other]
      exact h.last j k found

theorem add (h : t.HasFields added) (f : Field) : (t.addField f).HasFields (added ++ [f]) := by
  cases known : t.fieldPositions.get? f.name with
  | none => exact h.add_new known
  | some place => exact h.add_known known

theorem edit (h : t.HasFields added) (e : Edit) :
    (e.apply t).HasFields (added ++ e.field?.toList) := by
  cases e with
  | addField f => exact h.add f
  | addFieldType name type => exact h.add (.base name type 0 "")
  | setColumns columns =>
      rw [Edit.field?, Option.toList_none, List.append_nil]
      exact ⟨h.order, h.last, h.places⟩
  | setColumnsFromFields =>
      rw [Edit.field?, Option.toList_none, List.append_nil]
      exact ⟨h.order, h.last, h.places⟩

/-! ### Finding a field -/

theorem field?_eq_some_iff (h : t.HasFields added) :
    t.field? name = some f ↔ f ∈ t.fields ∧ f.name = name := by
  constructor
  · intro found
    obtain ⟨i, known, placed⟩ := Option.bind_eq_some_iff.mp found
    obtain ⟨k, hk, hname, -⟩ := h.field_of_place known
    rw [placed] at hk
    cases hk
    exact ⟨List.mem_of_getElem? placed, hname⟩
  · rintro ⟨mem, rfl⟩
    obtain ⟨i, placed⟩ := List.mem_iff_getElem?.mp mem
    have known : t.fieldPositions.get? f.name = some i := by
      rw [h.places, List.getElem?_map, placed, Option.map_some]
    exact Option.bind_eq_some_iff.mpr ⟨i, known, placed⟩

theorem hasField_iff (h : t.HasFields added) : t.hasField name ↔ name ∈ added.map (·.name) := by
  rw [← h.mem_names_iff, hasField, NameMap.contains]
  cases known : t.fieldPositions.get? name with
  | none => simpa using h.not_mem_of_unknown known
  | some i =>
      obtain ⟨f, found, rfl, -⟩ := h.field_of_place known
      have mem : f.name ∈ t.fields.map (·.name) :=
        List.mem_map_of_mem (List.mem_of_getElem? found)
      simpa using mem

/-- What is found under a name is what was added last under it, at the name's first place. -/
theorem field?_eq (h : t.HasFields added) (name : String) : t.field? name =
    (lastNamed? added name).map fun f =>
      { f with position := (added.map (·.name)).eraseDups.idxOf name } := by
  cases last : lastNamed? added name with
  | none =>
      rw [Option.map_none, Option.eq_none_iff_forall_ne_some]
      intro f found
      obtain ⟨mem, rfl⟩ := h.field?_eq_some_iff.mp found
      exact lastNamed?_eq_none_iff.mp last (h.mem_names_iff.mp (List.mem_map_of_mem mem))
  | some g =>
      have added_once : name ∈ t.fields.map (·.name) := by
        rw [h.mem_names_iff]
        by_contra absent
        rw [lastNamed?_eq_none_iff.mpr absent] at last
        cases last
      obtain ⟨f, mem, rfl⟩ := List.mem_map.mp added_once
      obtain ⟨i, placed⟩ := List.mem_iff_getElem?.mp mem
      obtain ⟨g', last', heq⟩ := h.last i f placed
      rw [last] at last'
      cases last'
      have named : (t.fields.map (·.name))[i]? = some f.name := by
        rw [List.getElem?_map, placed, Option.map_some]
      obtain ⟨hlt, hget⟩ := List.getElem?_eq_some_iff.mp named
      have first : (added.map (·.name)).eraseDups.idxOf f.name = i := by
        rw [← h.order, ← hget]
        exact h.nodup.idxOf_getElem i hlt
      rw [Option.map_some, first, ← heq]
      exact h.field?_eq_some_iff.mpr ⟨mem, rfl⟩

end HasFields

theorem hasFields_edited (name : String) (edits : List Edit) :
    (edited name edits).HasFields (addedFields edits) := by
  induction edits using List.reverseRecOn with
  | nil => exact .empty name
  | append_singleton edits e ih =>
      rw [edited_concat, addedFields_concat]
      exact ih.edit e

/-! ### The map -/

/-- The fields of the table are a map in order of insertion to which the fields in `added` were
added. -/
structure InsertionOrdered (t : Table) (added : List Field) : Prop where
  distinct : (t.fields.map (·.name)).Nodup
  order : t.fields.map (·.name) = (added.map (·.name)).eraseDups
  ordinals : ∀ (i : Nat) (f : Field), t.fields[i]? = some f → f.position = i
  found : ∀ name, t.field? name = (lastNamed? added name).map fun f =>
    { f with position := (added.map (·.name)).eraseDups.idxOf name }
  known : ∀ name, t.hasField name = (t.field? name).isSome
  /-- A field of a known name changes nothing but the field in its place. -/
  replaced : ∀ f : Field, t.hasField f.name → ∃ i, (t.fields.map (·.name))[i]? = some f.name ∧
    t.addField f = { t with fields := t.fields.set i { f with position := i } }
  appended : ∀ f : Field, t.hasField f.name = false →
    (t.addField f).fields = t.fields ++ [{ f with position := t.fields.length }]

theorem HasFields.insertionOrdered {t : Table} {added : List Field} (h : t.HasFields added) :
    t.InsertionOrdered added where
  distinct := h.nodup
  order := h.order
  ordinals _ _ := h.position_eq
  found := h.field?_eq
  known name := by
    rw [h.field?_eq, Option.isSome_map, Bool.eq_iff_iff, h.hasField_iff]
    rw [← Option.ne_none_iff_isSome, Ne, lastNamed?_eq_none_iff, not_not]
  replaced f old := by
    obtain ⟨i, known⟩ := Option.isSome_iff_exists.mp old
    exact ⟨i, (h.places f.name i).mp known, h.addField_of_known known⟩
  appended f new := by
    rw [hasField, NameMap.contains, Option.isSome_eq_false_iff, Option.isNone_iff_eq_none] at new
    rw [HasFields.addField_of_new new]

/-- The fields of a table are a map in order of insertion, after any edits, and later edits leave
the names that it has in their places. -/
theorem edited_insertionOrdered (name : String) (edits later : List Edit) :
    (edited name edits).InsertionOrdered (addedFields edits) ∧
      (edited name edits).fields.map (·.name) <+:
        (edited name (edits ++ later)).fields.map (·.name) := by
  refine ⟨(hasFields_edited name edits).insertionOrdered, ?_⟩
  rw [(hasFields_edited name edits).order, (hasFields_edited name (edits ++ later)).order,
    addedFields, addedFields, List.filterMap_append, List.map_append, List.eraseDups_append]
  exact List.prefix_append _ _

end Table

end SchemaCatalog
