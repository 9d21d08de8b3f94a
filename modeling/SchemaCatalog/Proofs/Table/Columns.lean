import Mathlib.Data.List.Dedup
import Mathlib.Data.List.Induction
import SchemaCatalog.Proofs.Table.Fields
import SchemaCatalog.Proofs.Text.Lowercase

/-!
The columns of a table: where they stand in the list, and which fields they find. Columns that come
from the fields are in lowercase, while fields are found by their names as they are written; so what
the columns of a table say depends on how the names of all its fields are written.
-/

namespace SchemaCatalog

/-! ### Maps from lists of names -/

namespace NameMap

variable {α : Type}

theorem ofList_concat (entries : List (String × α)) (e : String × α) :
    ofList (entries ++ [e]) = (ofList entries).insert e.1 e.2 := by
  rw [ofList, List.foldl_append]
  rfl

theorem contains_ofList (entries : List (String × α)) (name : String) :
    (ofList entries).contains name ↔ name ∈ entries.map (·.1) := by
  induction entries using List.reverseRecOn with
  | nil => simp [ofList, contains]
  | append_singleton entries e ih =>
      rw [ofList_concat, contains_insert, Bool.or_eq_true, ih, List.map_append, List.mem_append,
        List.map_singleton, List.mem_singleton, beq_iff_eq, or_comm]

theorem nodup_names (m : NameMap α) : m.names.Nodup :=
  m.names_ascending.imp fun {_ _} h => String.ne_of_lt h

theorem size_ofList (entries : List (String × α)) :
    (ofList entries).size = (entries.map (·.1)).dedup.length := by
  have named : (ofList entries).names.Perm (entries.map (·.1)).dedup := by
    rw [List.perm_ext_iff_of_nodup (nodup_names _) (List.nodup_dedup _)]
    intro name
    rw [mem_names_iff, contains_ofList, List.mem_dedup]
  rw [← named.length_eq, names, List.length_map, size]

/-- A name has the position of its last occurrence. -/
theorem get?_ofList_zipIdx {names : List String} {name : String} {i : Nat} :
    (ofList names.zipIdx).get? name = some i ↔
      names[i]? = some name ∧ ∀ j, i < j → names[j]? ≠ some name := by
  induction names using List.reverseRecOn with
  | nil => simp [ofList]
  | append_singleton names last ih =>
      rw [List.zipIdx_append, List.zipIdx_singleton, Nat.zero_add, ofList_concat, get?_insert]
      split
      · rename_i same
        subst same
        rw [Option.some.injEq]
        constructor
        · rintro rfl
          refine ⟨by simp, fun j beyond => ?_⟩
          rw [List.getElem?_eq_none (by rwa [List.length_append])]
          exact nofun
        · rintro ⟨found, final⟩
          obtain ⟨hlt, -⟩ := List.getElem?_eq_some_iff.mp found
          rw [List.length_append, List.length_singleton] at hlt
          rcases Nat.lt_succ_iff_lt_or_eq.mp hlt with before | at_end
          · exact absurd (by simp) (final names.length before)
          · exact at_end.symm
      · rename_i other
        have old : ∀ j : Nat, (names ++ [last])[j]? = some name ↔ names[j]? = some name := by
          intro j
          rw [List.getElem?_append]
          split
          · rfl
          · rename_i beyond
            rw [List.getElem?_singleton, List.getElem?_eq_none (Nat.le_of_not_lt beyond)]
            split <;> simp [Ne.symm other]
        simp only [ih, old, ne_eq]

end NameMap

namespace Table

/-! ### Positions of columns -/

/-- The positions of the columns are those of their last occurrences. -/
def Places (t : Table) : Prop :=
  t.columnPositions = .ofList t.columns.zipIdx

namespace Places

variable {t : Table}

theorem edit (h : t.Places) (e : Edit) : (e.apply t).Places := by
  have add : ∀ f, (t.addField f).Places := by
    intro f
    unfold addField
    simp only
    split <;> exact h
  cases e with
  | addField f => exact add f
  | addFieldType name type => exact add _
  | setColumns columns => rfl
  | setColumnsFromFields => rfl

theorem get?_eq_some_iff (h : t.Places) {c : String} {i : Nat} :
    t.columnPositions.get? c = some i ↔
      t.columns[i]? = some c ∧ ∀ j, i < j → t.columns[j]? ≠ some c := by
  rw [h, NameMap.get?_ofList_zipIdx]

theorem size_eq_iff (h : t.Places) :
    t.columnPositions.size = t.columns.length ↔ t.columns.Nodup := by
  rw [h, NameMap.size_ofList, List.zipIdx_map_fst, ← List.dedup_eq_self]
  exact ⟨(List.dedup_sublist t.columns).eq_of_length, congrArg List.length⟩

theorem own_iff (h : t.Places) :
    (∀ (i : Nat) (c : String), t.columns[i]? = some c → t.columnPositions.get? c = some i) ↔
      t.columns.Nodup := by
  rw [List.nodup_iff_getElem?_ne_getElem?]
  constructor
  · intro own i j hij hj same
    have at_j := List.getElem?_eq_getElem hj
    have first := own i _ (same.trans at_j)
    rw [own j _ at_j, Option.some.injEq] at first
    omega
  · intro distinct i c found
    refine h.get?_eq_some_iff.mpr ⟨found, fun j hij again => ?_⟩
    obtain ⟨hj, -⟩ := List.getElem?_eq_some_iff.mp again
    exact distinct i j hij hj (found.trans again.symm)

end Places

theorem places_edited (name : String) (edits : List Edit) : (edited name edits).Places := by
  induction edits using List.reverseRecOn with
  | nil => rfl
  | append_singleton edits e ih =>
      rw [edited_concat]
      exact ih.edit e

/-- How the positions of a table's columns stand to its columns. -/
structure ColumnsPlaced (t : Table) : Prop where
  last : ∀ (c : String) (i : Nat), t.columnPositions.get? c = some i ↔
    t.columns[i]? = some c ∧ ∀ j, i < j → t.columns[j]? ≠ some c
  size : t.columnPositions.size = t.columns.length ↔ t.columns.Nodup
  own : (∀ (i : Nat) (c : String), t.columns[i]? = some c → t.columnPositions.get? c = some i) ↔
    t.columns.Nodup

theorem columnsPlaced_edited (name : String) (edits : List Edit) :
    (edited name edits).ColumnsPlaced where
  last _ _ := (places_edited name edits).get?_eq_some_iff
  size := (places_edited name edits).size_eq_iff
  own := (places_edited name edits).own_iff

/-! ### Columns that come from the fields -/

/-- The second look-up of a name in lowercase is the first one again. -/
theorem column?_lowercase (t : Table) (name : String) :
    t.column? (Text.lowercase name) = (t.field? (Text.lowercase name)).map (·.type) := by
  rw [column?, Text.lowercase_lowercase]
  cases t.field? (Text.lowercase name) <;> rfl

namespace HasFields

variable {t : Table} {added : List Field}

/-- A name finds the type in lowercase when a field of that type has the very name in lowercase. -/
theorem column?_eq_some_iff (h : t.HasFields added) (name : String) (type : ValueType) :
    t.column? (Text.lowercase name) = some type ↔
      ∃ g ∈ t.fields, g.name = Text.lowercase name ∧ g.type = type := by
  rw [column?_lowercase, Option.map_eq_some_iff]
  simp only [h.field?_eq_some_iff, and_assoc]

/-- The column that comes from a field has the field's position when no field has the name in
another case. -/
theorem derived_positions_iff (h : t.HasFields added) :
    (∀ f ∈ t.fields, t.setColumnsFromFields.columnPositions.get? (Text.lowercase f.name) =
      some f.position) ↔ (t.fields.map fun f => Text.lowercase f.name).Nodup := by
  have places : t.setColumnsFromFields.Places := rfl
  have derived (i : Nat) : t.setColumnsFromFields.columns[i]? =
      t.fields[i]?.map fun f => Text.lowercase f.name := List.getElem?_map
  refine Iff.trans ?_ places.own_iff
  constructor
  · intro positions i c found
    rw [derived] at found
    obtain ⟨f, placed, rfl⟩ := Option.map_eq_some_iff.mp found
    rw [positions f (List.mem_of_getElem? placed), h.position_eq placed]
  · intro own f mem
    obtain ⟨i, placed⟩ := List.mem_iff_getElem?.mp mem
    rw [h.position_eq placed]
    exact own i _ (by rw [derived, placed, Option.map_some])

end HasFields

/-- The columns that come from the fields are in order, and each finds the field that has its very
name. What it finds has the type of the field that it comes from just when a field of that name and
type is there. -/
theorem derived_columns_typed_iff (name : String) (edits : List Edit) :
    let t := edited name (edits ++ [.setColumnsFromFields])
    t.columns = t.fields.map (fun f => Text.lowercase f.name) ∧
      (∀ c ∈ t.columns, t.column? c = (t.field? c).map (·.type)) ∧
      ∀ i : Nat, t.columns[i]?.bind t.column? = t.fields[i]?.map (·.type) ↔
        ∀ f, t.fields[i]? = some f →
          ∃ g ∈ t.fields, g.name = Text.lowercase f.name ∧ g.type = f.type := by
  intro t
  have has : t.HasFields (addedFields (edits ++ [.setColumnsFromFields])) := hasFields_edited name _
  have derived : t.columns = t.fields.map (fun f => Text.lowercase f.name) := by
    simp only [t, edited_concat]
    rfl
  refine ⟨derived, ?_, fun i => ?_⟩
  · rw [derived, List.forall_mem_map]
    exact fun f _ => t.column?_lowercase f.name
  · rw [derived, List.getElem?_map]
    cases t.fields[i]? with
    | none => simp
    | some f => simp [has.column?_eq_some_iff]

/-- Two fields whose names differ in case share a column, and a name with a capital has a column
that finds nothing. -/
theorem capitals_mistyped :
    let t := edited "people" [.addFieldType "Id" .int, .addFieldType "Name" .string,
      .addFieldType "name" .bool, .setColumnsFromFields]
    t.fields.map (·.type) = [.int, .string, .bool] ∧ t.columns = ["id", "name", "name"] ∧
      t.columns.map t.column? = [none, some .bool, some .bool] := by
  decide +kernel

/-- The positions of the columns are those of their last occurrences, after any edits. They are one
to one with the columns just when no column is repeated, and just then are columns that come from
the fields where their fields are. -/
theorem columns_oneToOne_iff (name : String) (edits : List Edit) :
    let t := edited name edits
    let d := edited name (edits ++ [.setColumnsFromFields])
    t.ColumnsPlaced ∧ d.fields = t.fields ∧
      d.columns = t.fields.map (fun f => Text.lowercase f.name) ∧
      ((∀ f ∈ t.fields, d.columnPositions.get? (Text.lowercase f.name) = some f.position) ↔
        d.columns.Nodup) := by
  intro t d
  have derived : d = t.setColumnsFromFields := edited_concat name edits .setColumnsFromFields
  refine ⟨columnsPlaced_edited name edits, ?_, ?_, ?_⟩
  · rw [derived]
    rfl
  · rw [derived]
    rfl
  · rw [derived]
    exact (hasFields_edited name edits).derived_positions_iff

/-- A column that is listed twice has one position, as have two fields whose names differ in
case. -/
theorem repeated_columns_collide :
    let listed := edited "people" [.setColumns ["x", "x"]]
    let derived := edited "people" [.addFieldType "A" .int, .addFieldType "a" .string,
      .setColumnsFromFields]
    listed.columns = ["x", "x"] ∧ listed.columnPositions.entries = [("x", 1)] ∧
      derived.columns = ["a", "a"] ∧ derived.columnPositions.entries = [("a", 1)] ∧
      derived.fields.map (·.position) = [0, 1] := by
  decide +kernel

end Table

end SchemaCatalog
