import Mathlib.Data.List.Induction
import SchemaCatalog.Proofs.Table.Fields

/-!
The rows of a table after they are reset. The table forgets its own rows then, but takes the new
ones from its fields, and a field that keeps a row gives this one. Reading never changes what the
rows say; only fields that are added do, and each counts with the row that it brings along.
-/

namespace SchemaCatalog

namespace Field

/-! ### Changes of a field -/

/-- What can be done to a field that a caller holds. All of it can be assigned but the row and the
ordinal. -/
inductive Change where
  | assign (attributes : Field)
  | read
  | reset

def Change.apply (f : Field) : Change → Field
  | assign attributes => { attributes with position := f.position, row := f.row }
  | read => f.withRow
  | reset => f.resetRow

/-- The field keeps a row that it would not be given now. -/
def Stale (f : Field) : Prop :=
  ∃ row, f.row = some row ∧ row ≠ f.describeRow

theorem not_stale_iff {f : Field} : ¬ f.Stale ↔ f.currentRow = f.describeRow := by
  unfold Stale currentRow
  cases f.row <;> simp

theorem currentRow_of_row {f : Field} {row : Row} (h : f.row = some row) : f.currentRow = row := by
  rw [currentRow, h, Option.getD_some]

theorem describeRow_withRow (f : Field) : f.withRow.describeRow = f.describeRow := rfl

theorem withRow_withRow (f : Field) : f.withRow.withRow = f.withRow := rfl

theorem agree_of_withRow_eq {f g : Field} (h : f.withRow = g.withRow) :
    f.name = g.name ∧ f.position = g.position ∧ f.describeRow = g.describeRow ∧
      f.currentRow = g.currentRow := by
  have row : f.withRow.row = g.withRow.row := congrArg (·.row) h
  refine ⟨?_, ?_, ?_, Option.some.inj row⟩
  · exact congrArg (·.name) h
  · exact congrArg (·.position) h
  · rw [← describeRow_withRow f, h, describeRow_withRow]

end Field

namespace Table

/-! ### Uses of a table -/

/-- What can be done to a table whose rows are asked for. Fields are added as they are given, or as
changed copies of the table's own. -/
inductive Use where
  | edit (e : Edit)
  | addOwn (i : Nat) (changes : List Field.Change)
  | readField (name : String)
  | readRows
  | setRows (rows : List Row)
  | resetRows
  | copy

namespace Use

/-- The edit that the use comes to. -/
def edit? (t : Table) : Use → Option Edit
  | edit e => some e
  | addOwn i changes =>
    t.fields[i]?.map fun f => .addField (changes.foldl Field.Change.apply f)
  | _ => none

/-- A copy keeps all rows that are kept. -/
def apply (t : Table) : Use → Table
  | edit e => e.apply t
  | addOwn i changes =>
    match t.fields[i]? with
    | some f => t.addField (changes.foldl Field.Change.apply f)
    | none => t
  | readField name => t.withFieldRow name
  | readRows => t.withRows
  | setRows rows => t.setRows rows
  | resetRows => t.resetRows
  | copy => t

end Use

/-- A new table after some uses. -/
def used (name : String) (uses : List Use) : Table :=
  uses.foldl Use.apply (.new name)

theorem used_concat (name : String) (uses : List Use) (u : Use) :
    used name (uses ++ [u]) = u.apply (used name uses) := by
  rw [used, List.foldl_append]
  rfl

def editsFrom (t : Table) : List Use → List Edit
  | [] => []
  | u :: uses => (u.edit? t).toList ++ editsFrom (u.apply t) uses

theorem editsFrom_concat (t : Table) (uses : List Use) (u : Use) :
    t.editsFrom (uses ++ [u]) = t.editsFrom uses ++ (u.edit? (uses.foldl Use.apply t)).toList := by
  induction uses generalizing t with
  | nil => simp [editsFrom]
  | cons v uses ih => simp [editsFrom, ih]

/-- The fields that some uses add, in order, each as it is when it is added. -/
def given (name : String) (uses : List Use) : List Field :=
  addedFields ((new name).editsFrom uses)

/-! ### What reading leaves alone -/

/-- The table with a row kept in every field and none of its own. -/
def settled (t : Table) : Table :=
  { t with rows := none, fields := t.fields.map Field.withRow }

theorem settled_withRows (t : Table) : t.withRows.settled = t.settled := by
  unfold withRows
  split
  · rfl
  · simp [settled, Function.comp_def, Field.withRow_withRow]

theorem settled_withFieldRow (t : Table) (name : String) :
    (t.withFieldRow name).settled = t.settled := by
  unfold withFieldRow
  split
  · rename_i place _
    have same : (t.fields.modify place Field.withRow).map Field.withRow =
        t.fields.map Field.withRow := by
      apply List.ext_getElem?
      intro i
      rw [List.getElem?_map, List.getElem?_map, List.getElem?_modify]
      cases t.fields[i]? with
      | none => rfl
      | some f => by_cases here : place = i <;> simp [here, Field.withRow_withRow]
    simp [settled, same]
  · rfl

theorem settled_addField (t : Table) (f : Field) :
    (t.settled.addField f).settled = (t.addField f).settled := by
  cases known : t.fieldPositions.get? f.name with
  | none => simp [addField, settled, known, Function.comp_def, Field.withRow_withRow]
  | some place =>
      cases found : t.fields[place]? with
      | none => simp [addField, settled, known, found, Function.comp_def, Field.withRow_withRow]
      | some old =>
          have same : old.withRow.position = old.position := rfl
          simp [addField, settled, known, found, same, List.map_set, Function.comp_def,
            Field.withRow_withRow]

theorem settled_edit (t : Table) (e : Edit) :
    (e.apply t.settled).settled = (e.apply t).settled := by
  cases e with
  | addField f => exact settled_addField t f
  | addFieldType name type => exact settled_addField t (.base name type 0 "")
  | setColumns columns =>
      simp [Edit.apply, setColumns, settled, Function.comp_def, Field.withRow_withRow]
  | setColumnsFromFields =>
      have named : ∀ f : Field, f.withRow.name = f.name := fun _ => rfl
      simp [Edit.apply, setColumnsFromFields, setColumns, settled, named, Function.comp_def,
        Field.withRow_withRow]

/-- Of a use its edit is all that shows once every row is read. -/
theorem settled_apply (t : Table) (u : Use) :
    (u.apply t).settled = (((u.edit? t).toList).foldl Edit.apply t).settled := by
  cases u with
  | edit e => rfl
  | addOwn i changes =>
      cases found : t.fields[i]? <;> simp [Use.apply, Use.edit?, found, Edit.apply]
  | readField name => exact settled_withFieldRow t name
  | readRows => exact settled_withRows t
  | setRows rows => rfl
  | resetRows => rfl
  | copy => rfl

/-- The table is as if all its edits had been made and nothing had been read. -/
theorem settled_used (name : String) (uses : List Use) :
    (used name uses).settled = (edited name ((new name).editsFrom uses)).settled := by
  induction uses using List.reverseRecOn with
  | nil => rfl
  | append_singleton uses u ih =>
      rw [used_concat, editsFrom_concat, settled_apply, edited, List.foldl_append]
      show _ = ((((u.edit? (used name uses)).toList).foldl Edit.apply
        (edited name ((new name).editsFrom uses))).settled)
      cases u.edit? (used name uses) with
      | none => exact ih
      | some e =>
          show (e.apply _).settled = (e.apply _).settled
          rw [← settled_edit, ih, settled_edit]

/-! ### Rows -/

theorem currentRows_resetRows (t : Table) :
    t.resetRows.currentRows = t.fields.map Field.currentRow := rfl

theorem exists_edited {name : String} {uses : List Use} {i : Nat} {f : Field}
    (found : (used name uses).fields[i]? = some f) : ∃ k,
      (edited name ((new name).editsFrom uses)).fields[i]? = some k ∧ k.withRow = f.withRow := by
  have same : (used name uses).settled.fields[i]? =
      (edited name ((new name).editsFrom uses)).settled.fields[i]? := by
    rw [settled_used]
  simp only [settled, List.getElem?_map, found, Option.map_some] at same
  exact Option.map_eq_some_iff.mp same.symm

/-- A field of the table is the one that was added last under its name, but for the row that reading
has it keep. -/
theorem exists_given {name : String} {uses : List Use} {i : Nat} {f : Field}
    (found : (used name uses).fields[i]? = some f) : ∃ g,
      lastNamed? (given name uses) f.name = some g ∧ f.position = i ∧
        f.describeRow = g.describeRow ∧ f.currentRow = g.currentRow := by
  obtain ⟨k, hk, heq⟩ := exists_edited found
  obtain ⟨g, last, rfl⟩ := (hasFields_edited name _).last i k hk
  obtain ⟨named, place, described, current⟩ := Field.agree_of_withRow_eq heq
  exact ⟨g, named ▸ last, place.symm, described.symm, current.symm⟩

theorem place_of_used {name : String} {uses : List Use} {i : Nat} {f : Field}
    (found : (used name uses).fields[i]? = some f) :
    (used name uses).fieldPositions.get? f.name = some i := by
  obtain ⟨k, hk, heq⟩ := exists_edited found
  have positions : (used name uses).fieldPositions =
      (edited name ((new name).editsFrom uses)).fieldPositions :=
    congrArg (·.fieldPositions) (settled_used name uses)
  rw [positions, (hasFields_edited name _).places, List.getElem?_map, hk, Option.map_some,
    (Field.agree_of_withRow_eq heq).1]

/-- A changed copy of a field takes the field's place with the row that it brings along. -/
theorem currentRows_addOwn {name : String} {uses : List Use} {i : Nat} {f : Field}
    (found : (used name uses).fields[i]? = some f) (changes : List Field.Change)
    (named : (changes.foldl Field.Change.apply f).name = f.name) :
    ((Use.addOwn i changes).apply (used name uses)).resetRows.currentRows[i]? =
      some (changes.foldl Field.Change.apply f).currentRow := by
  have place := place_of_used found
  rw [← named] at place
  obtain ⟨hlt, -⟩ := List.getElem?_eq_some_iff.mp found
  have replaced : ((Use.addOwn i changes).apply (used name uses)).fields =
      (used name uses).fields.set i
        { changes.foldl Field.Change.apply f with position := f.position } := by
    simp [Use.apply, addField, found, place]
  rw [currentRows_resetRows, replaced, List.getElem?_map, List.getElem?_set_self hlt]
  rfl

/-- What the rows are after they are reset, where the fields in `added` were added to the table. -/
structure RowsReset (t : Table) (added : List Field) : Prop where
  ordinals : ∀ (i : Nat) (f : Field), t.fields[i]? = some f → f.position = i
  /-- A field shows the row that it had when it was added last. -/
  row : ∀ (i : Nat) (f : Field), t.fields[i]? = some f → ∃ g, lastNamed? added f.name = some g ∧
    f.describeRow = g.describeRow ∧ t.resetRows.currentRows[i]? = some g.currentRow
  current_iff : t.resetRows.currentRows = t.fields.map Field.describeRow ↔
    ∀ f ∈ t.fields, ∀ g, lastNamed? added f.name = some g → ¬ g.Stale
  /-- Whatever is assigned to a copy of a field whose row was read, the row stays. -/
  copied : ∀ (i : Nat) (f attributes : Field) (row : Row), t.fields[i]? = some f →
    f.row = some row → attributes.name = f.name →
    ((Use.addOwn i [.assign attributes]).apply t).resetRows.currentRows[i]? = some row
  /-- A copy has to be reset itself. -/
  renewed : ∀ (i : Nat) (f attributes : Field), t.fields[i]? = some f →
    attributes.name = f.name →
    ((Use.addOwn i [.assign attributes, .reset]).apply t).resetRows.currentRows[i]? =
      some attributes.describeRow

/-- After any uses of a table the rows that it shows once they are reset are those of the fields as
they are, just when no field kept an outdated row when it was added last. -/
theorem used_rowsReset (name : String) (uses : List Use) :
    (used name uses).RowsReset (given name uses) where
  ordinals i f found := by
    obtain ⟨g, -, place, -⟩ := exists_given found
    exact place
  row i f found := by
    obtain ⟨g, last, -, described, current⟩ := exists_given found
    refine ⟨g, last, described, ?_⟩
    rw [currentRows_resetRows, List.getElem?_map, found, Option.map_some, current]
  current_iff := by
    rw [currentRows_resetRows, List.map_inj_left]
    refine forall₂_congr fun f mem => ?_
    obtain ⟨i, found⟩ := List.mem_iff_getElem?.mp mem
    obtain ⟨g, last, -, described, current⟩ := exists_given found
    simp only [last, Option.some.injEq, forall_eq', Field.not_stale_iff, described, current]
  copied i f attributes row found kept named := by
    rw [currentRows_addOwn found [.assign attributes] named]
    exact congrArg some (Field.currentRow_of_row kept)
  renewed i f attributes found named :=
    currentRows_addOwn found [.assign attributes, .reset] named

/-- The description is changed in a copy of the field, the copy is put in the field's place, and the
rows are reset: they still say what they said when they were read first. -/
theorem changed_copy_keeps_row :
    let changed := Field.base "id" .int 0 "key"
    let t := used "people" [.edit (.addFieldType "id" .int), .readRows,
      .addOwn 0 [.assign changed], .resetRows]
    t.currentRows = [(Field.base "id" .int 0 "").describeRow] ∧
      t.fields.map Field.describeRow = [changed.describeRow] ∧
      t.currentRows ≠ t.fields.map Field.describeRow := by
  intro changed t
  have differ : (Field.base "id" .int 0 "").describeRow ≠ changed.describeRow := by
    simp [changed, Field.base, Field.describeRow]
  exact ⟨rfl, rfl, fun same => differ (List.cons.inj same).1⟩

end Table

end SchemaCatalog
