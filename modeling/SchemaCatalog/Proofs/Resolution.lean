import SchemaCatalog.Node
import SchemaCatalog.Proofs.QualifiedName
import SchemaCatalog.Proofs.Text.Context

/-!
How a node resolves a name: as it is given, then without its schema, then as an alias. What is left
of a name without its schema is in lowercase, like the names under which tables are indexed.
-/

namespace SchemaCatalog

namespace Node

variable {n : Node} {name : String} {t : Table}

theorem lowercase_plainName (name : String) :
    Text.lowercase (plainName name) = plainName name := by
  have given := Text.lowercase_eq_self_iff.mp (Text.lowercase_lowercase name)
  unfold plainName
  simp only
  split
  · rename_i q qualified
    exact Text.lowercase_eq_self_iff.mpr fun c hc =>
      given c (QualifiedName.mem_of_mem_table qualified hc)
  · exact Text.lowercase_lowercase name

/-- However a source spells the plain name, in lowercase it is the plain name again. -/
theorem lowercase_spelled {listed : String}
    (h : listed = plainName name ∨ Text.sameAsciiCase listed (plainName name)) :
    Text.lowercase listed = plainName name := by
  rcases h with rfl | same
  · exact lowercase_plainName name
  · rw [Text.lowercase_eq_of_sameAsciiCase same, lowercase_plainName]

theorem plainName_of_no_dot (h : '.' ∉ name.toList) : plainName name = Text.lowercase name := by
  have undivided := QualifiedName.ofString?_of_no_dot fun mem =>
    h (Text.mem_of_mem_lowercase (by decide) mem)
  simp only [plainName, undivided]

theorem plainName_congr {other : String} (h : Text.lowercase name = Text.lowercase other) :
    plainName name = plainName other := by
  simp only [plainName, h]

/-! ### Resolution -/

/-- The three ways in which a name resolves. -/
inductive Resolves (n : Node) (name : String) (t : Table) : Prop where
  | given (held : n.directory.tables.get? (Text.lowercase name) = some t)
  | plain (missed : n.directory.tables.get? (Text.lowercase name) = none)
      (held : n.directory.tables.get? (plainName name) = some t)
  | aliased (missed : n.directory.tables.get? (Text.lowercase name) = none)
      (missed_plain : n.directory.tables.get? (plainName name) = none)
      (held : n.aliased? (plainName name) = some t)

theorem table_eq_ok_iff : n.table name = .ok t ↔ n.Resolves name t := by
  have found : n.table name = .ok t ↔ (n.directory.tables.get? (Text.lowercase name)).or
      ((n.directory.tables.get? (plainName name)).or (n.aliased? (plainName name))) = some t := by
    unfold table
    cases n.directory.tables.get? (Text.lowercase name) <;>
      cases n.directory.tables.get? (plainName name) <;> cases n.aliased? (plainName name) <;> simp
  rw [found, Option.or_eq_some_iff, Option.or_eq_some_iff]
  constructor
  · rintro (held | ⟨missed, held | ⟨missed_plain, held⟩⟩)
    · exact .given held
    · exact .plain missed held
    · exact .aliased missed missed_plain held
  · rintro (held | ⟨missed, held⟩ | ⟨missed, missed_plain, held⟩)
    · exact .inl held
    · exact .inr ⟨missed, .inl held⟩
    · exact .inr ⟨missed, .inr ⟨missed_plain, held⟩⟩

theorem not_indexed_of_error {e : CatalogError} (h : n.table name = .error e) :
    n.directory.tables.get? (Text.lowercase name) = none ∧
      n.directory.tables.get? (plainName name) = none := by
  have unresolved (t : Table) : ¬ n.Resolves name t := by
    rw [← table_eq_ok_iff, h]
    nofun
  constructor
  · rw [Option.eq_none_iff_forall_ne_some]
    exact fun t held => unresolved t (.given held)
  · rw [Option.eq_none_iff_forall_ne_some]
    intro t held
    cases given : n.directory.tables.get? (Text.lowercase name) with
    | some t' => exact unresolved t' (.given given)
    | none => exact unresolved t (.plain given held)

/-- What a name resolves to depends on the index and on the aliases alone. -/
theorem table_congr {m : Node} (config : m.config = n.config)
    (directory : m.directory = n.directory) (name : String) : m.table name = n.table name := by
  simp only [table, aliased?, config, directory]

end Node

end SchemaCatalog
