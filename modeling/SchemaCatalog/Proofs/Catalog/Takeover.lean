import SchemaCatalog.Proofs.Catalog.Links
import SchemaCatalog.Proofs.Directory

/-!
What a node sees after it has taken over the entries of a child. A refresh fills in what the node
does not know; an attachment replaces what it knows, in whatever order the entries come.
-/

namespace SchemaCatalog.Node

/-- Takes over the entry of one name, unless the node knows it. -/
def takeNew (child n : Node) (name : String) : Node :=
  if n.knows name then n
  else
    match child.directory.tables.get? name with
    | some t => n.register name ((child.directory.owners.get? name).getD child.id) t
    | none => n

theorem absorb_eq (n child : Node) :
    n.absorb child = child.directory.names.foldl (takeNew child) n := rfl

/-- Takes over one entry, whether the node knows the name or not. -/
def takeAny (child n : Node) (entry : String × Table) : Node :=
  n.register entry.1 ((child.directory.owners.get? entry.1).getD child.id) entry.2

theorem mergeChild_eq (n child : Node) :
    n.mergeChild child = child.directory.tables.entries.foldl (takeAny child) n := rfl

variable {n child : Node}

theorem register_of_lookup? {name : String} {owner : NodeId} {t : Table}
    (holds : child.directory.lookup? name = some (owner, t)) :
    n.register name ((child.directory.owners.get? name).getD child.id) t =
      n.register name owner t := by
  rw [(Directory.lookup?_eq_some_iff.mp holds).1, Option.getD_some]

/-! ### By a refresh -/

theorem takeNew_spec (hn : n.directory.Aligned) (hchild : child.directory.Aligned)
    (name : String) : (takeNew child n name).directory.Aligned ∧
      ∀ other, (takeNew child n name).directory.lookup? other =
        (n.directory.lookup? other).or
          (if other = name then child.directory.lookup? other else none) := by
  unfold takeNew
  split
  · rename_i known
    obtain ⟨entry, hentry⟩ := Option.isSome_iff_exists.mp ((hn.knows_iff name).mp known)
    refine ⟨hn, fun other => ?_⟩
    split
    · rename_i same
      rw [same, hentry, Option.some_or]
    · rw [Option.or_none]
  · rename_i unknown
    have missing := hn.lookup?_of_unknown (Bool.eq_false_iff.mpr unknown)
    cases hentry : child.directory.lookup? name with
    | some entry =>
        obtain ⟨owner, t⟩ := entry
        rw [(Directory.lookup?_eq_some_iff.mp hentry).2]
        simp only
        rw [register_of_lookup? hentry]
        refine ⟨hn.register name owner t, fun other => ?_⟩
        rw [register, Directory.lookup?_register]
        split
        · rename_i same
          rw [same, missing, hentry, Option.none_or]
        · rw [Option.or_none]
    | none =>
        have absent : child.directory.tables.get? name = none := by
          rw [hchild.tables_get?, hentry, Option.map_none]
        simp only [absent]
        refine ⟨hn, fun other => ?_⟩
        split
        · rename_i same
          rw [same, hentry, Option.or_none]
        · rw [Option.or_none]

theorem foldl_takeNew_spec (hn : n.directory.Aligned) (hchild : child.directory.Aligned)
    (names : List String) : (names.foldl (takeNew child) n).directory.Aligned ∧
      ∀ other, (names.foldl (takeNew child) n).directory.lookup? other =
        (n.directory.lookup? other).or
          (if other ∈ names then child.directory.lookup? other else none) := by
  induction names generalizing n with
  | nil => simp [hn]
  | cons name names ih =>
      obtain ⟨aligned, entries⟩ := takeNew_spec hn hchild name
      obtain ⟨halign, hall⟩ := ih aligned
      refine ⟨halign, fun other => ?_⟩
      rw [List.foldl_cons, hall, entries, Option.or_assoc]
      congr 1
      by_cases hname : other = name
      · subst hname
        cases child.directory.lookup? other <;> simp
      · simp [hname]

/-- After a refresh a node sees what it saw before, and under all other names what the child
sees. -/
theorem lookup?_absorb (hn : n.directory.Aligned) (hchild : child.directory.Aligned)
    (name : String) : (n.absorb child).directory.lookup? name =
      (n.directory.lookup? name).or (child.directory.lookup? name) := by
  rw [absorb_eq, (foldl_takeNew_spec hn hchild _).2]
  split
  · rfl
  · rename_i absent
    rw [hchild.lookup?_eq_none_iff.mpr absent]

/-! ### By an attachment -/

theorem foldl_takeAny_aligned (hn : n.directory.Aligned) (entries : List (String × Table)) :
    (entries.foldl (takeAny child) n).directory.Aligned := by
  induction entries generalizing n with
  | nil => exact hn
  | cons _ entries ih => exact ih (hn.register _ _ _)

theorem foldl_takeAny_eq (n child : Node) (entries : List (String × Table)) :
    entries.foldl (takeAny child) n =
      { n with directory := (entries.foldl (takeAny child) n).directory } := by
  induction entries generalizing n with
  | nil => rfl
  | cons entry entries ih => exact ih (takeAny child n entry)

theorem lookup?_foldl_takeAny (hchild : child.directory.Aligned) {entries : List (String × Table)}
    (holds : ∀ entry ∈ entries, child.directory.tables.get? entry.1 = some entry.2)
    (name : String) : (entries.foldl (takeAny child) n).directory.lookup? name =
      if name ∈ entries.map (·.1) then child.directory.lookup? name
      else n.directory.lookup? name := by
  induction entries generalizing n with
  | nil => rfl
  | cons entry entries ih =>
      rw [List.foldl_cons, ih fun e he => holds e (List.mem_cons_of_mem _ he), List.map_cons]
      by_cases later : name ∈ entries.map (·.1)
      · rw [if_pos later, if_pos (List.mem_cons_of_mem _ later)]
      · rw [if_neg later, takeAny, register, Directory.lookup?_register]
        by_cases same : name = entry.1
        · have held := holds entry List.mem_cons_self
          rw [hchild.tables_get?] at held
          obtain ⟨⟨owner, t⟩, hentry, ht⟩ := Option.map_eq_some_iff.mp held
          rw [if_pos same, same, if_pos List.mem_cons_self, hentry,
            (Directory.lookup?_eq_some_iff.mp hentry).1, Option.getD_some, ← ht]
        · rw [if_neg same, if_neg]
          simpa [same] using later

/-- The order in which an attachment takes the entries of the child makes no difference. -/
theorem mergeChild_of_perm (hn : n.directory.Aligned) (hchild : child.directory.Aligned)
    {entries : List (String × Table)} (order : entries.Perm child.directory.tables.entries) :
    entries.foldl (takeAny child) n = n.mergeChild child := by
  have holds : ∀ entry ∈ child.directory.tables.entries,
      child.directory.tables.get? entry.1 = some entry.2 := fun _ he =>
    NameMap.get?_eq_some_iff.mpr he
  have same : (entries.foldl (takeAny child) n).directory = (n.mergeChild child).directory := by
    refine (foldl_takeAny_aligned hn _).ext (foldl_takeAny_aligned hn _) fun name => ?_
    rw [mergeChild_eq, lookup?_foldl_takeAny hchild fun e he => holds e (order.subset he),
      lookup?_foldl_takeAny hchild holds]
    simp only [(order.map (·.1)).mem_iff]
  rw [foldl_takeAny_eq, same]
  exact (foldl_takeAny_eq n child _).symm

theorem mergeChild_aligned (hn : n.directory.Aligned) (child : Node) :
    (n.mergeChild child).directory.Aligned :=
  foldl_takeAny_aligned hn _

/-- After an attachment a node sees what the child sees, and under all other names what it saw
before. -/
theorem lookup?_mergeChild (hchild : child.directory.Aligned) (name : String) :
    (n.mergeChild child).directory.lookup? name =
      (child.directory.lookup? name).or (n.directory.lookup? name) := by
  have listed : name ∈ child.directory.tables.entries.map (·.1) ↔
      name ∈ child.directory.names := by
    rw [hchild.defined, ← NameMap.mem_names_iff, NameMap.names]
  rw [mergeChild_eq, lookup?_foldl_takeAny hchild fun _ he => NameMap.get?_eq_some_iff.mpr he]
  simp only [listed]
  split
  · rename_i seen
    obtain ⟨entry, hentry⟩ := Option.isSome_iff_exists.mp ((hchild.isSome_lookup? name).mpr seen)
    rw [hentry, Option.some_or]
  · rename_i unseen
    rw [hchild.lookup?_eq_none_iff.mpr unseen, Option.none_or]

end SchemaCatalog.Node
