import SchemaCatalog.Proofs.Catalog.Drop
import SchemaCatalog.Proofs.Catalog.Index
import SchemaCatalog.Proofs.Catalog.Live

/-!
When a drop that fails has changed nothing. The walk removes entries from the most distant ancestor
down and learns only at the owner whether the owner still holds the table, which it does not once
an attachment has replaced its entry.
-/

namespace SchemaCatalog

open Relation (ReflTransGen TransGen)

namespace Catalog

theorem Sound.exists_chain {c : Catalog} (h : c.Sound) {id owner : NodeId} {n : Node}
    {name : String} (live : c.get id = .ok n) (owned : n.ownerOf name = some owner) :
    ∃ chain, c.ancestors owner = .ok chain :=
  h.exists_ancestors (h.owners id n (Text.lowercase name) owner live owned)

/-- A failed drop leaves the owner alone: the owner does not hold the table as its own. -/
theorem not_holder_of_failed_drop {c : Catalog} (aligned : c.Aligned) {id owner : NodeId}
    {n k : Node} {name : String} {chain : List NodeId} {e : CatalogError} (live : c.get id = .ok n)
    (owned : n.ownerOf (Text.lowercase name) = some owner) (above : c.ancestors owner = .ok chain)
    (failed : (c.drop id name).1 = .error e) (found : c.node? owner = some k) :
    k.directory.owners.get? (Text.lowercase name) ≠ some owner := by
  intro own
  obtain ⟨t, holds⟩ := (aligned owner k found).defined_of_owner own
  rw [drop_of_holder live owned above found own holds] at failed
  cases failed

end Catalog

namespace Run

variable {σ : Type} {r : Run σ} {f : Federation σ}

/-- A failed drop leaves every node as it was exactly when no ancestor of the owner still records
that owner for the name. -/
theorem failed_drop_unchanged_iff (visited : r.Visits f) {id : NodeId} {name : String}
    {e : CatalogError} (failed : (f.catalog.drop id name).1 = .error e) :
    (f.catalog.drop id name).2.nodes = f.catalog.nodes ↔
      ∀ n owner a m, f.catalog.get id = .ok n →
        n.ownerOf (Text.lowercase name) = some owner → TransGen f.catalog.Under owner a →
          f.catalog.node? a = some m →
            m.directory.owners.get? (Text.lowercase name) ≠ some owner := by
  have sound := Run.sound visited
  constructor
  · intro same n owner a m live owned hway found
    obtain ⟨chain, above⟩ := sound.exists_chain live owned
    have mem : a ∈ chain := (Catalog.mem_ancestors_iff above a).mpr hway.to_reflTransGen
    exact (Catalog.nodes_drop_eq_iff live owned above).mp same a m mem found
  · intro cleared
    by_cases route : ∃ n owner chain, f.catalog.get id = .ok n ∧
        n.ownerOf (Text.lowercase name) = some owner ∧ f.catalog.ancestors owner = .ok chain
    · obtain ⟨n, owner, chain, live, owned, above⟩ := route
      refine (Catalog.nodes_drop_eq_iff live owned above).mpr fun x m mem found => ?_
      rcases Relation.reflTransGen_iff_eq_or_transGen.mp
        ((Catalog.mem_ancestors_iff above x).mp mem) with rfl | hway
      · exact Catalog.not_holder_of_failed_drop (Run.aligned visited) live owned above failed found
      · exact cleared n owner x m live owned hway found
    · rw [Catalog.drop_of_no_chain fun n owner chain live owned above =>
        route ⟨n, owner, chain, live, owned, above⟩]

/-- The middle one of three nodes in a row loses its entry to the table of the node below it, and
the top one keeps its copy. -/
def overwritten : Run Unit where
  backend := silent
  sources := ()
  operations := [.create "p" none, .create "o" none, .create "d" none, .addTable ⟨1⟩ (.new "t"),
    .attach ⟨0⟩ ⟨1⟩, .addTable ⟨2⟩ (.new "t"), .attach ⟨1⟩ ⟨2⟩]

theorem overwritten_computed : ∃ f e, overwritten.Visits f ∧
    (f.catalog.drop ⟨0⟩ "t").1 = .error e ∧
    (f.catalog.node? ⟨0⟩).map (·.directory.names) = some ["t"] ∧
    ((f.catalog.drop ⟨0⟩ "t").2.node? ⟨0⟩).map (·.directory.names) = some [] := by
  have computed : ((overwritten.after overwritten.operations).map fun f =>
      ((f.catalog.drop ⟨0⟩ "t").1.toOption.isNone,
        (f.catalog.node? ⟨0⟩).map (·.directory.names),
        ((f.catalog.drop ⟨0⟩ "t").2.node? ⟨0⟩).map (·.directory.names))) =
      some (true, some ["t"], some []) := by
    decide +kernel
  obtain ⟨f, hf, hfound⟩ := Option.map_eq_some_iff.mp computed
  simp only [Prod.mk.injEq] at hfound
  obtain ⟨hnone, hbefore, hafter⟩ := hfound
  cases hanswer : (f.catalog.drop ⟨0⟩ "t").1 with
  | ok t =>
      rw [hanswer] at hnone
      cases hnone
  | error e => exact ⟨f, e, ⟨_, List.prefix_rfl, hf⟩, hanswer, hbefore, hafter⟩

/-- The drop at the top fails, and the top has lost its entry. -/
theorem overwritten_drop_changes : ∃ f e, overwritten.Visits f ∧
    (f.catalog.drop ⟨0⟩ "t").1 = .error e ∧
    (f.catalog.drop ⟨0⟩ "t").2.nodes ≠ f.catalog.nodes := by
  obtain ⟨f, e, visited, failed, before, after⟩ := overwritten_computed
  refine ⟨f, e, visited, failed, fun same => ?_⟩
  rw [Catalog.node?, same] at after
  rw [Catalog.node?, after] at before
  cases before

theorem failed_drop_unchanged_iff_overwritten : ∃ f e, overwritten.Visits f ∧
    (f.catalog.drop ⟨0⟩ "t").1 = .error e ∧
    ((f.catalog.drop ⟨0⟩ "t").2.nodes = f.catalog.nodes ↔
      ∀ n owner a m, f.catalog.get ⟨0⟩ = .ok n →
        n.ownerOf (Text.lowercase "t") = some owner → TransGen f.catalog.Under owner a →
          f.catalog.node? a = some m →
            m.directory.owners.get? (Text.lowercase "t") ≠ some owner) := by
  obtain ⟨f, e, visited, failed, -⟩ := overwritten_computed
  exact ⟨f, e, visited, failed, failed_drop_unchanged_iff visited failed⟩

end Run

end SchemaCatalog
