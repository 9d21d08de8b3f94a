import SchemaCatalog.Proofs.Catalog.Allowlist
import SchemaCatalog.Proofs.Catalog.Vouched

/-!
The list of tables to load governs where the tables of a node come from, so it governs every place
that they come to. A name is checked in the spelling under which it is recorded, and whoever takes
an entry over takes the name with the owner. Only a caller gets past the list, by adding a table to
the node by hand.
-/

namespace SchemaCatalog

open Catalog (Later Vouches)

namespace Catalog

variable {c d : Catalog} {o : NodeId} {exempt : String → Prop} {name : String}

/-- A name that may be recorded with the owner `o`: it is exempt, or the node lets it in as it
stands. -/
def Passes (c : Catalog) (o : NodeId) (exempt : String → Prop) (name : String) : Prop :=
  exempt name ∨ ∃ k, c.node? o = some k ∧ k.allows name ∧ Text.lowercase name = name

theorem Passes.later (h : c.Passes o exempt name) (later : Later c d) : d.Passes o exempt name := by
  rcases h with free | ⟨k, found, allowed, lower⟩
  · exact .inl free
  · obtain ⟨k', found', same⟩ := later.kept o k found
    refine .inr ⟨k', found', ?_, lower⟩
    rwa [Node.allows, Node.config_eq_of_origin same]

/-- All names that any node records with the owner `o` pass. -/
structure Screened (o : NodeId) (exempt : String → Prop) (c : Catalog) : Prop where
  ids : ∀ id n, c.node? id = some n → n.id = id
  aligned : c.Aligned
  passes : ∀ id n name, c.node? id = some n → n.directory.owners.get? name = some o →
    c.Passes o exempt name

end Catalog

namespace Run

variable {σ : Type} {r : Run σ} {f : Federation σ} {o : NodeId}

/-- A caller adds a table of the name to the node at some time of the run. -/
def AddsUnder (r : Run σ) (o : NodeId) (name : String) : Prop :=
  ∃ g op t, r.Performs g op ∧ op.Adds g.catalog o t ∧ t.name = name

theorem screened_throughout (o : NodeId) (visited : r.Visits f) :
    f.catalog.Screened o (r.AddsUnder o) := by
  have laws : Vouches r.backend
      fun c name owner _ => owner = o → c.Passes o (r.AddsUnder o) name := by
    refine ⟨fun later passes same => (passes same).later later, ?_⟩
    rintro c k source listed t world found - allowed - rfl
    exact .inr ⟨k, found, allowed, Text.lowercase_lowercase listed⟩
  have vouched := Run.vouched laws (fun g op id n t hop adds _ same =>
    .inl ⟨g, op, t, hop, same ▸ adds, rfl⟩) visited
  refine ⟨vouched.ids, vouched.aligned, fun id n name found recorded => ?_⟩
  obtain ⟨t, passes⟩ := vouched.of_owner found recorded
  exact passes rfl

/-- The list of tables to load is never bypassed by discovery. If a node has such a list and no
table is added to it by hand, then every name that any node records with it as the owner, released
nodes included, is let in by its configuration as it stands: the list has an entry for the name, of
which lowercasing changes ASCII letters alone. -/
theorem recorded_admitted (unaided : ∀ g op t, r.Performs g op → ¬ op.Adds g.catalog o t)
    (visited : r.Visits f) {k : Node} (found : f.catalog.node? o = some k) {conf : SourceConfig}
    (configured : k.config = some conf) (listed : conf.tablesToLoad ≠ []) {id : NodeId} {n : Node}
    (seen : f.catalog.node? id = some n) {name : String}
    (recorded : n.directory.owners.get? name = some o) :
    conf.allows name ∧ ∃ entry ∈ conf.tablesToLoad,
      Text.lowercase entry = name ∧ Text.AsciiCased entry := by
  rcases (screened_throughout o visited).passes id n name seen recorded with
    ⟨g, op, t, hop, adds, -⟩ | ⟨k', found', allowed, lower⟩
  · exact absurd adds (unaided g op t hop)
  · rw [found] at found'
    cases found'
    have admitted : k.Admits name := Node.allows_lowercase_iff.mp (lower.symm ▸ allowed)
    obtain ⟨entry, mem, same, cased⟩ := admitted conf configured listed
    rw [Node.allows, configured] at allowed
    exact ⟨allowed, entry, mem, same.trans lower, cased⟩

/-- A node with a list of tables to load. It loads one of them on demand and the other when the
node above is refreshed, which is given a table by hand that the list does not have. -/
def curated : Run Unit where
  backend := .always (listedAnswers ["ORDERS", "Items", "Secrets"])
  sources := ()
  operations := [
    .createWithConfig { name := "sales", tablesToLoad := ["Orders", "items"] } (some ⟨0⟩),
    .create "main" none, .loadTable ⟨0⟩ "sales.orders", .attach ⟨1⟩ ⟨0⟩, .refresh ⟨0, 0⟩ ⟨1⟩,
    .addTable ⟨1⟩ (.new "Secrets")]

theorem curated_unaided (g : Federation Unit) (op : Operation Unit) (t : Table)
    (hop : curated.Performs g op) : ¬ op.Adds g.catalog ⟨0⟩ t := by
  intro adds
  obtain ⟨i, hi, -⟩ := hop.place
  match i, hi with
  | 0, hi | 1, hi | 2, hi | 3, hi | 4, hi | 5, hi =>
      cases hi
      cases adds

theorem recorded_admitted_curated :
    (∀ g op t, curated.Performs g op → ¬ op.Adds g.catalog ⟨0⟩ t) ∧
    ∃ f k conf n, curated.Visits f ∧ f.catalog.node? ⟨0⟩ = some k ∧ k.config = some conf ∧
      conf.tablesToLoad = ["Orders", "items"] ∧ f.catalog.node? ⟨1⟩ = some n ∧
      n.tables = ["items", "orders", "secrets"] ∧
      n.directory.owners.get? "items" = some ⟨0⟩ ∧ n.directory.owners.get? "secrets" = some ⟨1⟩ ∧
      (conf.allows "items" ∧ ∃ entry ∈ conf.tablesToLoad,
        Text.lowercase entry = "items" ∧ Text.AsciiCased entry) ∧ ¬ conf.allows "secrets" := by
  have computed : ((curated.after curated.operations).bind fun f =>
      (f.catalog.node? ⟨0⟩).bind fun k => k.config.bind fun conf =>
        (f.catalog.node? ⟨1⟩).map fun n =>
          (conf.tablesToLoad, n.tables, n.directory.owners.get? "items",
            n.directory.owners.get? "secrets", conf.allows "secrets")) =
      some (["Orders", "items"], ["items", "orders", "secrets"], some ⟨0⟩, some ⟨1⟩, false) := by
    decide +kernel
  obtain ⟨f, hf, hfound⟩ := Option.bind_eq_some_iff.mp computed
  obtain ⟨k, found, hfound⟩ := Option.bind_eq_some_iff.mp hfound
  obtain ⟨conf, configured, hfound⟩ := Option.bind_eq_some_iff.mp hfound
  obtain ⟨n, seen, hparts⟩ := Option.map_eq_some_iff.mp hfound
  simp only [Prod.mk.injEq] at hparts
  obtain ⟨list, tables, recorded, added, barred⟩ := hparts
  have visited : curated.Visits f := ⟨_, List.prefix_rfl, hf⟩
  have listed : conf.tablesToLoad ≠ [] := by
    rw [list]
    exact List.cons_ne_nil _ _
  exact ⟨curated_unaided, f, k, conf, n, visited, found, configured, list, seen, tables, recorded,
    added, recorded_admitted curated_unaided visited found configured listed seen recorded,
    Bool.eq_false_iff.mp barred⟩

end Run

end SchemaCatalog
