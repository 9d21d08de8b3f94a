import SchemaCatalog.Proofs.Catalog.Entries
import SchemaCatalog.Proofs.Catalog.Run
import SchemaCatalog.Proofs.Text.ByteOrder

/-!
The three parts of every directory name the same tables, in byte order, in all states of all runs
and for released nodes too.
-/

namespace SchemaCatalog

namespace Catalog

/-- Every node has a directory of which the parts agree. -/
def Aligned (c : Catalog) : Prop :=
  ∀ id n, c.node? id = some n → n.directory.Aligned

theorem aligned_empty (window : Millis) : Aligned { window } := by
  intro id n found
  cases found

theorem Attached.aligned {c d : Catalog} {parent child : NodeId} {m n : Node}
    (h : Attached c parent child m n d) (hc : c.Aligned) : d.Aligned := by
  intro id k found
  obtain ⟨k', hk', edits⟩ := h.edits found
  exact edits.aligned (hc id k' hk')

theorem Step.aligned {c d : Catalog} (h : Step c d) (hc : c.Aligned) : d.Aligned := by
  cases h with
  | touch h =>
      intro id k found
      obtain ⟨k', hk', edits⟩ := h.edits found
      exact edits.aligned (hc id k' hk')
  | create name config source =>
      intro id k found
      rcases node?_insertNode found with old | ⟨-, -, -, -, hempty⟩
      · exact hc id k old
      · rw [hempty]
        exact .empty
  | place new accepted =>
      obtain ⟨m, n, attached⟩ := attached_of_ok accepted
      exact attached.aligned hc

end Catalog

namespace Run

variable {σ : Type} {r : Run σ} {f : Federation σ}

theorem aligned (h : r.Visits f) : f.catalog.Aligned :=
  invariant Catalog.aligned_empty Catalog.Step.aligned Catalog.Attached.aligned h

/-- In every state of every run, each node ever created has its names in ascending byte order, and
they are the names that have an owner and the names that have a definition. -/
theorem directory_consistent (visited : r.Visits f) {n : Node} (created : n ∈ f.catalog.nodes) :
    n.directory.names.Pairwise (fun a b => Text.Utf8.encode a < Text.Utf8.encode b) ∧
      (∀ name, name ∈ n.directory.names ↔ name ∈ n.directory.tables.names) ∧
      ∀ name, name ∈ n.directory.names ↔ name ∈ n.directory.owners.names := by
  obtain ⟨i, hi⟩ := List.mem_iff_getElem?.mp created
  have aligned : n.directory.Aligned := Run.aligned visited ⟨i⟩ n hi
  refine ⟨aligned.sorted.imp Text.Utf8.encode_lt_encode, fun name => ?_, fun name => ?_⟩
  · rw [aligned.defined, NameMap.mem_names_iff]
  · rw [aligned.owned, NameMap.mem_names_iff]

/-- A node takes over a table from below and is given another after its release. -/
def outliving : Run Unit where
  backend := silent
  sources := ()
  operations := [.create "a" none, .create "b" none, .addTable ⟨1⟩ (.new "u"), .attach ⟨0⟩ ⟨1⟩,
    .shutdown, .addTable ⟨0⟩ (.new "t")]

theorem directory_consistent_outliving : ∃ f n, outliving.Visits f ∧ n ∈ f.catalog.nodes ∧
    n.directory.names = ["t", "u"] ∧
    n.directory.names.Pairwise (fun a b => Text.Utf8.encode a < Text.Utf8.encode b) ∧
      (∀ name, name ∈ n.directory.names ↔ name ∈ n.directory.tables.names) ∧
      ∀ name, name ∈ n.directory.names ↔ name ∈ n.directory.owners.names := by
  have computed : ((outliving.after outliving.operations).map fun f =>
      (f.catalog.node? ⟨0⟩).map (·.directory.names)) = some (some ["t", "u"]) := by
    decide +kernel
  obtain ⟨f, hf, hfound⟩ := Option.map_eq_some_iff.mp computed
  obtain ⟨n, hn, hnames⟩ := Option.map_eq_some_iff.mp hfound
  have visited : outliving.Visits f := ⟨_, List.prefix_rfl, hf⟩
  have created : n ∈ f.catalog.nodes := List.mem_of_getElem? hn
  exact ⟨f, n, visited, created, hnames, directory_consistent visited created⟩

end Run

end SchemaCatalog
