import Mathlib.Data.List.Basic
import SchemaCatalog.Proofs.Catalog.Index
import SchemaCatalog.Proofs.Catalog.Live
import SchemaCatalog.Proofs.Text.Lowercase

/-!
Each table that a node sees is signed by the owner that the node records for it. A table and its
owner are written by one step and copied upward together, at whatever depth, so no parent ever has
to guess the owner of what it takes over.
-/

namespace SchemaCatalog

/-- A table names its owner and has the hash of its own name. -/
structure Table.SignedBy (t : Table) (owner : NodeId) : Prop where
  schema : t.schema = some owner
  id : t.id = NameHash.ofName t.name

namespace Node

@[simp] theorem ownerOf_lowercase (n : Node) (name : String) :
    n.ownerOf (Text.lowercase name) = n.directory.owners.get? (Text.lowercase name) := by
  rw [ownerOf, Text.lowercase_lowercase]

theorem table_of_holds {n : Node} {name : String} {t : Table}
    (holds : n.directory.tables.get? (Text.lowercase name) = some t) : n.table name = .ok t := by
  simp [table, holds]

theorem name_partitioned (n : Node) (t : Table) : (n.partitioned t).name = t.name := by
  unfold partitioned
  split
  · rfl
  · split
    · rfl
    · split <;> rfl

theorem id_partitioned (n : Node) (t : Table) : (n.partitioned t).id = t.id := by
  unfold partitioned
  split
  · rfl
  · split
    · rfl
    · split <;> rfl

theorem claim_signed (n : Node) (t : Table) : (n.claim t).SignedBy n.id where
  schema := rfl
  id := by
    show (n.partitioned t.assignId).id = NameHash.ofName (n.partitioned t.assignId).name
    rw [id_partitioned, name_partitioned]
    rfl

theorem adopt_signed (n : Node) (listed : String) (t : Table) :
    (n.adopt listed t).SignedBy n.id := by
  unfold adopt
  simp only [Table.assignId, Table.setPartition]
  split <;> constructor <;> simp only

end Node

namespace Directory

/-- Each table is recorded under the owner that signed it. -/
def Signed (d : Directory) : Prop :=
  ∀ name t, d.tables.get? name = some t →
    ∃ owner, d.owners.get? name = some owner ∧ t.SignedBy owner

theorem signed_empty : Signed {} := by
  intro name t h
  cases h

theorem Edits.signed {offered : String → NodeId → Table → Prop} {d e : Directory}
    (h : Edits offered d e)
    (offers : ∀ name owner t, offered name owner t → t.SignedBy owner) (hd : d.Signed) :
    e.Signed := by
  induction h with
  | refl => exact hd
  | @register e key owner t _ offer ih =>
      intro name t' h
      simp only [Directory.register, NameMap.get?_insert] at h ⊢
      split at h
      · rename_i hname
        cases h
        exact ⟨owner, if_pos hname, offers _ _ _ offer⟩
      · rename_i hname
        rw [if_neg hname]
        exact ih name t' h
  | unregister key _ ih =>
      intro name t' h
      simp only [Directory.unregister, NameMap.get?_erase] at h ⊢
      split at h
      · cases h
      · rename_i hname
        rw [if_neg hname]
        exact ih name t' h

end Directory

namespace Node

variable {child : Node}

/-- What a child gives has a recorded owner, and it is the one that signed. -/
theorem Gives.signed {name : String} {owner : NodeId} {t : Table} (h : child.Gives name owner t)
    (signed : child.directory.Signed) :
    child.directory.owners.get? name = some owner ∧ t.SignedBy owner := by
  obtain ⟨holds, rfl⟩ := h
  obtain ⟨o, recorded, hsigned⟩ := signed name t holds
  rw [recorded]
  exact ⟨rfl, hsigned⟩

/-- The handle of a child, its default owner, never shows in what a refresh takes over. -/
theorem absorb_with_id (signed : child.directory.Signed) (n : Node) (id : NodeId) :
    n.absorb { child with id } = n.absorb child := by
  unfold absorb
  congr 1
  funext n name
  cases holds : child.directory.tables.get? name with
  | none => rfl
  | some t =>
      obtain ⟨o, recorded, -⟩ := signed name t holds
      simp only [recorded, Option.getD_some]

/-- Nor does it show in what an attachment takes over. -/
theorem mergeChild_with_id (signed : child.directory.Signed) (n : Node) (id : NodeId) :
    n.mergeChild { child with id } = n.mergeChild child := by
  unfold mergeChild
  refine List.foldl_ext _ _ n fun n entry hentry => ?_
  obtain ⟨o, recorded, -⟩ := signed entry.1 entry.2 (NameMap.get?_eq_some_iff.mpr hentry)
  simp only [recorded, Option.getD_some]

end Node

namespace Catalog

variable {c d : Catalog}

/-- Every node has a directory of signed tables. -/
def Signed (c : Catalog) : Prop :=
  ∀ id n, c.node? id = some n → n.directory.Signed

theorem Signed.of_offers (hc : c.Signed) (sound : c.Sound) {id owner : NodeId} {name : String}
    {t : Table} (offer : c.Offers id name owner t) : t.SignedBy owner := by
  cases offer with
  | @added n t found => exact sound.ids id n found ▸ n.claim_signed t
  | @loaded other n listed t found same => exact same ▸ n.adopt_signed listed t
  | @taken child m n key name owner t found listed below gives =>
      exact (gives.signed (hc child n below)).2

theorem Attached.signed {parent child : NodeId} {m n : Node} (h : Attached c parent child m n d)
    (hc : c.Signed) : d.Signed := by
  intro id k' found
  obtain ⟨k, hk, edits⟩ := h.edits found
  refine edits.signed (fun name owner t offer => ?_) (hc id k hk)
  exact (offer.2.signed (hc child n h.child_found)).2

theorem Step.signed (h : Step c d) (sound : c.Sound) (hc : c.Signed) : d.Signed := by
  cases h with
  | touch h =>
      intro id k' found
      obtain ⟨k, hk, edits⟩ := h.edits found
      exact edits.signed (fun _ _ _ offer => hc.of_offers sound offer) (hc id k hk)
  | create name config source =>
      intro id k found
      rcases node?_insertNode found with old | ⟨-, -, -, -, hempty⟩
      · exact hc id k old
      · rw [hempty]
        exact Directory.signed_empty
  | place new accepted =>
      obtain ⟨m, n, attached⟩ := attached_of_ok accepted
      exact attached.signed hc

theorem Steps.signed (h : Steps c d) (sound : c.Sound) (hc : c.Signed) : d.Signed :=
  (h.keep (I := fun c => c.Sound ∧ c.Signed)
    (fun hstep hc => ⟨hstep.sound hc.1, hstep.signed hc.1 hc.2⟩) ⟨sound, hc⟩).2

end Catalog

namespace Run

variable {σ : Type} {r : Run σ} {f : Federation σ}

theorem signed (h : r.Visits f) : f.catalog.Signed := by
  refine (invariant (I := fun c => c.Sound ∧ c.Signed) ?_ ?_ ?_ h).2
  · intro window
    refine ⟨.empty window, fun id n found => ?_⟩
    cases found
  · intro c d hstep hc
    exact ⟨hstep.sound hc.1, hstep.signed hc.1 hc.2⟩
  · intro c d p q m n attached hc
    exact ⟨hc.1.attached attached, attached.signed hc.2⟩

/-- In every state of a run, and in every state that steps lead to from there, each name that a node
lists has a recorded owner and a table that names this owner and has the hash of its own name.
Whoever takes over what the node sees takes over the same whatever default owner it assumes. -/
theorem tables_signed (visited : r.Visits f) {d : Catalog} (steps : Catalog.Steps f.catalog d)
    {n : Node} (created : n ∈ d.nodes) :
    (∀ name ∈ n.directory.names, ∃ owner t, n.directory.owners.get? name = some owner ∧
      n.directory.tables.get? name = some t ∧ t.schema = some owner ∧
        t.id = NameHash.ofName t.name) ∧
    ∀ (m : Node) (assumed : NodeId), m.absorb { n with id := assumed } = m.absorb n ∧
      m.mergeChild { n with id := assumed } = m.mergeChild n := by
  obtain ⟨i, hi⟩ := List.mem_iff_getElem?.mp created
  have signed : n.directory.Signed :=
    steps.signed (Run.sound visited) (Run.signed visited) ⟨i⟩ n hi
  have aligned : n.directory.Aligned :=
    steps.keep Catalog.Step.aligned (Run.aligned visited) ⟨i⟩ n hi
  refine ⟨fun name hname => ?_, fun m assumed =>
    ⟨Node.absorb_with_id signed m assumed, Node.mergeChild_with_id signed m assumed⟩⟩
  obtain ⟨t, holds⟩ := Option.isSome_iff_exists.mp ((aligned.defined name).mp hname)
  obtain ⟨owner, recorded, hsigned⟩ := signed name t holds
  exact ⟨owner, t, recorded, holds, hsigned.schema, hsigned.id⟩

/-- Three nodes in a row. The top takes over one table of the lowest by the attachments and one of
the middle by a refresh. -/
def stacked : Run Unit where
  backend := silent
  sources := ()
  operations := [.create "p" none, .create "o" none, .create "d" none, .addTable ⟨2⟩ (.new "T"),
    .attach ⟨1⟩ ⟨2⟩, .attach ⟨0⟩ ⟨1⟩, .addTable ⟨1⟩ (.new "u"), .refresh ⟨0, 0⟩ ⟨0⟩]

/-- A table of its own shadows the copy that the top has of the lowest node's. -/
theorem tables_signed_stacked : ∃ f n, stacked.Visits f ∧
    Catalog.Steps f.catalog (f.catalog.addTable ⟨0⟩ (.new "t")) ∧
    n ∈ (f.catalog.addTable ⟨0⟩ (.new "t")).nodes ∧ n.directory.names = ["t", "u"] ∧
    (∀ name ∈ n.directory.names, ∃ owner t, n.directory.owners.get? name = some owner ∧
      n.directory.tables.get? name = some t ∧ t.schema = some owner ∧
        t.id = NameHash.ofName t.name) ∧
    ∀ (m : Node) (assumed : NodeId), m.absorb { n with id := assumed } = m.absorb n ∧
      m.mergeChild { n with id := assumed } = m.mergeChild n := by
  have computed : ((stacked.after stacked.operations).map fun f =>
      ((f.catalog.addTable ⟨0⟩ (.new "t")).node? ⟨0⟩).map (·.directory.names)) =
      some (some ["t", "u"]) := by
    decide +kernel
  obtain ⟨f, hf, hfound⟩ := Option.map_eq_some_iff.mp computed
  obtain ⟨n, hn, hnames⟩ := Option.map_eq_some_iff.mp hfound
  have visited : stacked.Visits f := ⟨_, List.prefix_rfl, hf⟩
  have steps : Catalog.Steps f.catalog (f.catalog.addTable ⟨0⟩ (.new "t")) :=
    .single (.touch (.addTable ⟨0⟩ (.new "t")))
  have created : n ∈ (f.catalog.addTable ⟨0⟩ (.new "t")).nodes := List.mem_of_getElem? hn
  exact ⟨f, n, visited, steps, created, hnames, tables_signed visited steps created⟩

end Run

end SchemaCatalog
