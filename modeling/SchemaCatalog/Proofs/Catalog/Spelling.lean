import SchemaCatalog.Proofs.Catalog.Copies
import SchemaCatalog.Proofs.Catalog.Vouched

/-!
The names under which nodes list their tables. Lookups and drops put the name they are given into
lowercase, so a table that is listed under another spelling is never found again. Names come in
lowercase from every source and from every other node; only a table that is added by hand brings
its own.
-/

namespace SchemaCatalog

open Relation (ReflTransGen)
open Catalog (Vouches)

/-! ### Names in lowercase -/

/-- Tables are listed under names in lowercase only. -/
def Directory.Lowercase (d : Directory) : Prop :=
  ∀ name t, d.tables.get? name = some t → Text.lowercase name = name

namespace Catalog

variable {c d : Catalog}

def Lowercase (c : Catalog) : Prop :=
  ∀ id n, c.node? id = some n → n.directory.Lowercase

/-! ### Owners below their entries -/

/-- An entry of which the owner stands below is taken from its node by a drop there, and one of
which the owner stands elsewhere is not. -/
theorem drop_takes_iff (sound : c.Sound) (aligned : c.Aligned) {id owner : NodeId} {n : Node}
    {name : String} (live : c.get id = .ok n) (lowercase : Text.lowercase name = name)
    (recorded : n.directory.owners.get? name = some owner) :
    (∃ n', (c.drop id name).2.node? id = some n' ∧ name ∉ n'.tables) ↔
      ReflTransGen c.Under owner id := by
  have owned : n.ownerOf (Text.lowercase name) = some owner := by
    rw [Node.ownerOf_lowercase, lowercase]
    exact recorded
  have hn := aligned id n (node?_of_get live)
  obtain ⟨chain, above⟩ := sound.exists_chain live owned
  rw [← mem_ancestors_iff above, node?_drop live owned above, node?_of_get live, lowercase]
  by_cases mem : id ∈ chain
  · simp only [mem, iff_true]
    refine ⟨n.release name owner, rfl, ?_⟩
    rw [Node.release_of_owner recorded]
    exact fun hmem => ((Directory.mem_eraseName hn.sorted).mp hmem).1 rfl
  · simp only [mem, iff_false]
    rintro ⟨n', heq, gone⟩
    cases heq
    refine gone ((hn.owned name).mpr ?_)
    rw [NameMap.contains, recorded, Option.isSome_some]

theorem overseen_empty (window : Millis) : Overseen { window } := by
  rintro id name owner ⟨n, found, -⟩
  cases found

theorem Step.overseen (h : Step c d) (signed : c.Signed) (faithful : c.Faithful)
    (hc : c.Overseen) : d.Overseen := by
  cases h with
  | touch h =>
      have links := under_of_bareNodes h.bareNodes
      refine hc.of_changes (fun x y => ?_) fun id name owner recorded => ?_
      · rw [links]
        exact id
      · rw [links]
        exact h.records_new signed faithful recorded
  | create name config source =>
      refine hc.of_changes (fun x y => ?_) fun _ _ _ h => .inl (records_of_insertNode h)
      rw [under_insertNode]
      exact id
  | place new accepted =>
      obtain ⟨m, n, attached⟩ := attached_of_ok accepted
      obtain ⟨k, hk, hparent, -⟩ := new
      rw [attached.child_found] at hk
      cases hk
      exact hc.of_changes (fun _ _ => attached.under_of_unmoved (.inl hparent))
        fun _ _ _ recorded => attached.records_new signed recorded

end Catalog

/-! ### Runs -/

variable {σ : Type}

namespace Run

variable (r : Run σ)

/-- What a node lists under a name is found under that name, with the owner recorded for it, and is
gone from the node after a drop there. What is added by hand is found under the name it carries. -/
structure Reachable : Prop where
  lowercase : ∀ f n name, r.Visits f → n ∈ f.catalog.nodes → name ∈ n.tables →
    Text.lowercase name = name
  resolved : ∀ f n name, r.Visits f → n ∈ f.catalog.nodes → name ∈ n.tables →
    ∃ owner t, n.directory.lookup? name = some (owner, t) ∧ n.table name = .ok t ∧
      n.ownerOf name = some owner
  dropped : ∀ f id n name, r.Visits f → f.catalog.get id = .ok n → name ∈ n.tables →
    ∃ n', (f.catalog.drop id name).2.node? id = some n' ∧ name ∉ n'.tables
  added : ∀ f f' op id t n, r.Performs f op → op.Adds f.catalog id t →
    op.perform r.backend f = some f' → f.catalog.node? id = some n →
      ∃ n', f'.catalog.node? id = some n' ∧ n'.table t.name = .ok (n.claim t)

/-- Every table that a caller registers has a name in lowercase. -/
def AddsLowercase : Prop :=
  ∀ f op id t, r.Performs f op → op.Adds f.catalog id t → Text.lowercase t.name = t.name

/-- Every owner that a live node records stands at the node or below it. -/
def OwnersBelow : Prop :=
  ∀ f id n name owner, r.Visits f → f.catalog.get id = .ok n →
    n.directory.owners.get? name = some owner → ReflTransGen f.catalog.Under owner id

variable {r}

/-- No operation of the catalog itself brings in a name that is not in lowercase. -/
theorem lowercase_of_added (h : r.AddsLowercase) {f : Federation σ} (visited : r.Visits f) :
    f.catalog.Lowercase := by
  have laws : Vouches r.backend fun _ name _ _ => Text.lowercase name = name :=
    ⟨fun _ lower => lower, fun _ _ _ _ => Text.lowercase_lowercase _⟩
  have vouched := Run.vouched laws (fun f op id _ t hop adds _ => h f op id t hop adds) visited
  intro id n found name t holds
  obtain ⟨owner, -, lower⟩ := vouched.of_table found holds
  exact lower

theorem registered_of_adds {f f' : Federation σ} {op : Operation σ} {id : NodeId} {t : Table}
    {n : Node} (adds : op.Adds f.catalog id t) (hnext : op.perform r.backend f = some f')
    (found : f.catalog.node? id = some n) :
    f'.catalog.node? id = some (n.register t.name id (n.claim t)) := by
  rw [node?_of_adds adds hnext found, if_pos rfl]

theorem Reachable.addsLowercase (h : r.Reachable) : r.AddsLowercase := by
  intro f op id t hop adds
  obtain ⟨f', hnext, -⟩ := Operation.exists_perform_of_adds r.backend adds
  obtain ⟨n, found⟩ := adds.exists_node (Run.sound hop.visits)
  have added := registered_of_adds adds hnext found
  have visited := hop.visits_next hnext
  refine h.lowercase f' _ t.name visited (List.mem_of_getElem? added) ?_
  exact (Directory.mem_insertName (Run.aligned hop.visits id n found).sorted).mpr (.inl rfl)

theorem Reachable.ownersBelow (h : r.Reachable) : r.OwnersBelow := by
  intro f id n name owner visited live recorded
  have found := Catalog.node?_of_get live
  have aligned := Run.aligned visited
  have listed : name ∈ n.tables := by
    refine ((aligned id n found).owned name).mpr ?_
    rw [NameMap.contains, recorded, Option.isSome_some]
  have lowercase := h.lowercase f n name visited (List.mem_of_getElem? found) listed
  exact (Catalog.drop_takes_iff (Run.sound visited) aligned live lowercase recorded).mp
    (h.dropped f id n name visited live listed)

theorem reachable_of_added (adds : r.AddsLowercase) (below : r.OwnersBelow) : r.Reachable := by
  have lowercase (f : Federation σ) (n : Node) (name : String) (visited : r.Visits f)
      (created : n ∈ f.catalog.nodes) (listed : name ∈ n.tables) :
      Text.lowercase name = name := by
    obtain ⟨i, hi⟩ := List.mem_iff_getElem?.mp created
    have defined := ((Run.aligned visited ⟨i⟩ n hi).defined name).mp listed
    obtain ⟨t, ht⟩ := Option.isSome_iff_exists.mp defined
    exact lowercase_of_added adds visited ⟨i⟩ n hi name t ht
  refine ⟨lowercase, ?_, ?_, ?_⟩
  · intro f n name visited created listed
    obtain ⟨i, hi⟩ := List.mem_iff_getElem?.mp created
    have aligned : n.directory.Aligned := Run.aligned visited ⟨i⟩ n hi
    obtain ⟨⟨owner, t⟩, entry⟩ := Option.isSome_iff_exists.mp
      ((aligned.isSome_lookup? name).mpr listed)
    obtain ⟨howner, htable⟩ := Directory.lookup?_eq_some_iff.mp entry
    have hname := lowercase f n name visited created listed
    refine ⟨owner, t, entry, ?_, ?_⟩
    · refine Node.table_of_holds ?_
      rw [hname, htable]
    · rw [Node.ownerOf, hname, howner]
  · intro f id n name visited live listed
    have found := Catalog.node?_of_get live
    have aligned := Run.aligned visited
    obtain ⟨owner, recorded⟩ := Option.isSome_iff_exists.mp
      (((aligned id n found).owned name).mp listed)
    have hname := lowercase f n name visited (List.mem_of_getElem? found) listed
    exact (Catalog.drop_takes_iff (Run.sound visited) aligned live hname recorded).mpr
      (below f id n name owner visited live recorded)
  · intro f f' op id t n hop hadds hnext found
    refine ⟨_, registered_of_adds hadds hnext found, ?_⟩
    refine Node.table_of_holds ?_
    rw [adds f op id t hop hadds]
    exact NameMap.get?_insert_self ..

theorem Unmoving.ownersBelow (h : r.Unmoving) : r.OwnersBelow := by
  intro f id n name owner visited live recorded
  suffices overseen : f.catalog.Overseen from
    overseen id name owner ⟨n, Catalog.node?_of_get live, recorded⟩
  refine visits_induction (P := fun f => f.catalog.Overseen) (Catalog.overseen_empty _) ?_ visited
  intro f op f' hop hnext overseen
  have signed := Run.signed hop.visits
  rcases Operation.perform_cases hnext with ⟨p, q, m, k, ⟨rfl, accepted⟩, attached⟩ | ⟨steps, -⟩
  · have unmoved := h f p q k hop accepted attached.child_found
    exact overseen.of_changes (fun _ _ => attached.under_of_unmoved unmoved)
      fun _ _ _ => attached.records_new signed
  · refine (steps.keep (I := fun c => c.Sound ∧ c.Signed ∧ c.Faithful ∧ c.Overseen) ?_
      ⟨Run.sound hop.visits, signed, h.faithful hop.visits, overseen⟩).2.2.2
    rintro c d hstep ⟨hsound, hsigned, hfaithful, hoverseen⟩
    exact ⟨hstep.sound hsound, hstep.signed hsound hsigned, hstep.faithful hfaithful,
      hstep.overseen hsigned hfaithful hoverseen⟩

/-- Everything that nodes list in a run can be reached exactly when all tables that callers register
have names in lowercase and all recorded owners stand below; the latter holds where no node is moved
to another parent. -/
theorem reachable_iff_lowercase_added (r : Run σ) :
    (r.Reachable ↔ r.AddsLowercase ∧ r.OwnersBelow) ∧ (r.Unmoving → r.OwnersBelow) :=
  ⟨⟨fun h => ⟨h.addsLowercase, h.ownersBelow⟩, fun h => reachable_of_added h.1 h.2⟩,
    Unmoving.ownersBelow⟩

/-- A table is added under a name that has been put into lowercase, and is copied once. -/
def labelled : Run Unit where
  backend := silent
  sources := ()
  operations := [.create "p" none, .create "c" none, .addTable ⟨1⟩ (.new "Orders"), .attach ⟨0⟩ ⟨1⟩]

theorem labelled_addsLowercase : labelled.AddsLowercase := by
  intro f op id t hop adds
  obtain ⟨i, hi, -⟩ := hop.place
  match i, hi with
  | 2, hi =>
      cases hi
      cases adds
      exact Text.lowercase_lowercase "Orders"
  | 0, hi | 1, hi | 3, hi =>
      cases hi
      cases adds

theorem labelled_unmoving : labelled.Unmoving := by
  intro f p q n hop _ found
  obtain ⟨i, hi, hdone⟩ := hop.place
  match i, hi with
  | 3, hi =>
      cases hi
      have computed : ((labelled.after (labelled.operations.take 3)).bind fun f =>
          (f.catalog.node? ⟨1⟩).map (·.parent)) = some none := by
        decide +kernel
      rw [hdone, Option.bind_some, found] at computed
      exact .inl (Option.some.inj computed)
  | 0, hi | 1, hi | 2, hi => cases hi

/-- Both nodes of the run list the table, and it is reached from either. -/
theorem reachable_iff_lowercase_added_labelled : labelled.Unmoving ∧ labelled.Reachable ∧
    ∃ f m n, labelled.Visits f ∧ f.catalog.get ⟨0⟩ = .ok m ∧ f.catalog.get ⟨1⟩ = .ok n ∧
      m.tables = ["orders"] ∧ n.tables = ["orders"] := by
  obtain ⟨exact_condition, below⟩ := reachable_iff_lowercase_added labelled
  refine ⟨labelled_unmoving,
    exact_condition.mpr ⟨labelled_addsLowercase, below labelled_unmoving⟩, ?_⟩
  have computed : ((labelled.after labelled.operations).map fun f =>
      ((f.catalog.get ⟨0⟩).toOption.map (·.tables), (f.catalog.get ⟨1⟩).toOption.map (·.tables))) =
      some (some ["orders"], some ["orders"]) := by
    decide +kernel
  obtain ⟨f, hf, hfound⟩ := Option.map_eq_some_iff.mp computed
  obtain ⟨hm, hn⟩ := Prod.mk.injEq .. ▸ hfound
  obtain ⟨m, mlive, mtables⟩ := exists_ok_of_toOption hm
  obtain ⟨n, nlive, ntables⟩ := exists_ok_of_toOption hn
  exact ⟨f, m, n, ⟨_, List.prefix_rfl, hf⟩, mlive, nlive, mtables, ntables⟩

/-- A table is renamed before it is added. -/
def mislabelled : Run Unit where
  backend := silent
  sources := ()
  operations := [.create "s" none, .addTable ⟨0⟩ { Table.new "orders" with name := "Orders" }]

/-- The node lists the table, but neither finds it nor its owner under that name, and does not give
it up. -/
theorem mislabelled_unreachable : ¬ mislabelled.Reachable ∧
    ∃ f n, mislabelled.Visits f ∧ f.catalog.get ⟨0⟩ = .ok n ∧ n.tables = ["Orders"] ∧
      Text.lowercase "Orders" ≠ "Orders" ∧ (n.table "Orders").toOption = none ∧
      n.ownerOf "Orders" = none ∧ (f.catalog.drop ⟨0⟩ "Orders").1.toOption = none ∧
      ((f.catalog.drop ⟨0⟩ "Orders").2.node? ⟨0⟩).map (·.tables) = some ["Orders"] := by
  have respelled : Text.lowercase "Orders" ≠ "Orders" := by decide +kernel
  have computed : ((mislabelled.after mislabelled.operations).bind fun f =>
      (f.catalog.get ⟨0⟩).toOption.map fun n =>
        (n.tables, (n.table "Orders").toOption.isNone, n.ownerOf "Orders",
          (f.catalog.drop ⟨0⟩ "Orders").1.toOption.isNone,
          ((f.catalog.drop ⟨0⟩ "Orders").2.node? ⟨0⟩).map (·.tables))) =
      some (["Orders"], true, none, true, some ["Orders"]) := by
    decide +kernel
  obtain ⟨f, hf, hfound⟩ := Option.bind_eq_some_iff.mp computed
  obtain ⟨n, live, hparts⟩ := exists_ok_of_toOption hfound
  simp only [Prod.mk.injEq, Option.isNone_iff_eq_none] at hparts
  obtain ⟨listed, unresolved, unowned, undropped, kept⟩ := hparts
  have visited : mislabelled.Visits f := ⟨_, List.prefix_rfl, hf⟩
  refine ⟨fun reachable => respelled ?_, f, n, visited, live, listed, respelled, unresolved,
    unowned, undropped, kept⟩
  refine reachable.lowercase f n "Orders" visited
    (List.mem_of_getElem? (Catalog.node?_of_get live)) ?_
  rw [listed]
  exact List.mem_singleton_self _

end Run

end SchemaCatalog
