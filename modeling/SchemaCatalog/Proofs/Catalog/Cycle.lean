import SchemaCatalog.Proofs.Catalog.Waiting

/-!
When a run can close a cycle of child links. The check of an attachment follows the links to
parents, so it fails to see a way down that these links do not retrace. A node that is attached a
second time leaves such a way behind, because the node that lists it keeps listing it.
-/

namespace SchemaCatalog

open Relation (ReflTransGen TransGen)
open Catalog (Step Steps Attached Touch)

variable {σ : Type}

/-! ### Nodes that are listed by their parents only -/

namespace Catalog

variable {c d : Catalog}

/-- Every child that a node lists names that node as its parent. -/
def Faithful (c : Catalog) : Prop :=
  ∀ p q, c.Lists p q → c.Under q p

namespace Faithful

theorem under_of_lists (h : c.Faithful) {p q : NodeId} (hway : ReflTransGen c.Lists p q) :
    ReflTransGen c.Under q p := by
  induction hway with
  | refl => exact .refl
  | tail _ hpq ih => exact .head (h _ _ hpq) ih

theorem empty (window : Millis) : Faithful { window } := by
  rintro p q ⟨n, name, found, -⟩
  cases found

/-- An attachment that does not move its child leaves no other node that lists it. -/
theorem attached {parent child : NodeId} {m n : Node} (hc : c.Faithful)
    (h : Attached c parent child m n d) (unmoved : n.parent = none ∨ n.parent = some parent) :
    d.Faithful := by
  have kept {p q : NodeId} (hq : c.Under q p) : d.Under q p := by
    rw [h.under_iff]
    split
    · rename_i hchild
      obtain ⟨k, hk, hp⟩ := hq
      rw [hchild, h.child_found] at hk
      cases hk
      rcases unmoved with hnone | hsome
      · rw [hnone] at hp
        cases hp
      · rw [hsome] at hp
        exact (Option.some.inj hp).symm
    · exact hq
  intro p q hlists
  by_cases hp : p = parent
  · subst hp
    rcases h.lists_parent hlists with rfl | hold
    · rw [h.under_iff, if_pos rfl]
    · exact kept (hc p q hold)
  · exact kept (hc p q ((h.lists_of_ne hp).mp hlists))

end Faithful

theorem Step.faithful (h : Step c d) (hc : c.Faithful) : d.Faithful := by
  cases h with
  | touch h =>
      unfold Faithful
      rwa [lists_of_bareNodes h.bareNodes, under_of_bareNodes h.bareNodes]
  | create name config source =>
      unfold Faithful
      rwa [lists_insertNode, under_insertNode]
  | place new accepted =>
      obtain ⟨m, n, attached⟩ := attached_of_ok accepted
      obtain ⟨k, hk, hparent, -⟩ := new
      rw [attached.child_found] at hk
      cases hk
      exact hc.attached attached (.inl hparent)

end Catalog

/-! ### Runs without cycles -/

namespace Run

variable {r : Run σ}

/-- The law of child links: they form no cycle in any state of the run, so that every refresh and
every other operation ends, and an attachment of live nodes that would close one is refused. -/
structure Orderly (r : Run σ) : Prop where
  acyclic : ∀ f, r.Visits f → f.catalog.Acyclic
  refreshes : ∀ f now id, r.Visits f → ∃ answer f', f.refresh r.backend now id = some (answer, f')
  ends : ∀ f (op : Operation σ), r.Visits f → ∃ f', op.perform r.backend f = some f'
  refused : ∀ f p q m n, r.Performs f (.attach p q) → f.catalog.get p = .ok m →
    f.catalog.get q = .ok n → ReflTransGen f.catalog.Lists q p →
      (f.catalog.attach p q).1 = .error (.ownDescendant n.name m.name)

/-- Wherever an attachment would close a cycle, the child is the parent or an ancestor of it. -/
def Retraced (r : Run σ) : Prop :=
  ∀ f p q, r.Performs f (.attach p q) → f.catalog.isLive p → f.catalog.isLive q →
    ReflTransGen f.catalog.Lists q p → ReflTransGen f.catalog.Under p q

theorem acyclic_of_retraced (h : r.Retraced) {f : Federation σ} (visited : r.Visits f) :
    f.catalog.Acyclic := by
  refine visits_induction (P := fun f => f.catalog.Acyclic) ?_ ?_ visited
  · intro id hway
    obtain ⟨q, ⟨n, name, found, -⟩, -⟩ := TransGen.head'_iff.mp hway
    cases found
  · intro f op f' hop hnext acyclic
    rcases Operation.perform_cases hnext with ⟨p, q, m, n, ⟨rfl, -⟩, attached⟩ | ⟨steps, -⟩
    · refine (attached.acyclic_iff acyclic).mpr fun hway => attached.not_above ?_
      exact h f p q hop (Catalog.isLive_of_get attached.parent_live)
        (Catalog.isLive_of_get attached.child_live) hway
    · exact steps.acyclic acyclic

/-- The law of child links holds in a run exactly when the links to parents retrace every way down
that an attachment of the run would close to a cycle. -/
theorem orderly_iff_retraced : r.Orderly ↔ r.Retraced := by
  constructor
  · intro h f p q hop hp hq hway
    have sound := Run.sound hop.visits
    obtain ⟨m, hm⟩ := Catalog.isLive_iff.mp hp
    obtain ⟨n, hn⟩ := Catalog.isLive_iff.mp hq
    by_contra hnot
    have accepted := (sound.attach_answer hm hn).2 hnot
    rw [h.refused f p q m n hop hm hn hway] at accepted
    cases accepted
  · intro h
    refine ⟨fun f => acyclic_of_retraced h, ?_, ?_, ?_⟩
    · intro f now id visited
      exact Federation.exists_refresh r.backend now ((acyclic_of_retraced h visited).below id)
    · intro f op visited
      exact op.exists_perform r.backend (acyclic_of_retraced h visited)
    · intro f p q m n hop hm hn hway
      have retraced := h f p q hop (Catalog.isLive_of_get hm) (Catalog.isLive_of_get hn)
        hway
      exact ((Run.sound hop.visits).attach_answer hm hn).1 retraced

/-- Three nodes, of which the second is put below the third while the first still lists it. -/
def crossing : Run Unit where
  backend := silent
  sources := ()
  operations := [.create "a" none, .create "b" none, .create "c" none, .attach ⟨0⟩ ⟨1⟩,
    .attach ⟨2⟩ ⟨1⟩, .attach ⟨1⟩ ⟨0⟩]

/-- The last attachment is carried out, and a refresh of the first node never ends. -/
theorem crossing_closes_cycle : ∃ f, crossing.Visits f ∧ ¬ f.catalog.Acyclic ∧
    f.refresh silent ⟨0, 0⟩ ⟨0⟩ = none := by
  have computed : ((crossing.after crossing.operations).map fun f =>
      (f.catalog.isLive ⟨0⟩, (f.catalog.node? ⟨0⟩).bind (·.children.get? "b"),
        (f.catalog.node? ⟨1⟩).bind (·.children.get? "a"))) = some (true, some ⟨1⟩, some ⟨0⟩) := by
    decide +kernel
  obtain ⟨f, hf, hfound⟩ := Option.map_eq_some_iff.mp computed
  simp only [Prod.mk.injEq] at hfound
  obtain ⟨live, hb, ha⟩ := hfound
  obtain ⟨m, hm, hmb⟩ := Option.bind_eq_some_iff.mp hb
  obtain ⟨n, hn, hna⟩ := Option.bind_eq_some_iff.mp ha
  have down : f.catalog.Lists ⟨0⟩ ⟨1⟩ := ⟨m, "b", hm, hmb⟩
  have up : f.catalog.Lists ⟨1⟩ ⟨0⟩ := ⟨n, "a", hn, hna⟩
  have cycle : TransGen f.catalog.Lists ⟨0⟩ ⟨0⟩ := (TransGen.single down).tail up
  have visited : crossing.Visits f := ⟨crossing.operations, List.prefix_rfl, hf⟩
  have steady : silent.Steady := fun _ _ => rfl
  refine ⟨f, visited, fun acyclic => acyclic ⟨0⟩ cycle, ?_⟩
  exact (Federation.refresh_eq_none_iff steady _ (Run.sound visited) live).mpr
    fun acyclic => acyclic ⟨0⟩ .refl cycle

/-- Every attachment that the run carries out puts its child where it is already, or gives it its
first parent. -/
def Unmoving (r : Run σ) : Prop :=
  ∀ f p q n, r.Performs f (.attach p q) → (f.catalog.attach p q).1 = .ok () →
    f.catalog.node? q = some n → n.parent = none ∨ n.parent = some p

theorem Unmoving.faithful (h : r.Unmoving) {f : Federation σ} (visited : r.Visits f) :
    f.catalog.Faithful := by
  refine visits_induction (P := fun f => f.catalog.Faithful) (.empty r.window) ?_ visited
  intro f op f' hop hnext faithful
  rcases Operation.perform_cases hnext with ⟨p, q, m, n, ⟨rfl, accepted⟩, attached⟩ | ⟨steps, -⟩
  · refine faithful.attached attached (h f p q n hop accepted ?_)
    exact attached.child_found
  · exact steps.keep Catalog.Step.faithful faithful

/-- Where no node is moved to another parent, every way down is retraced. -/
theorem Unmoving.retraced (h : r.Unmoving) : r.Retraced :=
  fun _ _ _ hop _ _ hway => (h.faithful hop.visits).under_of_lists hway

end Run

end SchemaCatalog
