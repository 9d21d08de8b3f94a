import SchemaCatalog.Proofs.Catalog.Live
import SchemaCatalog.Proofs.Catalog.Routine

/-!
What later states of a catalog share with earlier ones. Nodes are never taken out of the list, they
keep what they were created with, and a release concerns all that are there.
-/

namespace SchemaCatalog

namespace Node

/-- A node without what it has gained since it was created. -/
def origin (n : Node) : Node :=
  { n.bare with parent := none, children := ∅ }

variable {m n : Node}

theorem origin_eq_of_bare (h : m.bare = n.bare) : m.origin = n.origin := by
  rw [origin, h, origin]

theorem name_eq_of_origin (h : m.origin = n.origin) : m.name = n.name := congrArg (·.name) h

theorem config_eq_of_origin (h : m.origin = n.origin) : m.config = n.config :=
  congrArg (·.config) h

theorem source_eq_of_origin (h : m.origin = n.origin) : m.source = n.source :=
  congrArg (·.source) h

end Node

namespace Catalog

variable {c d e : Catalog}

/-- The second catalog is a later state of the first. -/
structure Later (c d : Catalog) : Prop where
  length : c.nodes.length ≤ d.nodes.length
  released : d.released = c.released ∨ c.nodes.length ≤ d.released
  kept : ∀ id n, c.node? id = some n → ∃ n', d.node? id = some n' ∧ n'.origin = n.origin

namespace Later

theorem refl (c : Catalog) : Later c c :=
  ⟨Nat.le_refl _, .inl rfl, fun _ n found => ⟨n, found, rfl⟩⟩

theorem trans (h : Later c d) (h' : Later d e) : Later c e where
  length := h.length.trans h'.length
  released := by
    rcases h'.released with same | all
    · rw [same]
      exact h.released
    · exact .inr (h.length.trans all)
  kept id n found := by
    obtain ⟨n', found', same⟩ := h.kept id n found
    obtain ⟨n'', found'', same'⟩ := h'.kept id n' found'
    exact ⟨n'', found'', same'.trans same⟩

theorem insertNode (c : Catalog) (name : String) (config : Option SourceConfig)
    (source : Option SourceId) : Later c (c.insertNode name config source).2 where
  length := by
    rw [length_insertNode]
    omega
  released := .inl rfl
  kept _ n found := ⟨n, node?_insertNode_of_some found, rfl⟩

/-- A node that was there is live later only if it was live and no node has been released since. -/
theorem released_eq (h : Later c d) {id : NodeId} (old : id.index < c.nodes.length)
    (live : d.isLive id) : d.released = c.released := by
  rcases h.released with same | all
  · exact same
  · have := (isLive_iff_lt.mp live).1
    omega

theorem isLive_of_isLive (h : Later c d) {id : NodeId} (old : id.index < c.nodes.length)
    (live : d.isLive id) : c.isLive id := by
  have same := h.released_eq old live
  have reached := (isLive_iff_lt.mp live).1
  exact isLive_iff_lt.mpr ⟨same ▸ reached, old⟩

theorem isLive_of_released_eq (h : Later c d) (same : d.released = c.released) {id : NodeId}
    (live : c.isLive id) : d.isLive id := by
  obtain ⟨reached, old⟩ := isLive_iff_lt.mp live
  exact isLive_iff_lt.mpr ⟨same ▸ reached, old.trans_le h.length⟩

end Later

theorem Later.of_bareNodes (same : d.bareNodes = c.bareNodes)
    (released : d.released = c.released ∨ d.released = c.nodes.length) : Later c d where
  length := (length_of_bareNodes same).ge
  released := released.imp_right Eq.ge
  kept id n found := by
    obtain ⟨n', found', hbare⟩ := node?_of_bareNodes same.symm found
    exact ⟨n', found', Node.origin_eq_of_bare hbare⟩

theorem Touch.later (h : Touch c d) : Later c d :=
  .of_bareNodes h.bareNodes h.released

theorem Attached.later {parent child : NodeId} {m n : Node} (h : Attached c parent child m n d) :
    Later c d where
  length := h.length.ge
  released := .inl h.released
  kept id k found := by
    rw [h.node?]
    split
    · rename_i hp
      rw [hp, h.parent_found] at found
      cases found
      have bare := Node.bare_mergeChild { m with children := m.children.insert n.name child } n
      exact ⟨_, rfl, (Node.origin_eq_of_bare bare).trans rfl⟩
    · split
      · rename_i hq
        rw [hq, h.child_found] at found
        cases found
        exact ⟨_, rfl, rfl⟩
      · exact ⟨k, found, rfl⟩

theorem Step.later (h : Step c d) : Later c d := by
  cases h with
  | touch h => exact h.later
  | create name config source => exact .insertNode c name config source
  | place new accepted =>
      obtain ⟨m, n, attached⟩ := attached_of_ok accepted
      exact attached.later

/-- An invariant of all that comes later is kept by every operation. -/
theorem Routine.of_later {σ : Type} (backend : Backend σ) {I : Catalog → Prop}
    (keeps : ∀ {c d : Catalog}, Later c d → I c → I d) : Routine backend I where
  log other := keeps (Touch.log other).later
  shutdown := keeps Touch.shutdown.later
  describe _ _ _ _ :=
    keeps (.of_bareNodes (bareNodes_modify _ _ fun n => n.bare_register _ _ _) (.inl rfl))
  absorb {c id _ _ n _} _ _ _ :=
    keeps (.of_bareNodes (bareNodes_modify c id fun k => k.bare_absorb n) (.inl rfl))
  stamp id now := keeps (.of_bareNodes (bareNodes_modify _ id fun n => n.bare_stamp now) (.inl rfl))
  drop id name := keeps (Touch.drop id name).later
  create name config source := keeps (.insertNode _ name config source)
  attach h := keeps h.later

theorem Steps.later (h : Steps c d) : Later c d := by
  induction h with
  | refl => exact .refl c
  | tail _ hstep ih => exact ih.trans hstep.later

end Catalog

end SchemaCatalog
