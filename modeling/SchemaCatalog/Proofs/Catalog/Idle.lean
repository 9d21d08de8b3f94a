import SchemaCatalog.Proofs.Catalog.Discovery

/-!
Refreshes that find nothing to add. Where every listed table is known or kept out, and every node
knows what its children see, only the times of the nodes change.
-/

namespace SchemaCatalog

/-! ### Times alone -/

namespace Node

/-- The node without the time of its last refresh. -/
def undated (n : Node) : Node :=
  { n with refreshedAt := none }

variable {m n : Node}

theorem bare_eq_of_undated (h : m.undated = n.undated) : m.bare = n.bare := by
  show m.undated.bare = n.undated.bare
  rw [h]

theorem directory_eq_of_undated (h : m.undated = n.undated) : m.directory = n.directory :=
  congrArg (·.directory) h

theorem knows_eq_of_undated (h : m.undated = n.undated) : m.knows = n.knows := by
  show m.undated.knows = n.undated.knows
  rw [h]

theorem takeNew_of_known {child : Node} {name : String} (known : n.knows name) :
    takeNew child n name = n :=
  if_pos known

theorem absorb_of_known {child : Node} (known : ∀ name ∈ child.directory.names, n.knows name) :
    n.absorb child = n := by
  rw [absorb_eq]
  generalize child.directory.names = names at known
  induction names with
  | nil => rfl
  | cons name names ih =>
      rw [List.foldl_cons, takeNew_of_known (known name List.mem_cons_self)]
      exact ih fun other mem => known other (List.mem_cons_of_mem _ mem)

end Node

namespace Catalog

variable {within : NodeId → Prop} {c d e : Catalog} {id : NodeId}

/-- At most the times of some nodes have changed. -/
structure Restamped (within : NodeId → Prop) (c d : Catalog) : Prop where
  released : d.released = c.released
  inside : ∀ id, (d.node? id).map Node.undated = (c.node? id).map Node.undated
  outside : ∀ id, ¬ within id → d.node? id = c.node? id

namespace Restamped

theorem refl (c : Catalog) : Restamped within c c :=
  ⟨rfl, fun _ => rfl, fun _ _ => rfl⟩

theorem trans (h : Restamped within c d) (h' : Restamped within d e) : Restamped within c e :=
  ⟨h'.released.trans h.released, fun id => (h'.inside id).trans (h.inside id),
    fun id out => (h'.outside id out).trans (h.outside id out)⟩

theorem of_nodes (released : d.released = c.released) (nodes : ∀ id, d.node? id = c.node? id) :
    Restamped within c d :=
  ⟨released, fun id => by rw [nodes], fun id _ => nodes id⟩

theorem stamp (inside : within id) (c : Catalog) (now : Instant) :
    Restamped within c (c.modify id (·.stamp now)) := by
  refine ⟨rfl, fun z => ?_, fun z out => ?_⟩
  · by_cases same : z = id
    · subst same
      rw [node?_modify_self]
      cases c.node? z <;> rfl
    · rw [node?_modify_of_ne same]
  · refine node?_modify_of_ne ?_ _
    rintro rfl
    exact out inside

theorem node? (h : Restamped within c d) {n : Node} (found : c.node? id = some n) :
    ∃ n', d.node? id = some n' ∧ n'.undated = n.undated := by
  have same := h.inside id
  rw [found] at same
  exact Option.map_eq_some_iff.mp same

theorem node?_before (h : Restamped within c d) {n : Node} (found : d.node? id = some n) :
    ∃ n', c.node? id = some n' ∧ n.undated = n'.undated := by
  have same := h.inside id
  rw [found] at same
  obtain ⟨n', hn', heq⟩ := Option.map_eq_some_iff.mp same.symm
  exact ⟨n', hn', heq.symm⟩

theorem length (h : Restamped within c d) : d.nodes.length = c.nodes.length := by
  refine le_antisymm ?_ ?_ <;> by_contra shorter
  · have found : d.node? ⟨c.nodes.length⟩ = some d.nodes[c.nodes.length] :=
      List.getElem?_eq_getElem (Nat.lt_of_not_le shorter)
    obtain ⟨n, hn, -⟩ := h.node?_before found
    exact Nat.lt_irrefl _ (index_lt_of_node? hn)
  · have found : c.node? ⟨d.nodes.length⟩ = some c.nodes[d.nodes.length] :=
      List.getElem?_eq_getElem (Nat.lt_of_not_le shorter)
    obtain ⟨n, hn, -⟩ := h.node? found
    exact Nat.lt_irrefl _ (index_lt_of_node? hn)

theorem isLive (h : Restamped within c d) (id : NodeId) : d.isLive id = c.isLive id :=
  isLive_congr h.length h.released id

theorem lookup? (h : Restamped within c d) (id : NodeId) (name : String) :
    d.lookup? id name = c.lookup? id name := by
  cases found : c.node? id with
  | none =>
      have missing : d.node? id = none := by
        have same := h.inside id
        rw [found] at same
        exact Option.map_eq_none_iff.mp same
      rw [Catalog.lookup?, Catalog.lookup?, found, missing]
  | some n =>
      obtain ⟨n', found', same⟩ := h.node? found
      rw [lookup?_of_node? found, lookup?_of_node? found', Node.directory_eq_of_undated same]

end Restamped

end Catalog

namespace Federation

open Catalog (Restamped)

variable {σ : Type} {backend : Backend σ} {within : NodeId → Prop} {f g : Federation σ}

/-- The nodes have all that their sources and their children could add, and their sources stay as
they are when they are asked. -/
structure Sated (backend : Backend σ) (f : Federation σ) (within : NodeId → Prop) : Prop where
  own : ∀ id n, within id → f.catalog.node? id = some n → n.id = id
  children : ∀ id n name child, within id → f.catalog.node? id = some n →
    n.children.get? name = some child → within child
  listed : ∀ id n source, within id → f.catalog.node? id = some n → n.source = some source →
    ∃ names, backend.list source f.sources = ({ names }, f.sources) ∧
      ∀ listed ∈ names, n.allows (Text.lowercase listed) → n.knows (Text.lowercase listed)
  below : ∀ id n name child m, within id → f.catalog.node? id = some n →
    n.children.get? name = some child → f.catalog.node? child = some m →
    ∀ known ∈ m.directory.names, n.knows known

theorem Sated.of_restamped (h : f.Sated backend within) (sources : g.sources = f.sources)
    (same : Restamped within f.catalog g.catalog) : g.Sated backend within where
  own id n inside found := by
    obtain ⟨n', found', dated⟩ := same.node?_before found
    rw [Node.id_eq_of_bare (Node.bare_eq_of_undated dated)]
    exact h.own id n' inside found'
  children id n name child inside found hchild := by
    obtain ⟨n', found', dated⟩ := same.node?_before found
    rw [Node.children_eq_of_bare (Node.bare_eq_of_undated dated)] at hchild
    exact h.children id n' name child inside found' hchild
  listed id n source inside found hsource := by
    obtain ⟨n', found', dated⟩ := same.node?_before found
    rw [Node.source_eq_of_bare (Node.bare_eq_of_undated dated)] at hsource
    rw [Node.allows_eq_of_bare (Node.bare_eq_of_undated dated), Node.knows_eq_of_undated dated,
      sources]
    exact h.listed id n' source inside found' hsource
  below id n name child m inside found hchild below := by
    obtain ⟨n', found', dated⟩ := same.node?_before found
    obtain ⟨m', below', dated'⟩ := same.node?_before below
    rw [Node.children_eq_of_bare (Node.bare_eq_of_undated dated)] at hchild
    rw [Node.directory_eq_of_undated dated', Node.knows_eq_of_undated dated]
    exact h.below id n' name child m' inside found' hchild below'

theorem Sated.loadOwn (h : f.Sated backend within) {id : NodeId} {n : Node} (inside : within id)
    (found : f.catalog.node? id = some n) : f.loadOwn backend n = f := by
  cases hsource : n.source with
  | none => exact loadOwn_of_no_source backend hsource
  | some source =>
      obtain ⟨names, hlist, known⟩ := h.listed id n source inside found hsource
      have asked : f.listing backend source = (names, f) := by
        rw [listing, hlist]
        rfl
      rw [loadOwn_eq backend hsource, asked, h.own id n inside found]
      clear hlist asked
      induction names with
      | nil => rfl
      | cons listed names ih =>
          have passed : loadNew backend id f listed = f := by
            refine loadNew_of_passed backend ?_
            rintro ⟨m, hm, unknown, allowed⟩
            rw [found] at hm
            cases hm
            rw [known listed List.mem_cons_self allowed] at unknown
            cases unknown
          rw [List.foldl_cons, passed]
          exact ih fun other mem => known other (List.mem_cons_of_mem _ mem)

theorem Sated.absorbChild (h : f.Sated backend within) {id child : NodeId} {n : Node} {name : String}
    (inside : within id) (found : f.catalog.node? id = some n)
    (listed : n.children.get? name = some child) :
    Restamped within f.catalog (f.absorbChild id child).catalog := by
  unfold Federation.absorbChild
  split
  · rename_i m below
    refine .of_nodes rfl fun z => ?_
    show (f.catalog.modify id (·.absorb m)).node? z = _
    by_cases same : z = id
    · subst same
      rw [Catalog.node?_modify_self, found, Option.map_some,
        Node.absorb_of_known (h.below z n name child m inside found listed below)]
    · rw [Catalog.node?_modify_of_ne same]
  · exact .refl _

/-- A walk over nodes that have all there is only leaves its time. -/
theorem Sated.refreshWithin {now : Instant} {depth : Nat} {held : List NodeId}
    {f f' : Federation σ} {id : NodeId} (h : f.Sated backend within) (inside : within id)
    (walked : refreshWithin backend now depth held f id = some f') :
    f'.sources = f.sources ∧ Restamped within f.catalog f'.catalog := by
  refine refreshWithin_induction (P := fun f f' id => f.Sated backend within → within id →
    f'.sources = f.sources ∧ Restamped within f.catalog f'.catalog)
    (fun f id _ _ _ => ⟨rfl, .refl _⟩) ?_ walked h inside
  · intro walk f id n g walks found hg sated inside
    rw [sated.loadOwn inside found] at hg
    suffices h : g.sources = f.sources ∧ Restamped within f.catalog g.catalog from
      ⟨h.1, h.2.trans (.stamp inside _ now)⟩
    refine foldlM_induction (P := fun g =>
      g.sources = f.sources ∧ Restamped within f.catalog g.catalog) ?_ ⟨rfl, .refl _⟩ hg
    rintro g entry g' hentry ⟨sources, same⟩ hvisit
    have listed := NameMap.get?_eq_some_iff.mpr hentry
    cases alive : g.catalog.get entry.2 with
    | error e =>
        rw [visitChild_of_error alive] at hvisit
        cases hvisit
        exact ⟨sources, same.trans (.of_nodes rfl fun _ => rfl)⟩
    | ok k =>
        rw [visitChild_of_live alive] at hvisit
        obtain ⟨g₂, hwalk, rfl⟩ := Option.map_eq_some_iff.mp hvisit
        obtain ⟨sources₂, same₂⟩ := (walks g g₂ entry.2 hwalk).2
          (sated.of_restamped sources same) (sated.children id n _ _ inside found listed)
        have sated₂ := sated.of_restamped (sources₂.trans sources) (same.trans same₂)
        obtain ⟨n', found', dated⟩ := (same.trans same₂).node? found
        rw [← Node.children_eq_of_bare (Node.bare_eq_of_undated dated)] at listed
        rw [sources_absorbChild]
        exact ⟨sources₂.trans sources,
          (same.trans same₂).trans (sated₂.absorbChild inside found' listed)⟩

theorem Sated.refresh (h : f.Sated backend within) {id : NodeId} (inside : within id)
    (live : f.catalog.isLive id) (acyclic : f.catalog.AcyclicBelow id) (now : Instant) :
    ∃ f', f.refresh backend now id = some (.ok (), f') ∧ f'.sources = f.sources ∧
      Restamped within f.catalog f'.catalog := by
  obtain ⟨answer, f', hrefresh⟩ := exists_refresh backend now acyclic
  obtain rfl := answer_of_live live hrefresh
  refine ⟨f', hrefresh, ?_⟩
  obtain ⟨n, hn⟩ := Catalog.isLive_iff.mp live
  rw [Federation.refresh, hn] at hrefresh
  obtain ⟨g, walked, heq⟩ := Option.map_eq_some_iff.mp hrefresh
  cases heq
  exact h.refreshWithin inside walked

theorem refresh_childless (now : Instant) {id : NodeId} {n : Node}
    (live : f.catalog.get id = .ok n) (childless : n.children = ∅) :
    f.refresh backend now id =
      some (.ok (), (f.loadOwn backend n).modify id (·.stamp now)) := by
  have found := Catalog.node?_of_get live
  obtain ⟨depth, hdepth⟩ := Nat.exists_eq_add_one_of_ne_zero
    (Nat.ne_zero_of_lt (Catalog.index_lt_of_node? found))
  have none_held : ([] : List NodeId).contains id = false := rfl
  rw [Federation.refresh, live, hdepth]
  simp only [Federation.refreshWithin, none_held, found, childless]
  rfl

end Federation

end SchemaCatalog
