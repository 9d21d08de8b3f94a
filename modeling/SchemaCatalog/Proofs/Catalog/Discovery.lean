import SchemaCatalog.Proofs.Catalog.Filling

/-!
What a refresh adds. A node gets what its own source supplies, and under all other names what the
first of its children has; a table that cannot be described is in the way of no other.
-/

namespace SchemaCatalog

open Relation (ReflTransGen TransGen)

namespace Catalog

variable {answers : Answers} {c d : Catalog} {id x : NodeId} {name : String}

/-! ### Names -/

/-- The directory of the node has the name. -/
def Indexes (c : Catalog) (id : NodeId) (name : String) : Prop :=
  ∃ n, c.node? id = some n ∧ name ∈ n.directory.names

theorem isSome_lookup?_iff (aligned : c.Aligned) :
    (c.lookup? id name).isSome ↔ c.Indexes id name := by
  unfold Indexes
  cases found : c.node? id with
  | none =>
      rw [lookup?, found, Option.bind_none]
      simp
  | some n =>
      rw [lookup?_of_node? found, (aligned id n found).isSome_lookup?]
      simp

theorem lookup?_eq_none_iff (aligned : c.Aligned) :
    c.lookup? id name = none ↔ ¬ c.Indexes id name := by
  rw [← isSome_lookup?_iff aligned, Option.not_isSome_iff_eq_none]

theorem directory_eq_of_lookup? {n n' : Node} (aligned : c.Aligned) (aligned' : d.Aligned)
    (found : c.node? id = some n) (found' : d.node? id = some n')
    (same : ∀ name, d.lookup? id name = c.lookup? id name) : n'.directory = n.directory := by
  refine Directory.Aligned.ext (aligned' id n' found') (aligned id n found) fun name => ?_
  rw [← lookup?_of_node? found', ← lookup?_of_node? found, same]

/-! ### One node -/

/-- What becomes of a node that takes from some children: it keeps what it has, then comes what its
own source supplies, then what the first of the children has in the end. -/
structure Replenishes (answers : Answers) (d : Catalog) (taken : List NodeId) (n n' : Node) :
    Prop where
  names : ∀ name, name ∈ n'.directory.names ↔ name ∈ n.directory.names ∨
    answers.Supplies n name ∨ ∃ child ∈ taken, d.Indexes child name
  kept : ∀ name ∈ n.directory.names, n'.directory.lookup? name = n.directory.lookup? name
  own : ∀ name, name ∉ n.directory.names → answers.Supplies n name →
    ∃ listed t, answers.DescribedFirst n name listed t ∧
      n'.directory.lookup? name = some (n.id, n.adopt listed t)
  taken : ∀ name, name ∉ n.directory.names → ¬ answers.Supplies n name →
    name ∈ n'.directory.names → ∃ before child after, taken = before ++ child :: after ∧
      d.Indexes child name ∧ (∀ other ∈ before, ¬ d.Indexes other name) ∧
      n'.directory.lookup? name = d.lookup? child name

theorem replenishes_of_lookup? {taken : List NodeId} {n n' : Node} (aligned : d.Aligned)
    (before : n.directory.Aligned) (after : n'.directory.Aligned)
    (row : ∀ name, n'.directory.lookup? name = (n.directory.lookup? name).or
      (((answers.supply n name).map (n.id, ·)).or (taken.findSome? (d.lookup? · name)))) :
    Replenishes answers d taken n n' := by
  have unsupplied {name : String} (h : ¬ answers.Supplies n name) :
      answers.supply n name = none := by
    rwa [← Answers.isSome_supply_iff, Option.not_isSome_iff_eq_none] at h
  refine ⟨fun name => ?_, fun name held => ?_, fun name new supplied => ?_,
    fun name new none_supplied holds => ?_⟩
  · rw [← after.isSome_lookup?, row, Option.isSome_or, Option.isSome_or, Bool.or_eq_true,
      Bool.or_eq_true, before.isSome_lookup?, Option.isSome_map, Answers.isSome_supply_iff,
      List.findSome?_isSome_iff]
    simp only [isSome_lookup?_iff aligned]
  · rw [← before.isSome_lookup?, Option.isSome_iff_exists] at held
    obtain ⟨entry, hentry⟩ := held
    rw [row, hentry, Option.some_or]
  · obtain ⟨t, ht⟩ := Option.isSome_iff_exists.mp (Answers.isSome_supply_iff.mpr supplied)
    obtain ⟨listed, described, first, rfl⟩ := Answers.describedFirst_of_supply ht
    refine ⟨listed, described, first, ?_⟩
    rw [row, before.lookup?_eq_none_iff.mpr new, Option.none_or, ht, Option.map_some,
      Option.some_or]
  · obtain ⟨entry, hentry⟩ := Option.isSome_iff_exists.mp ((after.isSome_lookup? name).mpr holds)
    have found := (row name).symm.trans hentry
    rw [before.lookup?_eq_none_iff.mpr new, unsupplied none_supplied, Option.map_none,
      Option.none_or, Option.none_or] at found
    obtain ⟨earlier, child, later, rfl, hchild, passed⟩ := List.findSome?_eq_some_iff.mp found
    refine ⟨earlier, child, later, rfl, ?_, fun other hother => ?_, hentry.trans hchild.symm⟩
    · rw [← isSome_lookup?_iff aligned, hchild, Option.isSome_some]
    · exact (lookup?_eq_none_iff aligned).mp (passed other hother)

/-! ### All nodes -/

/-- What becomes of a catalog that is refreshed from `x`, when a node that the walk comes to takes
from the children `taken`. These are its first ones in order of name, and all of them unless the
catalog is shut down meanwhile. -/
structure Replenished (answers : Answers) (c d : Catalog) (x : NodeId)
    (taken : NodeId → List NodeId) : Prop where
  initial : ∀ z, taken z <+: c.childrenOf z
  all : d.isLive x → ∀ z, ReflTransGen c.Lists x z →
    Reached taken [x] z ∧ taken z = c.childrenOf z
  inside : ∀ z n, Reached taken [x] z → c.node? z = some n →
    ∃ n', d.node? z = some n' ∧ n'.bare = n.bare ∧ Replenishes answers d (taken z) n n'
  outside : ∀ z n, ¬ Reached taken [x] z → c.node? z = some n →
    ∃ n', d.node? z = some n' ∧ n'.bare = n.bare ∧ n'.directory = n.directory

variable {taken : NodeId → List NodeId}

/-- A walk that visits all children of what it comes to comes to everything below. -/
theorem Whole.reached {roots : List NodeId} (h : c.Whole roots taken) {z w : NodeId}
    (hz : Reached taken roots z) (hway : ReflTransGen c.Lists z w) : Reached taken roots w := by
  induction hway with
  | refl => exact hz
  | @tail a b _ hab ih =>
      refine ih.step ?_
      rw [h a ih]
      exact mem_childrenOf_iff.mpr hab

theorem Filled.replenished (h : Filled answers (fun _ => False) c d [x] taken) (sound : c.Sound)
    (aligned : c.Aligned) (aligned' : d.Aligned) (whole : d.isLive x → c.Whole [x] taken) :
    Replenished answers c d x taken := by
  refine ⟨h.initial, fun live z hway => ?_, fun z n hz found => ?_, fun z n hz found => ?_⟩
  · have hz := (whole live).reached (.root (List.mem_singleton.mpr rfl)) hway
    exact ⟨hz, whole live z hz⟩
  · obtain ⟨n', found', hbare⟩ := node?_of_bareNodes h.bare.symm found
    refine ⟨n', found', hbare, replenishes_of_lookup? aligned' (aligned z n found)
      (aligned' z n' found') fun name => ?_⟩
    rw [← lookup?_of_node? found', ← lookup?_of_node? found, h.inside z hz, supply_of_node? found,
      sound.ids z n found]
  · obtain ⟨n', found', hbare⟩ := node?_of_bareNodes h.bare.symm found
    exact ⟨n', found', hbare,
      directory_eq_of_lookup? aligned aligned' found found' (h.outside z hz not_false)⟩

end Catalog

namespace Federation

variable {σ : Type} {backend : Backend σ} {answers : Answers} {now : Instant} {f f' : Federation σ}
  {id : NodeId}

theorem fills_refresh (gives : backend.Gives answers) (sound : f.catalog.Sound)
    (aligned : f.catalog.Aligned) (acyclic : f.catalog.AcyclicBelow id)
    (h : f.refresh backend now id = some (.ok (), f')) : Fills answers f f' id := by
  unfold refresh at h
  split at h
  · cases h
  · rename_i n live
    obtain ⟨g, hg, heq⟩ := Option.map_eq_some_iff.mp h
    cases heq
    exact fills_refreshWithin gives sound aligned (Catalog.isLive_of_get live) acyclic hg

theorem fills_of_recorded {g : Federation (σ × List Exchange)} (sound : f.catalog.Sound)
    (aligned : f.catalog.Aligned) (acyclic : f.catalog.AcyclicBelow id)
    (h : f.recorded.refresh backend.recording now id = some (.ok (), g))
    (fits : ∀ e ∈ g.sources.2, answers.Fits e) : Fills answers f.recorded g id :=
  fills_refresh (Backend.gives_imposedOn answers backend).recording (f := f.recorded) sound aligned
    acyclic (refresh_imposed h fits)

end Federation

namespace Run

variable {σ : Type} {r : Run σ} {f : Federation σ} {x : NodeId}

/-- A refresh of a live node that leads to no cycle ends. If what is on record of the sources'
answers does not change, it adds to every node that it comes to what is listed, allowed and
described there and what the children have, and nothing else. -/
theorem refresh_replenishes (visited : r.Visits f) (live : f.catalog.isLive x)
    (acyclic : f.catalog.AcyclicBelow x) (backend : Backend σ) (now : Instant) :
    ∃ f' record, f.refresh backend now x = some (.ok (), f') ∧
      f.transcript backend now x = some record ∧
      ∀ answers : Answers, (∀ e ∈ record, answers.Fits e) →
        ∃ taken, Catalog.Replenished answers f.catalog f'.catalog x taken := by
  have sound := Run.sound visited
  have aligned := Run.aligned visited
  obtain ⟨answer, g, hg⟩ :=
    Federation.exists_refresh backend.recording now (f := f.recorded) acyclic
  obtain rfl := Federation.answer_of_live (f := f.recorded) live hg
  obtain ⟨refreshed, record⟩ := Federation.refresh_of_recorded hg
  refine ⟨_, _, refreshed, record, fun answers fits => ?_⟩
  obtain ⟨taken, filled, whole⟩ := Federation.fills_of_recorded sound aligned acyclic hg fits
  have aligned' : g.catalog.Aligned :=
    (Federation.touches_refresh backend.recording now hg).steps.keep Catalog.Step.aligned aligned
  exact ⟨taken, filled.replenished sound aligned aligned' whole⟩

/-- Three sources with tables of the same names. Of the first's two spellings of one name only the
second is described, and another table of it is not known. -/
def mixedAnswers : Answers where
  list source :=
    match source.index with
    | 0 => ["A", "Lost", "a"]
    | 1 => ["A", "T"]
    | _ => ["T", "U"]
  describe source name :=
    if source.index = 0 ∧ name = "A" then .error (.backend "locked")
    else if name = "Lost" then .ok none
    else .ok (some (.new name))

/-- A node with two children, each with a source. -/
def mixed : Run Unit where
  backend := .always mixedAnswers
  sources := ()
  operations := [.create "x" (some ⟨0⟩), .create "b" (some ⟨1⟩), .create "c" (some ⟨2⟩),
    .attach ⟨0⟩ ⟨1⟩, .attach ⟨0⟩ ⟨2⟩]

theorem mixed_ends : ∃ f, mixed.after mixed.operations = some f ∧ f.catalog.isLive ⟨0⟩ ∧
    f.catalog.AcyclicBelow ⟨0⟩ := by
  have computed : (mixed.after mixed.operations).map
      (fun f => f.catalog.isLive ⟨0⟩ && f.catalog.ascending) = some true := by
    decide +kernel
  obtain ⟨f, hf, hfound⟩ := Option.map_eq_some_iff.mp computed
  obtain ⟨live, ascending⟩ := Bool.and_eq_true .. ▸ hfound
  exact ⟨f, hf, live, (Catalog.acyclic_of_ascending ascending).below ⟨0⟩⟩

theorem refresh_replenishes_mixed : ∃ f f' taken, mixed.Visits f ∧ f.catalog.isLive ⟨0⟩ ∧
    f.catalog.AcyclicBelow ⟨0⟩ ∧ f.refresh mixed.backend ⟨0, 0⟩ ⟨0⟩ = some (.ok (), f') ∧
    Catalog.Replenished mixedAnswers f.catalog f'.catalog ⟨0⟩ taken ∧
    (f'.catalog.node? ⟨0⟩).map (·.directory.owners.entries) =
      some [("a", ⟨0⟩), ("t", ⟨1⟩), ("u", ⟨2⟩)] := by
  obtain ⟨f, hf, live, acyclic⟩ := mixed_ends
  have visited : mixed.Visits f := ⟨_, List.prefix_rfl, hf⟩
  have computed : ((mixed.after mixed.operations).bind fun f =>
      (f.refresh mixed.backend ⟨0, 0⟩ ⟨0⟩).map fun answer =>
        (answer.2.catalog.node? ⟨0⟩).map (·.directory.owners.entries)) =
      some (some [("a", ⟨0⟩), ("t", ⟨1⟩), ("u", ⟨2⟩)]) := by
    decide +kernel
  obtain ⟨f', record, refreshed, recorded, replenished⟩ :=
    refresh_replenishes visited live acyclic mixed.backend ⟨0, 0⟩
  obtain ⟨taken, replenished⟩ :=
    replenished mixedAnswers (Federation.fits_of_transcript (Backend.gives_always _) recorded)
  rw [hf, Option.bind_some, refreshed] at computed
  exact ⟨f, f', taken, visited, live, acyclic, refreshed, replenished, Option.some.inj computed⟩

/-- What the sources answer of which the first shuts the catalog down. -/
def closingAnswers : Answers where
  list source := if source.index = 0 then ["U"] else ["W"]
  describe _ name := .ok (some (.new name))

theorem closingSources_gives : closingSources.Gives closingAnswers := by
  refine ⟨fun source world => ?_, fun _ _ _ => rfl⟩
  unfold closingSources closingAnswers
  simp only
  split <;> rfl

/-- A child that has not been visited before the catalog is shut down gets nothing from its
source. -/
theorem closing_leaves_unsupplied : ∃ f f' n, closing.Visits f ∧ f.catalog.isLive ⟨0⟩ ∧
    f.catalog.AcyclicBelow ⟨0⟩ ∧ closing.backend.Gives closingAnswers ∧
    f.refresh closing.backend ⟨0, 0⟩ ⟨0⟩ = some (.ok (), f') ∧
    ReflTransGen f.catalog.Lists ⟨0⟩ ⟨2⟩ ∧ f.catalog.node? ⟨2⟩ = some n ∧
    closingAnswers.Supplies n "w" ∧ ¬ f'.catalog.Indexes ⟨2⟩ "w" := by
  have before : (closing.after closing.operations).map (fun f =>
      (f.catalog.isLive ⟨0⟩ && f.catalog.ascending,
        (f.catalog.node? ⟨0⟩).bind (·.children.get? "b"),
        (f.catalog.node? ⟨2⟩).map fun n => (n.source, n.allows "w"))) =
      some (true, some ⟨2⟩, some (some ⟨1⟩, true)) := by
    decide +kernel
  have after : ((closing.after closing.operations).bind fun f =>
      (f.refresh closing.backend ⟨0, 0⟩ ⟨0⟩).map fun answer =>
        (answer.2.catalog.node? ⟨2⟩).map (·.directory.names)) = some (some []) := by
    decide +kernel
  obtain ⟨f, hf, hfound⟩ := Option.map_eq_some_iff.mp before
  simp only [Prod.mk.injEq, Bool.and_eq_true] at hfound
  obtain ⟨⟨live, ascending⟩, hlisted, hparts⟩ := hfound
  obtain ⟨m, hm, hchild⟩ := Option.bind_eq_some_iff.mp hlisted
  obtain ⟨n, hn, hparts⟩ := Option.map_eq_some_iff.mp hparts
  obtain ⟨source, allowed⟩ := Prod.mk.injEq .. ▸ hparts
  rw [hf, Option.bind_some] at after
  obtain ⟨⟨answer, f'⟩, h, hnames⟩ := Option.map_eq_some_iff.mp after
  obtain rfl := Federation.answer_of_live live h
  refine ⟨f, f', n, ⟨_, List.prefix_rfl, hf⟩, live,
    (Catalog.acyclic_of_ascending ascending).below ⟨0⟩, closingSources_gives, h,
    .single ⟨m, "b", hm, hchild⟩, hn,
    ⟨⟨1⟩, "W", .new "W", source, List.mem_singleton.mpr rfl, by decide +kernel, allowed, rfl⟩, ?_⟩
  rintro ⟨k, hk, held⟩
  rw [hk, Option.map_some, Option.some.injEq] at hnames
  rw [hnames] at held
  cases held

end Run

end SchemaCatalog
