import SchemaCatalog.Proofs.Catalog.Cycle

/-!
When links to parents and links to children mirror each other. The two are written by the same
attachment, but each write may replace what an earlier one left: a child that moves keeps its place
in the map of its old parent, and a child of the same name takes the place of another.
-/

namespace SchemaCatalog

open Relation (ReflTransGen)
open Catalog (Step Attached)

namespace Catalog

variable {c d : Catalog}

/-- A live node names another as its parent exactly when that node lists it under its name. -/
def Mirrored (c : Catalog) : Prop :=
  ∀ p q m n, c.get p = .ok m → c.get q = .ok n →
    (n.parent = some p ↔ m.children.get? n.name = some q)

/-- No two live children of a node have the same name. -/
def SiblingsDistinct (c : Catalog) : Prop :=
  ∀ q₁ q₂ n₁ n₂, c.get q₁ = .ok n₁ → c.get q₂ = .ok n₂ → n₁.parent.isSome →
    n₁.parent = n₂.parent → n₁.name = n₂.name → q₁ = q₂

/-- No live node is listed by two. -/
def ListedOnce (c : Catalog) : Prop :=
  ∀ p₁ p₂ q m₁ m₂ name₁ name₂, c.get p₁ = .ok m₁ → c.get p₂ = .ok m₂ → c.isLive q →
    m₁.children.get? name₁ = some q → m₂.children.get? name₂ = some q → p₁ = p₂

/-! ### What holds after any attachments -/

/-- Children are listed under their names, and where a node has a parent, that parent lists some
node under its name. -/
structure Registered (c : Catalog) : Prop where
  keyed : ∀ p m name q, c.node? p = some m → m.children.get? name = some q →
    ∃ n, c.node? q = some n ∧ n.name = name
  covered : ∀ q n p, c.node? q = some n → n.parent = some p →
    ∃ m x, c.node? p = some m ∧ m.children.get? n.name = some x

namespace Registered

theorem empty (window : Millis) : Registered { window } := by
  refine ⟨?_, ?_⟩
  · intro p m name q found
    cases found
  · intro q n p found
    cases found

theorem touch (hc : c.Registered) (h : Touch c d) : d.Registered := by
  have same := h.bareNodes
  refine ⟨?_, ?_⟩
  · intro p m' name q hm' hq
    obtain ⟨m, hm, hmbare⟩ := node?_of_bareNodes same hm'
    obtain ⟨n, hn, hname⟩ := hc.keyed p m name q hm (Node.children_eq_of_bare hmbare ▸ hq)
    obtain ⟨n', hn', hnbare⟩ := node?_of_bareNodes same.symm hn
    exact ⟨n', hn', (Node.name_eq_of_bare hnbare).trans hname⟩
  · intro q n' p hn' hp
    obtain ⟨n, hn, hnbare⟩ := node?_of_bareNodes same hn'
    obtain ⟨m, x, hm, hx⟩ := hc.covered q n p hn (Node.parent_eq_of_bare hnbare ▸ hp)
    obtain ⟨m', hm', hmbare⟩ := node?_of_bareNodes same.symm hm
    refine ⟨m', x, hm', ?_⟩
    rw [Node.children_eq_of_bare hmbare, ← Node.name_eq_of_bare hnbare]
    exact hx

theorem insertNode (hc : c.Registered) (name : String) (config : Option SourceConfig)
    (source : Option SourceId) : (c.insertNode name config source).2.Registered := by
  refine ⟨?_, ?_⟩
  · intro p m key q hm hq
    rcases node?_insertNode hm with old | ⟨-, -, -, hchildren, -⟩
    · obtain ⟨n, hn, hname⟩ := hc.keyed p m key q old hq
      exact ⟨n, node?_insertNode_of_some hn, hname⟩
    · rw [hchildren] at hq
      cases hq
  · intro q n p hn hp
    rcases node?_insertNode hn with old | ⟨-, -, hparent, -⟩
    · obtain ⟨m, x, hm, hx⟩ := hc.covered q n p old hp
      exact ⟨m, x, node?_insertNode_of_some hm, hx⟩
    · rw [hparent] at hp
      cases hp

theorem attached {parent child : NodeId} {m n : Node} (hc : c.Registered)
    (h : Attached c parent child m n d) : d.Registered := by
  refine ⟨?_, ?_⟩
  · intro p k' key q hk' hq
    obtain ⟨k, hk, relinked⟩ := h.of_relinked hk'
    have old (hq : k.children.get? key = some q) : ∃ n', d.node? q = some n' ∧ n'.name = key := by
      obtain ⟨x, hx, hname⟩ := hc.keyed p k key q hk hq
      obtain ⟨x', hx', xrelinked⟩ := h.relinked hx
      exact ⟨x', hx', xrelinked.name_eq.trans hname⟩
    rw [relinked.children_eq] at hq
    split at hq
    · rw [NameMap.get?_insert] at hq
      split at hq
      · rename_i hkey
        cases hq
        obtain ⟨n', hn', nrelinked⟩ := h.relinked h.child_found
        exact ⟨n', hn', nrelinked.name_eq.trans hkey.symm⟩
      · exact old hq
    · exact old hq
  · intro q k' p hk' hp
    obtain ⟨k, hk, relinked⟩ := h.of_relinked hk'
    rw [relinked.parent_eq] at hp
    rw [relinked.name_eq]
    split at hp
    · rename_i hq
      cases hp
      rw [hq, h.child_found] at hk
      cases hk
      obtain ⟨m', hm', mrelinked⟩ := h.relinked h.parent_found
      exact ⟨m', child, hm', by rw [mrelinked.children_eq, if_pos rfl, NameMap.get?_insert_self]⟩
    · obtain ⟨s, x, hs, hx⟩ := hc.covered q k p hk hp
      obtain ⟨s', hs', srelinked⟩ := h.relinked hs
      have hkept : ∃ y, s'.children.get? k.name = some y := by
        rw [srelinked.children_eq]
        split
        · rw [NameMap.get?_insert]
          split
          · exact ⟨child, rfl⟩
          · exact ⟨x, hx⟩
        · exact ⟨x, hx⟩
      obtain ⟨y, hy⟩ := hkept
      exact ⟨s', y, hs', hy⟩

end Registered

theorem Step.registered (h : Step c d) (hc : c.Registered) : d.Registered := by
  cases h with
  | touch h => exact hc.touch h
  | create name config source => exact hc.insertNode name config source
  | place new accepted =>
      obtain ⟨m, n, attached⟩ := attached_of_ok accepted
      exact hc.attached attached

theorem Mirrored.listedOnce (h : c.Mirrored) (registered : c.Registered) : c.ListedOnce := by
  intro p₁ p₂ q m₁ m₂ name₁ name₂ live₁ live₂ live listed₁ listed₂
  obtain ⟨n, hn⟩ := isLive_iff.mp live
  have parent_of {p : NodeId} {m : Node} {name : String} (hm : c.get p = .ok m)
      (listed : m.children.get? name = some q) : n.parent = some p := by
    obtain ⟨n', hn', hname⟩ := registered.keyed p m name q (node?_of_get hm) listed
    rw [node?_of_get hn] at hn'
    cases hn'
    exact (h p q m n hm hn).mpr (hname ▸ listed)
  exact Option.some.inj ((parent_of live₁ listed₁).symm.trans (parent_of live₂ listed₂))

/-- Links that are faithful mirror each other unless siblings share a name. -/
theorem Faithful.mirrored (h : c.Faithful) (registered : c.Registered) (sound : c.Sound)
    (distinct : c.SiblingsDistinct) : c.Mirrored := by
  intro p q m n hm hn
  have hmfound := node?_of_get hm
  have hnfound := node?_of_get hn
  have parent_of {x : NodeId} {k : Node} {name : String} (hk : c.node? x = some k)
      (listed : m.children.get? name = some x) : k.parent = some p := by
    obtain ⟨k', hk', hp⟩ := h p x ⟨m, name, hmfound, listed⟩
    rw [hk] at hk'
    cases hk'
    exact hp
  constructor
  · intro hp
    obtain ⟨m', x, hm', hx⟩ := registered.covered q n p hnfound hp
    rw [hmfound] at hm'
    cases hm'
    obtain ⟨k, hk, hname⟩ := registered.keyed p m n.name x hmfound hx
    have hkparent := parent_of hk hx
    have hkget : c.get x = .ok k :=
      get_of_isLive (sound.children p m n.name x hm hx) hk
    have hsame : x = q := distinct x q k n hkget hn (by rw [hkparent]; rfl)
      (hkparent.trans hp.symm) hname
    rw [hx, hsame]
  · exact parent_of hnfound

theorem Mirrored.siblingsDistinct (h : c.Mirrored) (sound : c.Sound) : c.SiblingsDistinct := by
  intro q₁ q₂ n₁ n₂ h₁ h₂ hsome hparent hname
  obtain ⟨p, hp⟩ := Option.isSome_iff_exists.mp hsome
  obtain ⟨m, hm⟩ := isLive_iff.mp (sound.parents q₁ n₁ p h₁ hp)
  have listed₁ := (h p q₁ m n₁ hm h₁).mp hp
  have listed₂ := (h p q₂ m n₂ hm h₂).mp (hparent.symm.trans hp)
  rw [hname, listed₂] at listed₁
  exact (Option.some.inj listed₁).symm

/-- A child that moves is still listed by the parent that it leaves. -/
theorem Attached.unmoved_of_mirrored {parent child : NodeId} {m n : Node}
    (h : Attached c parent child m n d) (sound : c.Sound) (before : c.Mirrored)
    (after : d.Mirrored) : n.parent = none ∨ n.parent = some parent := by
  cases hp : n.parent with
  | none => exact .inl rfl
  | some p =>
      by_cases heq : p = parent
      · exact .inr (congrArg some heq)
      · exfalso
        have live := isLive_congr h.length h.released
        have parent_live := sound.parents child n p h.child_live hp
        obtain ⟨k, hk⟩ := isLive_iff.mp parent_live
        have listed := (before p child k n hk h.child_live).mp hp
        obtain ⟨k', hk', krelinked⟩ := h.relinked (node?_of_get hk)
        obtain ⟨n', hn', nrelinked⟩ := h.relinked h.child_found
        have hkget : d.get p = .ok k' := get_of_isLive (live p ▸ parent_live) hk'
        have hnget : d.get child = .ok n' :=
          get_of_isLive (live child ▸ isLive_of_get h.child_live) hn'
        have still : k'.children.get? n'.name = some child := by
          rw [krelinked.children_eq, if_neg heq, nrelinked.name_eq, listed]
        have hback := (after p child k' n' hkget hnget).mpr still
        rw [nrelinked.parent_eq, if_pos rfl] at hback
        exact heq (Option.some.inj hback).symm

end Catalog

namespace Run

variable {σ : Type} {r : Run σ}

theorem registered {f : Federation σ} (h : r.Visits f) : f.catalog.Registered :=
  invariant Catalog.Registered.empty Catalog.Step.registered
    (fun attached hc => hc.attached attached) h

/-- The links of all states of a run mirror each other exactly when siblings never share a name and
no attachment moves a node to another parent. In a state in which they do, no node has two that list
it. -/
theorem mirrored_iff :
    ((∀ f, r.Visits f → f.catalog.Mirrored) ↔
      (∀ f, r.Visits f → f.catalog.SiblingsDistinct) ∧ r.Unmoving) ∧
    ∀ f, r.Visits f → f.catalog.Mirrored → f.catalog.ListedOnce := by
  refine ⟨⟨?_, ?_⟩, fun f visited mirrored => mirrored.listedOnce (registered visited)⟩
  · intro h
    refine ⟨fun f visited => (h f visited).siblingsDistinct (Run.sound visited), ?_⟩
    intro f p q n hop accepted found
    obtain ⟨m, k, attached⟩ := Catalog.attached_of_ok accepted
    rw [attached.child_found] at found
    cases found
    exact attached.unmoved_of_mirrored (Run.sound hop.visits) (h f hop.visits)
      (h _ (hop.visits_next rfl))
  · rintro ⟨distinct, unmoving⟩ f visited
    exact (unmoving.faithful visited).mirrored (registered visited) (Run.sound visited)
      (distinct f visited)

/-- A node that is put below a second parent. -/
def moving : Run Unit where
  backend := silent
  sources := ()
  operations := [.create "p" none, .create "q" none, .create "c" none, .attach ⟨0⟩ ⟨2⟩,
    .attach ⟨1⟩ ⟨2⟩]

/-- The first parent keeps listing it. -/
theorem moving_not_mirrored : ∃ f, moving.Visits f ∧ ¬ f.catalog.Mirrored := by
  have computed : ((moving.after moving.operations).map fun f =>
      (f.catalog.isLive ⟨0⟩ && f.catalog.isLive ⟨2⟩,
        (f.catalog.node? ⟨0⟩).bind (·.children.get? "c"),
        (f.catalog.node? ⟨2⟩).map fun n => (n.name, n.parent))) =
      some (true, some ⟨2⟩, some ("c", some ⟨1⟩)) := by
    decide +kernel
  obtain ⟨f, hf, hfound⟩ := Option.map_eq_some_iff.mp computed
  simp only [Prod.mk.injEq, Bool.and_eq_true] at hfound
  obtain ⟨⟨hp, hc⟩, hlisted, hchild⟩ := hfound
  obtain ⟨m, hm, listed⟩ := Option.bind_eq_some_iff.mp hlisted
  obtain ⟨n, hn, hlinks⟩ := Option.map_eq_some_iff.mp hchild
  obtain ⟨hname, hparent⟩ := Prod.mk.injEq .. ▸ hlinks
  refine ⟨f, ⟨moving.operations, List.prefix_rfl, hf⟩, fun mirrored => ?_⟩
  have back := (mirrored ⟨0⟩ ⟨2⟩ m n (Catalog.get_of_isLive hp hm)
    (Catalog.get_of_isLive hc hn)).mpr (hname ▸ listed)
  rw [hparent] at back
  cases back

end Run

end SchemaCatalog
