import SchemaCatalog.Proofs.Catalog.Copies

/-!
Catalogs of which all attachments are made by the builders: by commands, and by what makes schemas
out of a configuration. These attach a node once, before it has any links, so that the nodes form a
forest, and a drop leaves no copy of the entry behind.
-/

namespace SchemaCatalog

open Relation (TransGen)

namespace Catalog

variable {c d : Catalog} {name : String}

/-! ### What steps make of an empty catalog -/

/-- What holds of all catalogs that steps make of an empty one. -/
structure Grown (c : Catalog) : Prop where
  sound : c.Sound
  aligned : c.Aligned
  signed : c.Signed
  faithful : c.Faithful
  acyclic : c.Acyclic
  housed : c.Housed

theorem grown_empty (window : Millis) : Grown { window } := by
  have none_found (id : NodeId) : ({ window } : Catalog).node? id = none := rfl
  refine ⟨.empty window, aligned_empty window, ?_, .empty window, ?_, ⟨?_, ?_⟩⟩
  · intro id n found
    cases found
  · intro id hway
    obtain ⟨q, ⟨n, name, found, -⟩, -⟩ := TransGen.head'_iff.mp hway
    cases found
  all_goals
    rintro id name owner ⟨n, found, -⟩
    cases found

theorem Step.grown (h : Step c d) (hc : c.Grown) : d.Grown where
  sound := h.sound hc.sound
  aligned := h.aligned hc.aligned
  signed := h.signed hc.sound hc.signed
  faithful := h.faithful hc.faithful
  acyclic := h.acyclic hc.acyclic
  housed := h.housed hc.aligned hc.signed hc.faithful hc.housed

/-! ### Nodes are attached once -/

/-- Child links lead from no node back to itself, and from at most one node to another. -/
structure Forest (c : Catalog) : Prop where
  acyclic : c.Acyclic
  lister_unique : ∀ p₁ p₂ q, c.Lists p₁ q → c.Lists p₂ q → p₁ = p₂

theorem under_unique {q p₁ p₂ : NodeId} (h₁ : c.Under q p₁) (h₂ : c.Under q p₂) : p₁ = p₂ := by
  obtain ⟨n₁, hn₁, hp₁⟩ := h₁
  obtain ⟨n₂, hn₂, hp₂⟩ := h₂
  rw [hn₁] at hn₂
  cases hn₂
  exact Option.some.inj (hp₁.symm.trans hp₂)

theorem Grown.forest (h : c.Grown) : c.Forest where
  acyclic := h.acyclic
  lister_unique _ _ _ h₁ h₂ := under_unique (h.faithful _ _ h₁) (h.faithful _ _ h₂)

/-- The attachments, last one first, on a way from one catalog to another. All that happens beside
them leaves links as they are or creates a node. -/
inductive Attaching (c : Catalog) : List (NodeId × NodeId) → Catalog → Prop where
  | refl : Attaching c [] c
  | touch {links : List (NodeId × NodeId)} {d e : Catalog} (h : Attaching c links d)
      (next : Touch d e) : Attaching c links e
  | create {links : List (NodeId × NodeId)} {d : Catalog} (h : Attaching c links d) (name : String)
      (config : Option SourceConfig) (source : Option SourceId) :
      Attaching c links (d.insertNode name config source).2
  | attach {links : List (NodeId × NodeId)} {d : Catalog} {parent child : NodeId}
      (h : Attaching c links d) (accepted : (d.attach parent child).1 = .ok ()) :
      Attaching c ((parent, child) :: links) (d.attach parent child).2

/-- On the way from one catalog to another each node is attached at most once, and only if it had no
parent. All attachments are reported, and the links to parents that they make are the only new
ones. -/
structure AttachedOnce (c : Catalog) (links : List (NodeId × NodeId)) (d : Catalog) : Prop where
  way : Attaching c links d
  reported : d.attachments = c.attachments + links.length
  distinct : (links.map (·.2)).Nodup
  new : ∀ p q, (p, q) ∈ links → ∀ other, ¬ c.Under q other
  under : ∀ p q, d.Under q p ↔ c.Under q p ∨ (p, q) ∈ links

theorem Step.attachedOnce {links : List (NodeId × NodeId)} {e : Catalog}
    (h : AttachedOnce c links d) (hstep : Step d e) : ∃ links', AttachedOnce c links' e := by
  cases hstep with
  | touch hstep =>
      refine ⟨links, h.way.touch hstep, hstep.attachments.trans h.reported, h.distinct, h.new, ?_⟩
      rw [under_of_bareNodes hstep.bareNodes]
      exact h.under
  | create name config source =>
      refine ⟨links, h.way.create name config source,
        (attachments_insertNode d name config source).trans h.reported, h.distinct, h.new, ?_⟩
      rw [under_insertNode]
      exact h.under
  | @place parent child new accepted =>
      obtain ⟨m, n, attached⟩ := attached_of_ok accepted
      obtain ⟨k, hk, hparent, -⟩ := new
      have orphan (p : NodeId) : ¬ d.Under child p := by
        rintro ⟨k', hk', hp⟩
        rw [hk] at hk'
        cases hk'
        rw [hparent] at hp
        cases hp
      refine ⟨(parent, child) :: links, h.way.attach accepted, ?_, ?_, ?_, ?_⟩
      · rw [attachments_attach_of_ok accepted, h.reported, List.length_cons, Nat.add_assoc]
      · rw [List.map_cons, List.nodup_cons]
        refine ⟨fun mem => ?_, h.distinct⟩
        obtain ⟨⟨p, q⟩, hlink, rfl⟩ := List.mem_map.mp mem
        exact orphan p ((h.under p q).mpr (.inr hlink))
      · intro p q hlink other hunder
        rcases List.mem_cons.mp hlink with heq | hlink
        · cases heq
          exact orphan other ((h.under other child).mpr (.inl hunder))
        · exact h.new p q hlink other hunder
      · intro p q
        rw [attached.under_iff, List.mem_cons, Prod.mk.injEq]
        split
        · rename_i hq
          subst hq
          constructor
          · rintro rfl
            exact .inr (.inl ⟨rfl, rfl⟩)
          · rintro (old | ⟨rfl, -⟩ | hlink)
            · exact absurd ((h.under p q).mpr (.inl old)) (orphan p)
            · rfl
            · exact absurd ((h.under p q).mpr (.inr hlink)) (orphan p)
        · rename_i hq
          rw [h.under]
          simp [hq]

theorem Steps.attachedOnce (h : Steps c d) : ∃ links, AttachedOnce c links d := by
  induction h with
  | refl => exact ⟨[], .refl, rfl, .nil, by simp, by simp⟩
  | tail _ hstep ih =>
      obtain ⟨links, hlinks⟩ := ih
      exact hstep.attachedOnce hlinks

/-! ### Drops reach every copy -/

/-- An entry is gone from all nodes that had it from this owner, and nothing else has changed. -/
structure Forgets (c d : Catalog) (name : String) (owner : NodeId) : Prop where
  length : d.nodes.length = c.nodes.length
  gone : ∀ id, ¬ d.Records id name owner
  others : ∀ id n, c.node? id = some n → n.directory.owners.get? name ≠ some owner →
    d.node? id = some n
  rest : ∀ id n n' key, c.node? id = some n → d.node? id = some n' → key ≠ name →
    n'.bare = n.bare ∧ (key ∈ n'.directory.names ↔ key ∈ n.directory.names) ∧
      n'.directory.owners.get? key = n.directory.owners.get? key ∧
      n'.directory.tables.get? key = n.directory.tables.get? key

/-- A drop of a name that a live node lists succeeds, and no copy of the owner's entry is left. -/
theorem Grown.drop (h : c.Grown) {id : NodeId} {n : Node} (live : c.get id = .ok n)
    (listed : Text.lowercase name ∈ n.directory.names) :
    ∃ owner t, n.directory.owners.get? (Text.lowercase name) = some owner ∧
      (c.drop id name).1 = .ok t ∧ Forgets c (c.drop id name).2 (Text.lowercase name) owner := by
  have seen := node?_of_get live
  have owners : n.directory.owners.contains (Text.lowercase name) :=
    ((h.aligned id n seen).owned _).mp listed
  obtain ⟨owner, recorded⟩ := Option.isSome_iff_exists.mp owners
  obtain ⟨m, found, own⟩ := h.housed.own id _ owner ⟨n, seen, recorded⟩
  obtain ⟨t, holds⟩ := (h.aligned owner m found).defined_of_owner own
  have owned : n.ownerOf (Text.lowercase name) = some owner := by
    rw [Node.ownerOf_lowercase, recorded]
  obtain ⟨chain, above⟩ := h.sound.exists_chain live owned
  have nodes := h.housed.node?_drop live owned above
  refine ⟨owner, t, recorded, drop_of_holder live owned above found own holds, ?_, ?_, ?_, ?_⟩
  · exact length_of_bareNodes (erasures_drop c id name).bareNodes
  · intro x left
    exact ((h.housed.records_drop_iff live owned above).mp left).2 ⟨rfl, rfl⟩
  · intro x k hk hne
    rw [nodes, hk, Option.map_some, Node.release_of_ne hne]
  · intro x k k' key hk hk' hne
    rw [nodes, hk] at hk'
    cases hk'
    exact Node.release_rest (h.aligned x k hk) owner hne

end Catalog

/-! ### Runs of the builders -/

namespace Run

variable {σ : Type} {r : Run σ} {f f' : Federation σ}

/-- No attachment is made by a caller. -/
def Building (r : Run σ) : Prop :=
  ∀ parent child, Operation.attach parent child ∉ r.operations

/-- The run comes from one state to another. -/
def Leads (r : Run σ) (f f' : Federation σ) : Prop :=
  ∃ done more, done ++ more <+: r.operations ∧ r.after done = some f ∧
    r.after (done ++ more) = some f'

theorem Visits.leads (h : r.Visits f) : r.Leads r.start f := by
  obtain ⟨done, hprefix, hdone⟩ := h
  exact ⟨[], done, hprefix, rfl, hdone⟩

theorem Building.steps (building : r.Building) (h : r.Leads f f') :
    Catalog.Steps f.catalog f'.catalog := by
  obtain ⟨done, more, hprefix, hdone, hmore⟩ := h
  induction more using List.reverseRecOn generalizing f' with
  | nil =>
      rw [List.append_nil, hdone] at hmore
      cases hmore
      exact .refl
  | append_singleton more op ih =>
      rw [← List.append_assoc] at hprefix hmore
      obtain ⟨g, hg, hop⟩ := after_concat.mp hmore
      have earlier := ih ((List.prefix_append _ _).trans hprefix) hg
      have asked : op ∈ r.operations := hprefix.subset (by simp)
      refine earlier.trans (Operation.steps_of_perform (fun parent child heq => ?_) hop)
      exact building parent child (heq ▸ asked)

theorem Building.grown (building : r.Building) (visited : r.Visits f) : f.catalog.Grown :=
  (building.steps (Visits.leads visited)).keep Catalog.Step.grown (Catalog.grown_empty r.window)

/-- When attachments are made by the builders only, a node is attached at most once and child links
form a forest; the owner of every entry stands at or below it and has the entry as its own. So a
drop of a name that a live node lists succeeds and leaves no copy of the owner's entry behind,
while entries of other owners and of other names stay. -/
theorem builders_drop_completely (building : r.Building) :
    (∀ f f', r.Leads f f' → ∃ links, Catalog.AttachedOnce f.catalog links f'.catalog) ∧
    ∀ f, r.Visits f → f.catalog.Forest ∧ f.catalog.Housed ∧
      ∀ id n name, f.catalog.get id = .ok n → Text.lowercase name ∈ n.directory.names →
        ∃ owner t, n.directory.owners.get? (Text.lowercase name) = some owner ∧
          (f.catalog.drop id name).1 = .ok t ∧
          f.catalog.Forgets (f.catalog.drop id name).2 (Text.lowercase name) owner := by
  refine ⟨fun f f' leads => (building.steps leads).attachedOnce, fun f visited => ?_⟩
  have grown := building.grown visited
  exact ⟨grown.forest, grown.housed, fun id n name live listed => grown.drop live listed⟩

/-- Builds the schema of one source and puts another below that, of which the root learns a table by
a refresh. -/
def stocked : Run Unit where
  backend := silent
  sources := ()
  operations := [
    .build { factories := .ofList [("kv", fun _ world => (.ok ⟨0⟩, world))] } ⟨0, 0⟩
      { schemas := [{ name := "main", sources := ["shop"] }]
        sources := [{ name := "shop", type := "kv" }] },
    .apply ⟨0, 0⟩ (.createSchema "desk" (some "shop")),
    .apply ⟨0, 0⟩ (.addTable "desk" (.new "Till")), .refresh ⟨0, 0⟩ ⟨0⟩]

theorem stocked_building : stocked.Building := by
  intro parent child mem
  simp [stocked] at mem

/-- The root and the node between lose their copies. -/
theorem builders_drop_completely_stocked : stocked.Building ∧ ∃ f n owner t, stocked.Visits f ∧
    f.catalog.get ⟨0⟩ = .ok n ∧ (f.catalog.node? ⟨1⟩).map (·.directory.names) = some ["till"] ∧
    f.catalog.attachments = 2 ∧
    (∃ links, Catalog.AttachedOnce stocked.start.catalog links f.catalog) ∧ f.catalog.Forest ∧
    f.catalog.Housed ∧ n.directory.owners.get? (Text.lowercase "TILL") = some owner ∧
    (f.catalog.drop ⟨0⟩ "TILL").1 = .ok t ∧
    f.catalog.Forgets (f.catalog.drop ⟨0⟩ "TILL").2 (Text.lowercase "TILL") owner := by
  have computed : ((stocked.after stocked.operations).map fun f =>
      ((f.catalog.get ⟨0⟩).toOption.map fun n => decide (Text.lowercase "TILL" ∈ n.directory.names),
        (f.catalog.node? ⟨1⟩).map (·.directory.names))) = some (some true, some ["till"]) := by
    decide +kernel
  obtain ⟨f, hf, hfound⟩ := Option.map_eq_some_iff.mp computed
  obtain ⟨hroot, hbetween⟩ := Prod.mk.injEq .. ▸ hfound
  obtain ⟨n, live, hlisted⟩ := exists_ok_of_toOption hroot
  have reported : (stocked.after stocked.operations).map (·.catalog.attachments) = some 2 := by
    decide +kernel
  rw [hf, Option.map_some] at reported
  have visited : stocked.Visits f := ⟨_, List.prefix_rfl, hf⟩
  obtain ⟨attached, states⟩ := builders_drop_completely stocked_building
  obtain ⟨forest, housed, drops⟩ := states f visited
  obtain ⟨owner, t, recorded, answer, forgets⟩ :=
    drops ⟨0⟩ n "TILL" live (of_decide_eq_true hlisted)
  exact ⟨stocked_building, f, n, owner, t, visited, live, hbetween, Option.some.inj reported,
    attached stocked.start f (Visits.leads visited), forest, housed, recorded, answer, forgets⟩

end Run

end SchemaCatalog
