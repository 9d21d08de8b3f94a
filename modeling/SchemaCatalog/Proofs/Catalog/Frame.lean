import SchemaCatalog.Proofs.Catalog.Index
import SchemaCatalog.Proofs.Catalog.Live
import SchemaCatalog.Proofs.Catalog.Takeover

/-!
What a refresh leaves alone. Nodes out of its reach stay as they are; within reach it adds entries
and times, and takes nothing away.
-/

namespace SchemaCatalog

open Relation (ReflTransGen)

namespace Catalog

variable {c d e : Catalog} {within : NodeId → Prop} {id other : NodeId} {name : String}

/-! ### Entries by handle -/

/-- The entry of a name at a node. -/
def lookup? (c : Catalog) (id : NodeId) (name : String) : Option (NodeId × Table) :=
  (c.node? id).bind (·.directory.lookup? name)

theorem lookup?_of_node? {n : Node} (found : c.node? id = some n) (name : String) :
    c.lookup? id name = n.directory.lookup? name := by
  rw [lookup?, found, Option.bind_some]

theorem node?_modify_self (c : Catalog) (id : NodeId) (change : Node → Node) :
    (c.modify id change).node? id = (c.node? id).map change := by
  rw [node?_modify, if_pos rfl]

theorem node?_modify_of_ne (h : other ≠ id) (change : Node → Node) :
    (c.modify id change).node? other = c.node? other := by
  rw [node?_modify, if_neg (Ne.symm h)]

/-- The configuration of a node lets the name in. -/
def Allows (c : Catalog) (id : NodeId) (name : String) : Prop :=
  ∃ n, c.node? id = some n ∧ n.allows name = true

theorem Allows.of_bareNodes (same : d.bareNodes = c.bareNodes) (h : d.Allows id name) :
    c.Allows id name := by
  obtain ⟨n, found, allowed⟩ := h
  obtain ⟨m, hm, hbare⟩ := node?_of_bareNodes same found
  exact ⟨m, hm, by rwa [Node.allows_eq_of_bare hbare]⟩

theorem lookup?_congr (h : d.node? id = c.node? id) (name : String) :
    d.lookup? id name = c.lookup? id name := by
  rw [lookup?, h, lookup?]

/-! ### Liveness -/

theorem Touches.released (h : Touches c d) :
    d.released = c.released ∨ ∀ id, ¬ d.isLive id := by
  induction h with
  | refl => exact .inl rfl
  | @tail d e hway hstep ih =>
      have length := length_of_bareNodes hstep.bareNodes
      rcases hstep.released with kept | all
      · rcases ih with ih | dead
        · exact .inl (kept.trans ih)
        · refine .inr fun id => ?_
          rw [isLive_congr length kept]
          exact dead id
      · exact .inr (not_isLive_of_released length all)

theorem Touches.isLive (h : Touches c d) (live : d.isLive id) (other : NodeId) :
    d.isLive other = c.isLive other := by
  rcases h.released with kept | dead
  · exact isLive_congr (length_of_bareNodes h.bareNodes) kept other
  · exact absurd live (dead id)

/-! ### Steps of a refresh -/

theorem Sound.covers (sound : c.Sound) (id : NodeId) : c.Covers (ReflTransGen c.Lists id) id :=
  fun z n hway found => ⟨hway, sound.ids z n found ▸ hway⟩

theorem Sweep.node?_of_outside (h : Sweep within c d) (sound : c.Sound) (out : ¬ within id) :
    d.node? id = c.node? id := by
  have apart {place : NodeId} (inside : within place) : id ≠ place := by
    rintro rfl
    exact out inside
  cases h with
  | log => rfl
  | shutdown => rfl
  | @discover place n inside listed t found =>
      rw [sound.ids place n found]
      exact node?_modify_of_ne (apart inside) _
  | absorb inside => exact node?_modify_of_ne (apart inside) _
  | stamp inside => exact node?_modify_of_ne (apart inside) _

/-- A refresh registers what a node does not know: a table of its own that its configuration lets
in, or what a child holds. -/
theorem Sweep.lookup?_cases (h : Sweep within c d) (sound : c.Sound) (aligned : c.Aligned)
    (id : NodeId) (name : String) :
    d.lookup? id name = c.lookup? id name ∨
      c.lookup? id name = none ∧ ∃ owner t, d.lookup? id name = some (owner, t) ∧
        (owner = id ∧ c.Allows id name ∨
          ∃ child, c.Lists id child ∧ c.lookup? child name = some (owner, t)) := by
  cases h with
  | log => exact .inl rfl
  | shutdown => exact .inl rfl
  | @discover place n inside listed t found unknown allowed =>
      rw [sound.ids place n found]
      by_cases same : id = place
      · subst same
        have after : (c.modify id (·.register (Text.lowercase listed) id (n.adopt listed t))).node?
            id = some (n.register (Text.lowercase listed) id (n.adopt listed t)) := by
          rw [node?_modify_self, found, Option.map_some]
        rw [lookup?_of_node? after, lookup?_of_node? found, Node.register,
          Directory.lookup?_register]
        split
        · rename_i hname
          rw [hname]
          exact .inr ⟨(aligned id n found).lookup?_of_unknown unknown, id, _, rfl,
            .inl ⟨rfl, n, found, allowed⟩⟩
        · exact .inl rfl
      · exact .inl (lookup?_congr (node?_modify_of_ne same _) name)
  | @absorb place child m n key inside found listed below =>
      by_cases same : id = place
      · subst same
        have after : (c.modify id (·.absorb n)).node? id = some (m.absorb n) := by
          rw [node?_modify_self, found, Option.map_some]
        rw [lookup?_of_node? after, lookup?_of_node? found,
          Node.lookup?_absorb (aligned id m found) (aligned child n below)]
        cases hm : m.directory.lookup? name with
        | some entry => exact .inl rfl
        | none =>
            rw [Option.none_or]
            cases hn : n.directory.lookup? name with
            | none => exact .inl rfl
            | some entry =>
                refine .inr ⟨rfl, entry.1, entry.2, rfl, .inr ⟨child, ⟨m, key, found, listed⟩, ?_⟩⟩
                rw [lookup?_of_node? below, hn]
      · exact .inl (lookup?_congr (node?_modify_of_ne same _) name)
  | @stamp place inside now =>
      by_cases same : id = place
      · subst same
        refine .inl ?_
        rw [lookup?, lookup?, node?_modify_self]
        cases c.node? id <;> rfl
      · exact .inl (lookup?_congr (node?_modify_of_ne same _) name)

namespace Sweeps

theorem sound (h : Sweeps within c d) (hc : c.Sound) : d.Sound :=
  h.touches.steps.keep Step.sound hc

theorem aligned (h : Sweeps within c d) (hc : c.Aligned) : d.Aligned :=
  h.touches.steps.keep Step.aligned hc

variable (sound : c.Sound)

include sound in
theorem node?_of_outside (h : Sweeps within c d) (out : ¬ within id) :
    d.node? id = c.node? id := by
  induction h with
  | refl => rfl
  | tail hway hstep ih =>
      rw [hstep.node?_of_outside (Sweeps.sound hway sound) out, ih]

variable (aligned : c.Aligned)

include sound aligned

theorem lookup?_kept (h : Sweeps within c d) {entry : NodeId × Table}
    (held : c.lookup? id name = some entry) : d.lookup? id name = some entry := by
  induction h with
  | refl => exact held
  | @tail d e hway hstep ih =>
      have sound' := Sweeps.sound hway sound
      have aligned' := Sweeps.aligned hway aligned
      rcases hstep.lookup?_cases sound' aligned' id name with same | ⟨missing, -⟩
      · rw [same, ih]
      · rw [ih] at missing
        cases missing

theorem lookup?_new (h : Sweeps within c d) {owner : NodeId} {t : Table}
    (holds : d.lookup? id name = some (owner, t)) (missing : c.lookup? id name = none) :
    owner = id ∧ c.Allows id name ∨
      ∃ child, c.Lists id child ∧ d.lookup? child name = some (owner, t) := by
  induction h with
  | refl =>
      rw [missing] at holds
      cases holds
  | @tail d e hway hstep ih =>
      have sound' := Sweeps.sound hway sound
      have aligned' := Sweeps.aligned hway aligned
      have kept {child : NodeId} (held : d.lookup? child name = some (owner, t)) :
          e.lookup? child name = some (owner, t) :=
        Sweeps.lookup?_kept sound' aligned' (.single hstep) held
      rcases hstep.lookup?_cases sound' aligned' id name with same | ⟨-, owner', t', new, source⟩
      · rcases ih (same ▸ holds) with own | ⟨child, listed, held⟩
        · exact .inl own
        · exact .inr ⟨child, listed, kept held⟩
      · rw [holds] at new
        cases new
        rcases source with ⟨own, allowed⟩ | ⟨child, listed, held⟩
        · exact .inl ⟨own, allowed.of_bareNodes (Sweeps.touches hway).bareNodes⟩
        · rw [lists_of_bareNodes (Sweeps.touches hway).bareNodes] at listed
          exact .inr ⟨child, listed, kept held⟩

end Sweeps

/-! ### Times -/

/-- The node was refreshed last at this time. -/
def Stamped (c : Catalog) (now : Instant) (id : NodeId) : Prop :=
  ∃ n, c.node? id = some n ∧ n.refreshedAt = some now

/-- The node is as it was, or has been refreshed. -/
def KeptOrStamped (now : Instant) (c d : Catalog) (id : NodeId) : Prop :=
  d.node? id = c.node? id ∨ d.Stamped now id

theorem Stamped.of_kept {now : Instant} (h : c.Stamped now id) (hd : KeptOrStamped now c d id) :
    d.Stamped now id := by
  rcases hd with same | stamped
  · obtain ⟨n, found, time⟩ := h
    exact ⟨n, same.trans found, time⟩
  · exact stamped

theorem KeptOrStamped.trans {now : Instant} (h : KeptOrStamped now c d id)
    (h' : KeptOrStamped now d e id) : KeptOrStamped now c e id := by
  rcases h with same | stamped
  · rcases h' with same' | stamped'
    · exact .inl (same'.trans same)
    · exact .inr stamped'
  · exact .inr (stamped.of_kept h')

end Catalog

namespace Federation

open Catalog (Sweeps Stamped KeptOrStamped)

variable {σ : Type} {backend : Backend σ} (now : Instant)

/-- What a walk from `id` leaves of the times: it stamps what it comes to, and as long as the
catalog is not shut down it comes to all nodes that `id` leads to. -/
structure Refreshed (f f' : Federation σ) (id : NodeId) : Prop where
  kept : ∀ z, KeptOrStamped now f.catalog f'.catalog z
  own : f'.catalog.Stamped now id
  all : f'.catalog.isLive id → ∀ z, ReflTransGen f.catalog.Lists id z → f'.catalog.Stamped now z

theorem node?_absorbChild_of_ne {z id : NodeId} (hz : z ≠ id) (g : Federation σ)
    (child : NodeId) : (g.absorbChild id child).catalog.node? z = g.catalog.node? z := by
  unfold absorbChild
  split
  · exact Catalog.node?_modify_of_ne hz _
  · rfl

theorem stamped_stamp {g : Federation σ} {id : NodeId} {n : Node}
    (found : g.catalog.node? id = some n) :
    (g.modify id (·.stamp now)).catalog.Stamped now id := by
  refine ⟨n.stamp now, ?_, rfl⟩
  show (g.catalog.modify id _).node? id = _
  rw [Catalog.node?_modify_self, found, Option.map_some]

theorem stamps_visitChild {walk : Federation σ → NodeId → Option (Federation σ)}
    {id : NodeId} {n : Node} {g g' : Federation σ} {entry : String × NodeId}
    (walks : ∀ {g'}, g.catalog.isLive entry.2 → walk g entry.2 = some g' →
      Refreshed now g g' entry.2 ∧ Sweeps (fun _ => True) g.catalog g'.catalog)
    (h : visitChild walk id n g entry = some g') :
    (∀ z, z ≠ id → KeptOrStamped now g.catalog g'.catalog z) ∧
      (∀ z, g'.catalog.isLive z → g.catalog.isLive z) ∧
      (g'.catalog.isLive entry.2 →
        ∀ z, z ≠ id → ReflTransGen g.catalog.Lists entry.2 z → g'.catalog.Stamped now z) := by
  unfold visitChild at h
  split at h
  · rename_i e missed
    cases h
    refine ⟨fun z _ => .inl rfl, fun _ live => live, fun live => ?_⟩
    obtain ⟨k, hk⟩ := Catalog.isLive_iff.mp live
    have hk' : g.catalog.get entry.2 = .ok k := hk
    rw [missed] at hk'
    cases hk'
  · rename_i k live
    obtain ⟨g₂, hg₂, h⟩ := Option.bind_eq_some_iff.mp h
    cases h
    obtain ⟨walked, swept⟩ := walks (Catalog.isLive_of_get live) hg₂
    have absorbed (z : NodeId) :
        (g₂.absorbChild id entry.2).catalog.isLive z = g₂.catalog.isLive z := by
      unfold absorbChild
      split
      · exact Catalog.isLive_congr (Catalog.length_nodes_modify _ _ _) rfl z
      · rfl
    refine ⟨fun z hz => ?_, fun z live' => ?_, fun live' z hz hway => ?_⟩
    · exact (walked.kept z).trans (.inl (node?_absorbChild_of_ne hz g₂ entry.2))
    · rw [absorbed] at live'
      rwa [← swept.touches.isLive live']
    · rw [absorbed] at live'
      exact (walked.all live' z hway).of_kept (.inl (node?_absorbChild_of_ne hz g₂ entry.2))

/-- What the visits to some children of `id` leave of the times. The node itself is stamped last. -/
structure Passed (f g : Federation σ) (id : NodeId) (done : List (String × NodeId)) : Prop where
  kept : ∀ z, z ≠ id → KeptOrStamped now f.catalog g.catalog z
  below : g.catalog.isLive id → ∀ entry ∈ done, ∀ z, z ≠ id →
    ReflTransGen f.catalog.Lists entry.2 z → g.catalog.Stamped now z

section Passed

variable {now} {f g g' : Federation σ} {id : NodeId} {n : Node}

theorem passed_loadOwn (sound : f.catalog.Sound) (found : f.catalog.node? id = some n) :
    Passed now f (f.loadOwn backend n) id [] := by
  have own : Sweeps (· = id) f.catalog (f.loadOwn backend n).catalog :=
    sweeps_loadOwn backend f (sound.ids id n found)
  exact ⟨fun z hz => .inl (own.node?_of_outside sound hz), fun _ => nofun⟩

/-- As long as the node is live, so is the child, and the walk comes to all that lies below it. -/
theorem Passed.visited {walk : Federation σ → NodeId → Option (Federation σ)}
    {done : List (String × NodeId)} {entry : String × NodeId} (h : Passed now f g id done)
    (sound : f.catalog.Sound) (live : f.catalog.isLive id) (listed : f.catalog.Lists id entry.2)
    (walks : ∀ {g'}, g.catalog.isLive entry.2 → walk g entry.2 = some g' →
      Refreshed now g g' entry.2 ∧ Sweeps (fun _ => True) g.catalog g'.catalog)
    (sofar : Sweeps (fun _ => True) f.catalog g.catalog)
    (sofar' : Sweeps (fun _ => True) f.catalog g'.catalog)
    (hvisit : visitChild walk id n g entry = some g') :
    Passed now f g' id (done ++ [entry]) := by
  obtain ⟨kept, alive, below⟩ := stamps_visitChild now walks hvisit
  refine ⟨fun z hz => (h.kept z hz).trans (kept z hz), fun live' other hother z hz hway => ?_⟩
  rcases List.mem_append.mp hother with hother | hother
  · exact (h.below (alive id live') other hother z hz hway).of_kept (kept z hz)
  · cases List.mem_singleton.mp hother
    have live_child : g'.catalog.isLive entry.2 := by
      obtain ⟨k, name, hk, hchild⟩ := listed
      rw [sofar'.touches.isLive live']
      exact sound.children id k name entry.2 (Catalog.get_of_isLive live hk) hchild
    refine below live_child z hz ?_
    rwa [Catalog.lists_of_bareNodes sofar.touches.bareNodes]

theorem Passed.refreshed (h : Passed now f g id n.children.entries)
    (found : f.catalog.node? id = some n) (same : g.catalog.bareNodes = f.catalog.bareNodes) :
    Refreshed now f (g.modify id (·.stamp now)) id := by
  obtain ⟨m, hm, -⟩ := Catalog.node?_of_bareNodes same.symm found
  have own := stamped_stamp now hm
  have last {z : NodeId} (hz : z ≠ id) :
      KeptOrStamped now g.catalog (g.modify id (·.stamp now)).catalog z :=
    .inl (Catalog.node?_modify_of_ne hz _)
  refine ⟨fun z => ?_, own, fun live z hway => ?_⟩
  · by_cases hz : z = id
    · exact .inr (hz ▸ own)
    · exact (h.kept z hz).trans (last hz)
  · by_cases hz : z = id
    · exact hz ▸ own
    · rcases ReflTransGen.cases_head hway with heq | ⟨child, ⟨k, name, hk, listed⟩, hrest⟩
      · exact absurd heq.symm hz
      · rw [found] at hk
        cases hk
        have live' : g.catalog.isLive id := by
          rwa [← Catalog.isLive_congr (Catalog.length_nodes_modify _ _ _) rfl id]
        have stamped :=
          h.below live' (name, child) (NameMap.get?_eq_some_iff.mp listed) z hz hrest
        exact stamped.of_kept (last hz)

end Passed

theorem refreshed_refreshWithin {depth : Nat} {held : List NodeId} {f f' : Federation σ}
    {id : NodeId} (sound : f.catalog.Sound) (live : f.catalog.isLive id)
    (h : refreshWithin backend now depth held f id = some f') : Refreshed now f f' id := by
  refine refreshWithin_induction (P := fun f f' id =>
    f.catalog.Sound → f.catalog.isLive id → Refreshed now f f' id) ?_ ?_ h sound live
  · intro f id missing sound live
    obtain ⟨n, hn⟩ := Catalog.isLive_iff.mp live
    rw [Catalog.node?_of_get hn] at missing
    cases missing
  · intro walk f id n g walks found hg sound live
    obtain ⟨sofar, passed⟩ := children_induction (fun _ _ _ hwalk => (walks _ _ _ hwalk).1) found
      (P := fun done g => Passed now f g id done) (passed_loadOwn sound found)
      (fun done entry g g' hprefix sofar passed hvisit sofar' => by
        have hentry : entry ∈ n.children.entries := hprefix.subset (by simp)
        have listed : f.catalog.Lists id entry.2 :=
          ⟨n, entry.1, found, NameMap.get?_eq_some_iff.mpr hentry⟩
        exact passed.visited sound live listed (fun live hwalk =>
          ⟨(walks _ _ _ hwalk).2 (sofar.sound sound) live, (walks _ _ _ hwalk).1⟩) sofar sofar'
          hvisit) hg
    exact passed.refreshed found sofar.touches.bareNodes

theorem answer_of_live {now : Instant} {f f' : Federation σ} {id : NodeId}
    {answer : Except CatalogError Unit} (live : f.catalog.isLive id)
    (h : f.refresh backend now id = some (answer, f')) : answer = .ok () := by
  obtain ⟨n, hn⟩ := Catalog.isLive_iff.mp live
  rw [refresh, hn] at h
  obtain ⟨g, -, heq⟩ := Option.map_eq_some_iff.mp h
  exact (congrArg Prod.fst heq).symm

theorem isLive_of_refresh {now : Instant} {f f' : Federation σ} {id : NodeId}
    (h : f.refresh backend now id = some (.ok (), f')) : f.catalog.isLive id := by
  unfold refresh at h
  split at h
  · cases h
  · rename_i n live
    exact Catalog.isLive_of_get live

theorem refreshed_refresh {f f' : Federation σ} {id : NodeId} (sound : f.catalog.Sound)
    (h : f.refresh backend now id = some (.ok (), f')) : Refreshed now f f' id := by
  unfold refresh at h
  split at h
  · cases h
  · rename_i n live
    obtain ⟨g, hg, heq⟩ := Option.map_eq_some_iff.mp h
    cases heq
    exact refreshed_refreshWithin now sound (Catalog.isLive_of_get live) hg

theorem refresh_of_error {f f' : Federation σ} {id : NodeId} {e : CatalogError}
    (h : f.refresh backend now id = some (.error e, f')) : f' = f := by
  unfold refresh at h
  split at h
  · cases h
    rfl
  · obtain ⟨g, -, heq⟩ := Option.map_eq_some_iff.mp h
    cases heq

end Federation

/-! ### Refreshes in a run -/

namespace Catalog

/-- How a refresh leaves a node within its reach. An entry that is new belongs to the node itself,
or is one that a child has. -/
structure Additions (c d : Catalog) (now : Instant) (id : NodeId) (n n' : Node) : Prop where
  bare : n'.bare = n.bare
  kept : ∀ name entry, n.directory.lookup? name = some entry →
    n'.directory.lookup? name = some entry
  new : ∀ name owner t, n'.directory.lookup? name = some (owner, t) →
    n.directory.lookup? name = none →
      owner = id ∨ ∃ child, c.Lists id child ∧ d.lookup? child name = some (owner, t)
  passed : n' = n ∨ n'.refreshedAt = some now

theorem Sweeps.additions {within : NodeId → Prop} {c d : Catalog} {now : Instant} {id : NodeId}
    {n : Node} (h : Sweeps within c d) (sound : c.Sound) (aligned : c.Aligned)
    (kept : KeptOrStamped now c d id) (found : c.node? id = some n) :
    ∃ n', d.node? id = some n' ∧ Additions c d now id n n' := by
  obtain ⟨n', found', hbare⟩ := node?_of_bareNodes h.touches.bareNodes.symm found
  refine ⟨n', found', hbare, fun name entry held => ?_, fun name owner t holds missing => ?_, ?_⟩
  · rw [← lookup?_of_node? found']
    rw [← lookup?_of_node? found] at held
    exact h.lookup?_kept sound aligned held
  · rw [← lookup?_of_node? found'] at holds
    rw [← lookup?_of_node? found] at missing
    exact (h.lookup?_new sound aligned holds missing).imp_left And.left
  · rcases kept with same | ⟨k, hk, time⟩
    · rw [found', found] at same
      exact .inl (Option.some.inj same)
    · rw [found'] at hk
      cases hk
      exact .inr time

/-- A catalog after a refresh of `x`: the nodes out of its reach are as they were, those within
reach have what they had and may have more. -/
structure OnlyAdds (c d : Catalog) (now : Instant) (x : NodeId) : Prop where
  outside : ∀ z, ¬ ReflTransGen c.Lists x z → d.node? z = c.node? z
  inside : ∀ z n, ReflTransGen c.Lists x z → c.node? z = some n →
    ∃ n', d.node? z = some n' ∧ Additions c d now z n n'

end Catalog

namespace Run

variable {σ : Type} {r : Run σ} {f f' : Federation σ} {x : NodeId} {now : Instant}
  {answer : Except CatalogError Unit}

/-- A refresh that ends, whatever the sources answer, adds within its reach and does nothing else.
It succeeds exactly when the node is live. Unless the catalog is shut down meanwhile it stamps all
nodes within reach; else those that it came to before, among them the one that it began at. -/
theorem refresh_only_adds (visited : r.Visits f) {backend : Backend σ}
    (h : f.refresh backend now x = some (answer, f')) :
    Catalog.OnlyAdds f.catalog f'.catalog now x ∧
    (answer = .ok () ↔ f.catalog.isLive x) ∧
    (answer = .ok () → f'.catalog.Stamped now x ∧ (f'.catalog.isLive x →
      ∀ z, ReflTransGen f.catalog.Lists x z → f'.catalog.Stamped now z)) ∧
    (answer ≠ .ok () → f' = f) := by
  have sound := Run.sound visited
  have sweeps := Federation.sweeps_refresh backend now (sound.covers x) h
  have adds (kept : ∀ z, Catalog.KeptOrStamped now f.catalog f'.catalog z) :
      Catalog.OnlyAdds f.catalog f'.catalog now x :=
    ⟨fun z out => sweeps.node?_of_outside sound out,
      fun z n _ found => sweeps.additions sound (Run.aligned visited) (kept z) found⟩
  have succeeds : answer = .ok () ↔ f.catalog.isLive x := by
    constructor
    · rintro rfl
      exact Federation.isLive_of_refresh h
    · intro live
      exact Federation.answer_of_live live h
  cases answer with
  | error e =>
      have same := Federation.refresh_of_error now h
      subst same
      exact ⟨adds fun z => .inl rfl, succeeds, nofun, fun _ => rfl⟩
  | ok =>
      have refreshed := Federation.refreshed_refresh now sound h
      exact ⟨adds refreshed.kept, succeeds, fun _ => ⟨refreshed.own, refreshed.all⟩, nofun⟩

/-- Sources of one table each, of which the first shuts the catalog down when it is asked for its
list. -/
def closingSources : Backend Unit where
  list source _ :=
    if source.index = 0 then ({ names := ["U"], closesCatalog := true }, ())
    else ({ names := ["W"] }, ())
  describe _ name _ := (.ok (some (.new name)), ())
  openTable _ _ _ := (.ok none, ())

/-- A root with a table of its own above a node with a source, and a node beside them. -/
def shelved : Run Unit where
  backend := closingSources
  sources := ()
  operations := [.create "x" none, .create "b" (some ⟨1⟩), .create "y" none,
    .addTable ⟨0⟩ (.new "k"), .attach ⟨0⟩ ⟨1⟩]

theorem refresh_only_adds_shelved : ∃ f f', shelved.Visits f ∧
    f.refresh closingSources ⟨0, 0⟩ ⟨0⟩ = some (.ok (), f') ∧ f.catalog.isLive ⟨0⟩ ∧
    (f'.catalog.node? ⟨0⟩).map (·.directory.names) = some ["k", "w"] ∧ f'.catalog.isLive ⟨0⟩ ∧
    Catalog.OnlyAdds f.catalog f'.catalog ⟨0, 0⟩ ⟨0⟩ ∧ f'.catalog.Stamped ⟨0, 0⟩ ⟨0⟩ ∧
    ∀ z, ReflTransGen f.catalog.Lists ⟨0⟩ z → f'.catalog.Stamped ⟨0, 0⟩ z := by
  have computed : ((shelved.after shelved.operations).bind fun f =>
      (f.refresh closingSources ⟨0, 0⟩ ⟨0⟩).map fun (answer, f') =>
        (answer.toOption, (f'.catalog.node? ⟨0⟩).map (·.directory.names),
          f'.catalog.isLive ⟨0⟩)) = some (some (), some ["k", "w"], true) := by
    decide +kernel
  obtain ⟨f, hf, hrefresh⟩ := Option.bind_eq_some_iff.mp computed
  obtain ⟨⟨answer, f'⟩, h, hfound⟩ := Option.map_eq_some_iff.mp hrefresh
  obtain ⟨hanswer, hfound⟩ := Prod.mk.injEq .. ▸ hfound
  obtain ⟨hnames, hlive⟩ := Prod.mk.injEq .. ▸ hfound
  have visited : shelved.Visits f := ⟨_, List.prefix_rfl, hf⟩
  cases answer with
  | error e => cases hanswer
  | ok =>
      obtain ⟨adds, succeeds, stamps, -⟩ := refresh_only_adds visited h
      obtain ⟨own, all⟩ := stamps rfl
      exact ⟨f, f', visited, h, succeeds.mp rfl, hnames, hlive, adds, own, all hlive⟩

/-- A root with two children, each with a source, of which the first closes the catalog. -/
def closing : Run Unit where
  backend := closingSources
  sources := ()
  operations := [.create "x" none, .create "a" (some ⟨0⟩), .create "b" (some ⟨1⟩),
    .attach ⟨0⟩ ⟨1⟩, .attach ⟨0⟩ ⟨2⟩]

/-- A child that has not been visited before the catalog is shut down is passed over. -/
theorem closing_leaves_unstamped : ∃ f f', closing.Visits f ∧
    f.refresh closing.backend ⟨0, 0⟩ ⟨0⟩ = some (.ok (), f') ∧
    ReflTransGen f.catalog.Lists ⟨0⟩ ⟨2⟩ ∧ ¬ f'.catalog.Stamped ⟨0, 0⟩ ⟨2⟩ := by
  have computed : ((closing.after closing.operations).bind fun f =>
      (f.refresh closing.backend ⟨0, 0⟩ ⟨0⟩).map fun (answer, f') =>
        (answer.toOption, (f.catalog.node? ⟨0⟩).bind (·.children.get? "b"),
          (f'.catalog.node? ⟨2⟩).bind (·.refreshedAt))) =
      some (some (), some ⟨2⟩, none) := by
    decide +kernel
  obtain ⟨f, hf, hrefresh⟩ := Option.bind_eq_some_iff.mp computed
  obtain ⟨⟨answer, f'⟩, h, hfound⟩ := Option.map_eq_some_iff.mp hrefresh
  obtain ⟨hanswer, hfound⟩ := Prod.mk.injEq .. ▸ hfound
  obtain ⟨hlisted, htime⟩ := Prod.mk.injEq .. ▸ hfound
  obtain ⟨n, hn, hchild⟩ := Option.bind_eq_some_iff.mp hlisted
  cases answer with
  | error e => cases hanswer
  | ok =>
      refine ⟨f, f', ⟨_, List.prefix_rfl, hf⟩, h, .single ⟨n, "b", hn, hchild⟩, ?_⟩
      rintro ⟨m, hm, time⟩
      rw [hm, Option.bind_some, time] at htime
      cases htime

end Run

end SchemaCatalog
