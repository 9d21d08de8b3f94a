import SchemaCatalog.Proofs.Catalog.Live

/-!
A refresh that comes to a cycle of child links waits for ever, as long as no source shuts the
catalog down. Every node that leads to a cycle lists one that does, so the walk would have to end
below before it ends above.
-/

namespace SchemaCatalog

/-- No source shuts the catalog down while it draws up a list. -/
def Backend.Steady {σ : Type} (backend : Backend σ) : Prop :=
  ∀ source world, (backend.list source world).1.closesCatalog = false

namespace Federation

open Catalog (Sweeps)

variable {σ : Type} {backend : Backend σ} (steady : backend.Steady)

/-! ### No node is released -/

theorem released_loadNew (id : NodeId) (f : Federation σ) (listed : String) :
    (loadNew backend id f listed).catalog.released = f.catalog.released := by
  unfold loadNew
  split
  · rfl
  rename_i n found
  simp only
  split
  · rfl
  generalize hf' : f.log .debug _ = f'
  have loaded : (f'.loadListed backend n listed).2.catalog.released = f.catalog.released := by
    subst hf'
    rcases loadListed_catalog backend (f.log .debug _) n listed with hkept | ⟨t, hloaded⟩
    · rw [hkept]
      rfl
    · rw [hloaded]
      rfl
  split <;>
  · rename_i hanswer
    rw [hanswer] at loaded
    exact loaded

theorem released_loadAll (id : NodeId) (names : List String) (f : Federation σ) :
    (names.foldl (loadNew backend id) f).catalog.released = f.catalog.released := by
  induction names generalizing f with
  | nil => rfl
  | cons listed names ih => rw [List.foldl_cons, ih, released_loadNew]

include steady in
theorem released_loadOwn (f : Federation σ) (n : Node) :
    (f.loadOwn backend n).catalog.released = f.catalog.released := by
  unfold loadOwn
  split
  · rfl
  rename_i source _
  have listing_released : (f.listing backend source).2.catalog.released = f.catalog.released := by
    simp [listing, steady source f.sources]
  exact (released_loadAll _ _ _).trans listing_released

theorem released_visitChild {walk : Federation σ → NodeId → Option (Federation σ)}
    (walks : ∀ {f f' : Federation σ} {id : NodeId}, walk f id = some f' →
      f'.catalog.released = f.catalog.released)
    {f f' : Federation σ} {id : NodeId} {n : Node} {entry : String × NodeId}
    (h : visitChild walk id n f entry = some f') :
    f'.catalog.released = f.catalog.released := by
  unfold visitChild at h
  split at h
  · cases h
    rfl
  · obtain ⟨g, hg, h⟩ := Option.bind_eq_some_iff.mp h
    cases h
    rw [← walks hg]
    unfold absorbChild
    split <;> rfl

include steady in
theorem released_refreshWithin (now : Instant) {depth : Nat} {held : List NodeId}
    {f f' : Federation σ} {id : NodeId} (h : refreshWithin backend now depth held f id = some f') :
    f'.catalog.released = f.catalog.released := by
  induction depth generalizing held f f' id with
  | zero => cases h
  | succ depth ih =>
      rw [refreshWithin] at h
      split at h
      · cases h
      split at h
      · cases h
        rfl
      rename_i n found
      obtain ⟨g, hg, h⟩ := Option.bind_eq_some_iff.mp h
      cases h
      refine foldlM_induction (P := fun g => g.catalog.released = f.catalog.released) ?_
        (released_loadOwn steady f n) hg
      intro g entry g' _ sofar hvisit
      exact (released_visitChild ih hvisit).trans sofar

/-! ### Cycles -/

include steady in
theorem refreshWithin_eq_none (now : Instant) {depth : Nat} {held : List NodeId}
    {f : Federation σ} {id : NodeId} (sound : f.catalog.Sound) (live : f.catalog.isLive id)
    (cycle : ¬ f.catalog.AcyclicBelow id) : refreshWithin backend now depth held f id = none := by
  induction depth generalizing held f id with
  | zero => rfl
  | succ depth ih =>
      obtain ⟨n, hn⟩ := Catalog.isLive_iff.mp live
      have found := Catalog.node?_of_get hn
      obtain ⟨child, ⟨m, name, hm, listed⟩, deeper⟩ := Catalog.exists_lists_of_cycle cycle
      rw [found] at hm
      cases hm
      rw [Option.eq_none_iff_forall_ne_some]
      intro f' h
      rw [refreshWithin] at h
      split at h
      · cases h
      simp only [found] at h
      obtain ⟨g, hg, -⟩ := Option.bind_eq_some_iff.mp h
      obtain ⟨g₁, g₂, ⟨sofar, released⟩, hvisit⟩ := exists_of_foldlM
        (P := fun g => Sweeps (fun _ => True) f.catalog g.catalog ∧
          g.catalog.released = f.catalog.released)
        (fun g entry g' hentry hg hvisit =>
          ⟨sweeps_visitChild (sweeps_refreshWithin backend now) (f.catalog.covers_everywhere id)
              found hentry hg.1 hvisit,
            (released_visitChild (released_refreshWithin steady now) hvisit).trans hg.2⟩)
        ⟨sweeps_loadOwn backend f trivial, released_loadOwn steady f n⟩ hg
        (NameMap.get?_eq_some_iff.mp listed)
      have same := sofar.touches.bareNodes
      have child_live : g₁.catalog.isLive child := by
        rw [Catalog.isLive_congr (Catalog.length_of_bareNodes same) released]
        exact sound.children id n name child hn listed
      have waits : refreshWithin backend now depth (id :: held) g₁ child = none :=
        ih (sofar.touches.steps.keep Catalog.Step.sound sound) child_live
          fun acyclic => deeper (acyclic.of_bareNodes same.symm)
      obtain ⟨k, hk⟩ := Catalog.isLive_iff.mp child_live
      simp [visitChild, hk, waits] at hvisit

include steady in
/-- A refresh of a live node waits for ever exactly when the node leads to a cycle. -/
theorem refresh_eq_none_iff (now : Instant) {f : Federation σ} {id : NodeId}
    (sound : f.catalog.Sound) (live : f.catalog.isLive id) :
    f.refresh backend now id = none ↔ ¬ f.catalog.AcyclicBelow id := by
  constructor
  · intro waits acyclic
    obtain ⟨answer, f', ends⟩ := exists_refresh backend now acyclic
    rw [waits] at ends
    cases ends
  · intro cycle
    obtain ⟨n, hn⟩ := Catalog.isLive_iff.mp live
    simp [refresh, hn, refreshWithin_eq_none steady now sound live cycle]

end Federation

end SchemaCatalog
