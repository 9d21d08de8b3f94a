import SchemaCatalog.Proofs.Catalog.Step

/-!
When child links stay free of cycles. An attachment changes only where its parent leads, so it
closes a cycle exactly when the child led to the parent before.
-/

namespace SchemaCatalog

open Relation (ReflTransGen TransGen)

/-! ### Relations that differ in one place -/

section Redirect

variable {α : Type} {r s : α → α → Prop} {x y : α}

/-- What leads to a place does not depend on where that place leads. -/
theorem reflTransGen_of_agree (agree : ∀ a b, a ≠ x → r a b → s a b) {a : α}
    (h : ReflTransGen r a x) : ReflTransGen s a x := by
  induction h using ReflTransGen.head_induction_on with
  | refl => exact .refl
  | @head a b hab _ ih =>
      by_cases ha : a = x
      · rw [ha]
      · exact .head (agree a b ha hab) ih

/-- A way that is not of the one relation passes through the place where the other differs. -/
theorem transGen_cases_of_agree (agree : ∀ a b, a ≠ x → s a b → r a b) {a b : α}
    (h : TransGen s a b) :
    TransGen r a b ∨ ∃ z, ReflTransGen s a x ∧ s x z ∧ ReflTransGen s z b := by
  induction h with
  | single hab =>
      by_cases ha : a = x
      · subst ha
        exact .inr ⟨_, .refl, hab, .refl⟩
      · exact .inl (.single (agree _ _ ha hab))
  | tail hway hmb ih =>
      rename_i m b
      rcases ih with hway' | ⟨z, hax, hxz, hzm⟩
      · by_cases hm : m = x
        · subst hm
          exact .inr ⟨b, hway.to_reflTransGen, hmb, .refl⟩
        · exact .inl (hway'.tail (agree _ _ hm hmb))
      · exact .inr ⟨z, hax, hxz, hzm.tail hmb⟩

theorem acyclic_redirect_iff (agree : ∀ a b, a ≠ x → (s a b ↔ r a b)) (added : s x y)
    (kept : ∀ z, s x z → z = y ∨ r x z) (acyclic : ∀ a, ¬ TransGen r a a) :
    (∀ a, ¬ TransGen s a a) ↔ ¬ ReflTransGen r y x := by
  constructor
  · intro hs hyx
    have hback : ReflTransGen s y x := reflTransGen_of_agree (fun a b ha => (agree a b ha).mpr) hyx
    exact hs x (.head' added hback)
  · intro hyx a ha
    rcases transGen_cases_of_agree (fun a b ha => (agree a b ha).mp) ha with hr | ⟨z, hax, hxz, hza⟩
    · exact acyclic a hr
    · have hback : ReflTransGen r z x :=
        reflTransGen_of_agree (fun a b ha => (agree a b ha).mp) (hza.trans hax)
      rcases kept z hxz with rfl | hr
      · exact hyx hback
      · exact acyclic x (.head' hr hback)

end Redirect

namespace Catalog

/-! ### Links under each step -/

namespace Attached

variable {c d : Catalog} {parent child : NodeId} {m n : Node}

theorem lists_of_ne (h : Attached c parent child m n d) {p q : NodeId} (hp : p ≠ parent) :
    d.Lists p q ↔ c.Lists p q := by
  constructor
  · rintro ⟨k', name, found, listed⟩
    obtain ⟨k, hk, relinked⟩ := h.of_relinked found
    rw [relinked.children_eq, if_neg hp] at listed
    exact ⟨k, name, hk, listed⟩
  · rintro ⟨k, name, found, listed⟩
    obtain ⟨k', hk', relinked⟩ := h.relinked found
    exact ⟨k', name, hk', by rw [relinked.children_eq, if_neg hp]; exact listed⟩

theorem lists_child (h : Attached c parent child m n d) : d.Lists parent child := by
  obtain ⟨k', hk', relinked⟩ := h.relinked h.parent_found
  exact ⟨k', n.name, hk', by rw [relinked.children_eq, if_pos rfl, NameMap.get?_insert_self]⟩

theorem lists_parent (h : Attached c parent child m n d) {q : NodeId} (hq : d.Lists parent q) :
    q = child ∨ c.Lists parent q := by
  obtain ⟨k', name, found, listed⟩ := hq
  obtain ⟨k, hk, relinked⟩ := h.of_relinked found
  rw [relinked.children_eq, if_pos rfl, NameMap.get?_insert] at listed
  split at listed
  · exact .inl (Option.some.inj listed).symm
  · exact .inr ⟨k, name, hk, listed⟩

theorem under_iff (h : Attached c parent child m n d) {q p : NodeId} :
    d.Under q p ↔ if q = child then p = parent else c.Under q p := by
  constructor
  · rintro ⟨k', found, hp⟩
    obtain ⟨k, hk, relinked⟩ := h.of_relinked found
    rw [relinked.parent_eq] at hp
    split
    · rename_i hq
      rw [if_pos hq] at hp
      exact (Option.some.inj hp).symm
    · rename_i hq
      rw [if_neg hq] at hp
      exact ⟨k, hk, hp⟩
  · split
    · rename_i hq
      rintro rfl
      obtain ⟨k', hk', relinked⟩ := h.relinked h.child_found
      exact ⟨k', hq ▸ hk', by rw [relinked.parent_eq, if_pos rfl]⟩
    · rename_i hq
      rintro ⟨k, hk, hp⟩
      obtain ⟨k', hk', relinked⟩ := h.relinked hk
      exact ⟨k', hk', by rw [relinked.parent_eq, if_neg hq, hp]⟩

/-- An attachment closes a cycle exactly when the child led to the parent. -/
theorem acyclic_iff (h : Attached c parent child m n d) (acyclic : c.Acyclic) :
    d.Acyclic ↔ ¬ ReflTransGen c.Lists child parent :=
  acyclic_redirect_iff (fun _ _ hp => h.lists_of_ne hp) h.lists_child (fun _ => h.lists_parent)
    acyclic

end Attached

theorem lists_insertNode (c : Catalog) (name : String) (config : Option SourceConfig)
    (source : Option SourceId) : (c.insertNode name config source).2.Lists = c.Lists := by
  funext p q
  refine propext ⟨?_, ?_⟩
  · rintro ⟨n, k, found, listed⟩
    rcases node?_insertNode found with old | ⟨-, -, -, hchildren, -⟩
    · exact ⟨n, k, old, listed⟩
    · rw [hchildren] at listed
      cases listed
  · rintro ⟨n, k, found, listed⟩
    exact ⟨n, k, node?_insertNode_of_some found, listed⟩

theorem under_insertNode (c : Catalog) (name : String) (config : Option SourceConfig)
    (source : Option SourceId) : (c.insertNode name config source).2.Under = c.Under := by
  funext q p
  refine propext ⟨?_, ?_⟩
  · rintro ⟨n, found, hp⟩
    rcases node?_insertNode found with old | ⟨-, -, hparent, -⟩
    · exact ⟨n, old, hp⟩
    · rw [hparent] at hp
      cases hp
  · rintro ⟨n, found, hp⟩
    exact ⟨n, node?_insertNode_of_some found, hp⟩

theorem Unlinked.not_lists {c : Catalog} {id other : NodeId} (h : c.Unlinked id) :
    ¬ c.Lists id other := by
  obtain ⟨n, found, -, hchildren⟩ := h
  rintro ⟨m, k, hm, listed⟩
  rw [found] at hm
  cases hm
  rw [hchildren] at listed
  cases listed

theorem Step.acyclic {c d : Catalog} (h : Step c d) (acyclic : c.Acyclic) : d.Acyclic := by
  cases h with
  | touch h =>
      unfold Acyclic
      rwa [lists_of_bareNodes h.bareNodes]
  | create name config source =>
      unfold Acyclic
      rwa [lists_insertNode]
  | place new accepted =>
      obtain ⟨m, n, attached⟩ := attached_of_ok accepted
      refine (attached.acyclic_iff acyclic).mpr fun hway => ?_
      rcases ReflTransGen.cases_head hway with heq | ⟨q, hq, -⟩
      · exact attached.ne heq
      · exact new.not_lists hq

theorem Steps.acyclic {c d : Catalog} (h : Steps c d) (acyclic : c.Acyclic) : d.Acyclic :=
  h.keep Step.acyclic acyclic

end Catalog

end SchemaCatalog
