import SchemaCatalog.Proofs.Catalog.Entries
import SchemaCatalog.Proofs.Catalog.Run

/-!
Live nodes refer to live nodes only: their parents, their children and the owners that they record.
All of them are released together, and an attachment joins two live nodes.
-/

namespace SchemaCatalog.Catalog

open Relation (ReflTransGen)

variable {c d : Catalog}

/-! ### Liveness -/

theorem isLive_iff_lt {id : NodeId} :
    c.isLive id ↔ c.released ≤ id.index ∧ id.index < c.nodes.length := by
  simp [isLive]

theorem isLive_iff {id : NodeId} : c.isLive id ↔ ∃ n, c.get id = .ok n := by
  refine ⟨fun h => ?_, fun ⟨n, hn⟩ => isLive_of_get hn⟩
  have hlt := (isLive_iff_lt.mp h).2
  exact ⟨c.nodes[id.index], get_of_isLive h (List.getElem?_eq_getElem hlt)⟩

theorem isLive_congr (length : d.nodes.length = c.nodes.length) (released : d.released = c.released)
    (id : NodeId) : d.isLive id = c.isLive id := by
  rw [isLive, isLive, length, released]

theorem not_isLive_of_released (length : d.nodes.length = c.nodes.length)
    (released : d.released = c.nodes.length) (id : NodeId) : ¬ d.isLive id := by
  rw [isLive_iff_lt, length, released]
  omega

theorem length_insertNode (c : Catalog) (name : String) (config : Option SourceConfig)
    (source : Option SourceId) :
    (c.insertNode name config source).2.nodes.length = c.nodes.length + 1 := by
  rw [nodes_insertNode, List.length_append, List.length_singleton]

theorem isLive_insertNode {name : String} {config : Option SourceConfig}
    {source : Option SourceId} {id : NodeId} (h : c.isLive id) :
    (c.insertNode name config source).2.isLive id := by
  obtain ⟨hreleased, hlt⟩ := isLive_iff_lt.mp h
  rw [isLive_iff_lt, length_insertNode]
  exact ⟨hreleased, by omega⟩

theorem get_of_insertNode {name : String} {config : Option SourceConfig}
    {source : Option SourceId} {id : NodeId} {n : Node} (old : c.node? id = some n)
    (h : (c.insertNode name config source).2.isLive id) : c.get id = .ok n :=
  get_eq_ok_iff.mpr
    ⟨isLive_iff_lt.mpr ⟨(isLive_iff_lt.mp h).1, index_lt_of_node? old⟩, old⟩

/-! ### References -/

/-- Nodes carry their own handles, and what live nodes refer to is live. -/
structure Sound (c : Catalog) : Prop where
  ids : ∀ id n, c.node? id = some n → n.id = id
  parents : ∀ id n p, c.get id = .ok n → n.parent = some p → c.isLive p
  children : ∀ id n name q, c.get id = .ok n → n.children.get? name = some q → c.isLive q
  owners : ∀ id n name o, c.get id = .ok n → n.directory.owners.get? name = some o → c.isLive o

namespace Sound

theorem empty (window : Millis) : Sound { window } := by
  have none_found (id : NodeId) : ({ window } : Catalog).node? id = none := rfl
  refine ⟨?_, ?_, ?_, ?_⟩ <;> intro id n
  · intro found
    rw [none_found] at found
    cases found
  all_goals
    intro _
    simp [get_eq_ok_iff, none_found]

theorem isLive_of_gives (h : c.Sound) {id : NodeId} {n : Node} (live : c.get id = .ok n)
    {name : String} {o : NodeId} {t : Table} (gives : n.Gives name o t) : c.isLive o := by
  obtain ⟨-, rfl⟩ := gives
  cases ho : n.directory.owners.get? name with
  | some o => exact h.owners id n name o live ho
  | none =>
      rw [Option.getD_none, h.ids id n (node?_of_get live)]
      exact isLive_of_get live

/-- Every entry that a step may write to a live node has a live owner. -/
theorem isLive_of_offers (h : c.Sound) {id : NodeId} (live : c.isLive id) {name : String}
    {o : NodeId} {t : Table} (offer : c.Offers id name o t) : c.isLive o := by
  cases offer with
  | added => exact live
  | loaded => exact live
  | @taken child m n key name o t found listed below gives =>
      have hchild := h.children id m key child (get_of_isLive live found) listed
      exact h.isLive_of_gives (get_of_isLive hchild below) gives

theorem touch (hc : c.Sound) (h : Touch c d) : d.Sound := by
  have same := h.bareNodes
  have length := length_of_bareNodes same
  have ids : ∀ id n, d.node? id = some n → n.id = id := by
    intro id n found
    obtain ⟨m, hm, hbare⟩ := node?_of_bareNodes same found
    rw [← Node.id_eq_of_bare hbare]
    exact hc.ids id m hm
  rcases h.released with kept | all
  · have live := isLive_congr length kept
    have before {id : NodeId} {n : Node} (hn : d.get id = .ok n) :
        ∃ m, c.get id = .ok m ∧ m.bare = n.bare := by
      obtain ⟨hlive, found⟩ := get_eq_ok_iff.mp hn
      obtain ⟨m, hm, hbare⟩ := node?_of_bareNodes same found
      exact ⟨m, get_of_isLive (live id ▸ hlive) hm, hbare⟩
    refine ⟨ids, ?_, ?_, ?_⟩
    · intro id n p hn hp
      obtain ⟨m, hm, hbare⟩ := before hn
      rw [live]
      exact hc.parents id m p hm (Node.parent_eq_of_bare hbare ▸ hp)
    · intro id n name q hn hq
      obtain ⟨m, hm, hbare⟩ := before hn
      rw [live]
      exact hc.children id m name q hm (Node.children_eq_of_bare hbare ▸ hq)
    · intro id n name o hn ho
      obtain ⟨hlive, found⟩ := get_eq_ok_iff.mp hn
      obtain ⟨m, hm, edits⟩ := h.edits found
      rw [live] at hlive ⊢
      rcases edits.owner ho with old | ⟨t, offer⟩
      · exact hc.owners id m name o (get_of_isLive hlive hm) old
      · exact hc.isLive_of_offers hlive offer
  · have dead {id : NodeId} {n : Node} (hn : d.get id = .ok n) : False :=
      not_isLive_of_released length all id (isLive_of_get hn)
    exact ⟨ids, fun _ _ _ hn => (dead hn).elim, fun _ _ _ _ hn => (dead hn).elim,
      fun _ _ _ _ hn => (dead hn).elim⟩

theorem insertNode (hc : c.Sound) (name : String) (config : Option SourceConfig)
    (source : Option SourceId) : (c.insertNode name config source).2.Sound := by
  refine ⟨?_, ?_, ?_, ?_⟩
  · intro id n found
    rcases node?_insertNode found with old | ⟨-, hid, -⟩
    · exact hc.ids id n old
    · exact hid
  · intro id n p hn hp
    obtain ⟨hlive, found⟩ := get_eq_ok_iff.mp hn
    rcases node?_insertNode found with old | ⟨-, -, hparent, -⟩
    · exact isLive_insertNode (hc.parents id n p (get_of_insertNode old hlive) hp)
    · rw [hparent] at hp
      cases hp
  · intro id n name q hn hq
    obtain ⟨hlive, found⟩ := get_eq_ok_iff.mp hn
    rcases node?_insertNode found with old | ⟨-, -, -, hchildren, -⟩
    · exact isLive_insertNode (hc.children id n name q (get_of_insertNode old hlive) hq)
    · rw [hchildren] at hq
      cases hq
  · intro id n name o hn ho
    obtain ⟨hlive, found⟩ := get_eq_ok_iff.mp hn
    rcases node?_insertNode found with old | ⟨-, -, -, -, hempty⟩
    · exact isLive_insertNode (hc.owners id n name o (get_of_insertNode old hlive) ho)
    · rw [hempty] at ho
      cases ho

theorem attached {parent child : NodeId} {m n : Node} (hc : c.Sound)
    (h : Attached c parent child m n d) : d.Sound := by
  have live := isLive_congr h.length h.released
  have before {id : NodeId} {k' : Node} (hk' : d.get id = .ok k') :
      ∃ k, c.get id = .ok k ∧ Relinked parent child n.name id k k' := by
    obtain ⟨hlive, found⟩ := get_eq_ok_iff.mp hk'
    obtain ⟨k, hk, relinked⟩ := h.of_relinked found
    exact ⟨k, get_of_isLive (live id ▸ hlive) hk, relinked⟩
  refine ⟨?_, ?_, ?_, ?_⟩
  · intro id k' found
    obtain ⟨k, hk, relinked⟩ := h.of_relinked found
    rw [relinked.id_eq]
    exact hc.ids id k hk
  · intro id k' p hk' hp
    obtain ⟨k, hk, relinked⟩ := before hk'
    rw [live]
    rw [relinked.parent_eq] at hp
    split at hp
    · cases hp
      exact isLive_of_get h.parent_live
    · exact hc.parents id k p hk hp
  · intro id k' name q hk' hq
    obtain ⟨k, hk, relinked⟩ := before hk'
    rw [live]
    rw [relinked.children_eq] at hq
    split at hq
    · rw [NameMap.get?_insert] at hq
      split at hq
      · cases hq
        exact isLive_of_get h.child_live
      · exact hc.children id k name q hk hq
    · exact hc.children id k name q hk hq
  · intro id k' name o hk' ho
    obtain ⟨hlive, found⟩ := get_eq_ok_iff.mp hk'
    obtain ⟨k, hk, edits⟩ := h.edits found
    rw [live] at hlive ⊢
    rcases edits.owner ho with old | ⟨t, -, gives⟩
    · exact hc.owners id k name o (get_of_isLive hlive hk) old
    · exact hc.isLive_of_gives h.child_live gives

end Sound

theorem Step.sound (h : Step c d) (hc : c.Sound) : d.Sound := by
  cases h with
  | touch h => exact hc.touch h
  | create name config source => exact hc.insertNode name config source
  | place new accepted =>
      obtain ⟨m, n, attached⟩ := attached_of_ok accepted
      exact hc.attached attached

theorem Sound.exists_ancestors (h : c.Sound) {id : NodeId} (live : c.isLive id) :
    ∃ l, c.ancestors id = .ok l := by
  obtain ⟨n, hn⟩ := isLive_iff.mp live
  exact ancestors_eq_ok hn fun x m y hx hy => isLive_iff.mp (h.parents x m y hx hy)

theorem Sound.attach_answer (h : c.Sound) {parent child : NodeId} {m n : Node}
    (hm : c.get parent = .ok m) (hn : c.get child = .ok n) :
    (ReflTransGen c.Under parent child →
      (c.attach parent child).1 = .error (.ownDescendant n.name m.name)) ∧
    (¬ ReflTransGen c.Under parent child → (c.attach parent child).1 = .ok ()) := by
  obtain ⟨above, habove⟩ := h.exists_ancestors (isLive_of_get hm)
  rw [← mem_ancestors_iff habove]
  constructor <;> intro hmem <;>
    simp [attach, hm, hn, habove, hmem, bind, Except.bind, pure, Except.pure, throw, throwThe,
      MonadExceptOf.throw]

end SchemaCatalog.Catalog

namespace SchemaCatalog.Run

variable {σ : Type} {r : Run σ} {f : Federation σ}

theorem sound (h : r.Visits f) : f.catalog.Sound :=
  invariant Catalog.Sound.empty Catalog.Step.sound (fun attached hc => hc.attached attached) h

end SchemaCatalog.Run
