import SchemaCatalog.Proofs.Catalog.Cycle
import SchemaCatalog.Proofs.Catalog.FailedDrop
import SchemaCatalog.Proofs.Catalog.Ownership

/-!
Where copies of an entry can be. As long as no attachment replaces what the parent owns itself, a
copy stands above its owner, who keeps the entry as its own, and a drop that goes up from the owner
finds every copy.
-/

namespace SchemaCatalog

open Relation (ReflTransGen)

namespace Catalog

variable {c d : Catalog} {name : String} {owner : NodeId}

/-! ### Copies and their owners -/

/-- A node records the owner of a name. -/
def Records (c : Catalog) (id : NodeId) (name : String) (owner : NodeId) : Prop :=
  ∃ n, c.node? id = some n ∧ n.directory.owners.get? name = some owner

/-- The owner of every entry stands at or below it, and has the entry as its own. -/
structure Housed (c : Catalog) : Prop where
  above : ∀ id name owner, c.Records id name owner → ReflTransGen c.Under owner id
  own : ∀ id name owner, c.Records id name owner → c.Records owner name owner

theorem records_modify {id place : NodeId} {change : Node → Node} (h : c.Records id name owner)
    (keep : place = id → ∀ n, n.directory.owners.get? name = some owner →
      c.node? id = some n → (change n).directory.owners.get? name = some owner) :
    (c.modify place change).Records id name owner := by
  obtain ⟨n, found, recorded⟩ := h
  unfold Records
  rw [node?_modify]
  split
  · rename_i same
    exact ⟨change n, by rw [found]; rfl, keep same n recorded found⟩
  · exact ⟨n, found, recorded⟩

theorem records_register_own (h : c.Records owner name owner) {place : NodeId} {key : String}
    {t : Table} : (c.modify place (·.register key place t)).Records owner name owner := by
  refine records_modify h fun same n recorded _ => ?_
  simp only [Node.register, Directory.register, NameMap.get?_insert]
  split
  · rw [same]
  · exact recorded

end Catalog

namespace Node

variable {name : String}

theorem owners_absorb_of_knows {n : Node} (child : Node) (known : n.knows name) :
    (n.absorb child).directory.owners.get? name = n.directory.owners.get? name := by
  suffices h : (n.absorb child).knows name ∧
      (n.absorb child).directory.owners.get? name = n.directory.owners.get? name from h.2
  refine List.foldlRecOn (motive := fun k : Node => k.knows name ∧
    k.directory.owners.get? name = n.directory.owners.get? name) _ _ ⟨known, rfl⟩ ?_
  intro k ⟨hknows, hsame⟩ key _
  split
  · exact ⟨hknows, hsame⟩
  · rename_i unknown
    have hne : name ≠ key := by
      rintro rfl
      exact unknown hknows
    split
    · refine ⟨?_, ?_⟩
      · rw [knows, register, Directory.knows_register]
        simpa using .inr hknows
      · rw [← hsame]
        exact NameMap.get?_insert_ne _ _ hne
    · exact ⟨hknows, hsame⟩

theorem owners_mergeChild_of_none (n : Node) {child : Node}
    (absent : child.directory.tables.get? name = none) :
    (n.mergeChild child).directory.owners.get? name = n.directory.owners.get? name := by
  refine List.foldlRecOn (motive := fun k : Node =>
    k.directory.owners.get? name = n.directory.owners.get? name) _ _ rfl ?_
  intro k hsame entry hentry
  have hne : name ≠ entry.1 := by
    rintro rfl
    rw [NameMap.get?_eq_some_iff.mpr hentry] at absent
    cases absent
  rw [← hsame]
  exact NameMap.get?_insert_ne _ _ hne

theorem owners_release (n : Node) (name key : String) (owner : NodeId) :
    (n.release name owner).directory.owners.get? key =
      if key = name ∧ n.directory.owners.get? name = some owner then none
      else n.directory.owners.get? key := by
  unfold release
  by_cases recorded : n.directory.owners.get? name = some owner
  · simp only [recorded, and_true]
    exact NameMap.get?_erase _ _ _
  · simp only [recorded, and_false, if_false]

theorem release_rest {n : Node} (aligned : n.directory.Aligned) {name key : String}
    (owner : NodeId) (other : key ≠ name) : (n.release name owner).bare = n.bare ∧
      (key ∈ (n.release name owner).directory.names ↔ key ∈ n.directory.names) ∧
      (n.release name owner).directory.owners.get? key = n.directory.owners.get? key ∧
      (n.release name owner).directory.tables.get? key = n.directory.tables.get? key := by
  unfold release
  split
  · refine ⟨rfl, ?_, ?_, ?_⟩
    · simp [unregister, Directory.unregister, Directory.mem_eraseName aligned.sorted, other]
    · simp [unregister, Directory.unregister, NameMap.get?_erase, other]
    · simp [unregister, Directory.unregister, NameMap.get?_erase, other]
  · exact ⟨rfl, .rfl, rfl, rfl⟩

end Node

namespace Catalog

variable {c d : Catalog} {name : String} {owner : NodeId}

/-- Every owner stands at or below the entries of which it is recorded. -/
def Overseen (c : Catalog) : Prop :=
  ∀ id name owner, c.Records id name owner → ReflTransGen c.Under owner id

/-- It is enough that links stay, and that new entries are a node's own or copies of what is below
it. -/
theorem Overseen.of_changes (hc : c.Overseen) (under : ∀ x y, c.Under x y → d.Under x y)
    (new : ∀ id name owner, d.Records id name owner → c.Records id name owner ∨ id = owner ∨
      ∃ child, c.Records child name owner ∧ d.Under child id) : d.Overseen := by
  have lift {x y : NodeId} (hway : ReflTransGen c.Under x y) : ReflTransGen d.Under x y :=
    ReflTransGen.mono (fun x y => under x y) _ _ hway
  intro id name owner h
  rcases new id name owner h with old | rfl | ⟨child, copied, below⟩
  · exact lift (hc id name owner old)
  · exact .refl
  · exact (lift (hc child name owner copied)).tail below

/-- Besides, owners have to keep their own entries. -/
theorem Housed.of_changes (hc : c.Housed) (under : ∀ x y, c.Under x y → d.Under x y)
    (kept : ∀ name owner, c.Records owner name owner → d.Records owner name owner)
    (new : ∀ id name owner, d.Records id name owner → c.Records id name owner ∨ id = owner ∨
      ∃ child, c.Records child name owner ∧ d.Under child id) : d.Housed := by
  refine ⟨Overseen.of_changes hc.above under new, fun id name owner h => ?_⟩
  rcases new id name owner h with old | rfl | ⟨child, copied, -⟩
  · exact kept name owner (hc.own id name owner old)
  · exact h
  · exact kept name owner (hc.own child name owner copied)

/-- An entry that a step writes is the node's own, or a copy of what a child has. -/
theorem Touch.records_new (h : Touch c d) (signed : c.Signed) (faithful : c.Faithful) {id : NodeId}
    (recorded : d.Records id name owner) : c.Records id name owner ∨ id = owner ∨
      ∃ child, c.Records child name owner ∧ c.Under child id := by
  obtain ⟨n', found, recorded⟩ := recorded
  obtain ⟨n, hn, edits⟩ := h.edits found
  rcases edits.owner recorded with old | ⟨t, offer⟩
  · exact .inl ⟨n, hn, old⟩
  · cases offer with
    | added => exact .inr (.inl rfl)
    | loaded => exact .inr (.inl rfl)
    | @taken child m k key _ _ _ hm listed below gives =>
        exact .inr (.inr ⟨child, ⟨k, below, (gives.signed (signed child k below)).1⟩,
          faithful id child ⟨m, key, hm, listed⟩⟩)

/-! ### Every step keeps copies above their owners -/

theorem Sweep.records_own {within : NodeId → Prop} (h : Sweep within c d) (aligned : c.Aligned)
    (own : c.Records owner name owner) : d.Records owner name owner := by
  cases h with
  | log => exact own
  | shutdown => exact own
  | discover inside listed t found => exact records_register_own own
  | @absorb place child m n key inside found listed below =>
      refine records_modify own fun same k recorded hk => ?_
      have known : k.knows name := by
        rw [Node.knows, Directory.knows, ← (aligned owner k hk).defined, (aligned owner k hk).owned]
        exact Option.isSome_iff_exists.mpr ⟨owner, recorded⟩
      rw [Node.owners_absorb_of_knows n known]
      exact recorded
  | stamp inside now => exact records_modify own fun _ k recorded _ => recorded

theorem records_addTable (own : c.Records owner name owner) (id : NodeId) (t : Table) :
    (c.addTable id t).Records owner name owner := by
  unfold addTable
  split
  · exact own
  · exact records_register_own own

theorem Touch.housed_of_own (h : Touch c d) (signed : c.Signed) (faithful : c.Faithful)
    (hc : c.Housed)
    (kept : ∀ name owner, c.Records owner name owner → d.Records owner name owner) : d.Housed := by
  have links := under_of_bareNodes h.bareNodes
  refine hc.of_changes (fun x y => ?_) kept fun id name owner recorded => ?_
  · rw [links]
    exact id
  · rw [links]
    exact h.records_new signed faithful recorded

section Found

variable {id : NodeId} {n : Node} {chain : List NodeId} (hc : c.Housed) (live : c.get id = .ok n)
  (owned : n.ownerOf (Text.lowercase name) = some owner) (above : c.ancestors owner = .ok chain)

include hc live owned above

/-- No copy is out of the reach of a drop. -/
theorem Housed.node?_drop (x : NodeId) : (c.drop id name).2.node? x =
    (c.node? x).map (·.release (Text.lowercase name) owner) := by
  rw [Catalog.node?_drop live owned above]
  split
  · rfl
  · rename_i outside
    cases found : c.node? x with
    | none => rfl
    | some k =>
        rw [Option.map_some, Node.release_of_ne]
        intro recorded
        have reached := hc.above x (Text.lowercase name) owner ⟨k, found, recorded⟩
        exact outside ((mem_ancestors_iff above x).mpr reached)

theorem Housed.records_drop_iff {x : NodeId} {key : String} {o : NodeId} :
    (c.drop id name).2.Records x key o ↔
      c.Records x key o ∧ ¬ (key = Text.lowercase name ∧ o = owner) := by
  unfold Records
  simp only [hc.node?_drop live owned above, Option.map_eq_some_iff]
  constructor
  · rintro ⟨k', ⟨k, found, rfl⟩, recorded⟩
    rw [Node.owners_release] at recorded
    split at recorded
    · cases recorded
    · rename_i kept
      refine ⟨⟨k, found, recorded⟩, ?_⟩
      rintro ⟨rfl, rfl⟩
      exact kept ⟨rfl, recorded⟩
  · rintro ⟨⟨k, found, recorded⟩, other⟩
    refine ⟨_, ⟨k, found, rfl⟩, ?_⟩
    rw [Node.owners_release, if_neg]
    · exact recorded
    · rintro ⟨rfl, released⟩
      exact other ⟨rfl, Option.some.inj (recorded.symm.trans released)⟩

theorem Housed.drop_of_owner : (c.drop id name).2.Housed := by
  have links := under_of_bareNodes (erasures_drop c id name).bareNodes
  refine ⟨fun x key o recorded => ?_, fun x key o recorded => ?_⟩
  · rw [links]
    exact hc.above x key o ((hc.records_drop_iff live owned above).mp recorded).1
  · rw [hc.records_drop_iff live owned above] at recorded ⊢
    exact ⟨hc.own x key o recorded.1, recorded.2⟩

end Found

theorem Housed.drop (hc : c.Housed) (id : NodeId) (name : String) : (c.drop id name).2.Housed := by
  by_cases route : ∃ n owner chain, c.get id = .ok n ∧
      n.ownerOf (Text.lowercase name) = some owner ∧ c.ancestors owner = .ok chain
  · obtain ⟨n, owner, chain, live, owned, above⟩ := route
    exact hc.drop_of_owner live owned above
  · rw [drop_of_no_chain fun n owner chain live owned above =>
      route ⟨n, owner, chain, live, owned, above⟩]
    exact hc

theorem Touch.housed (h : Touch c d) (aligned : c.Aligned) (signed : c.Signed)
    (faithful : c.Faithful) (hc : c.Housed) : d.Housed := by
  have of_own := h.housed_of_own signed faithful hc
  cases h with
  | sweep h => exact of_own fun name owner own => h.records_own aligned own
  | addTable id t => exact of_own fun name owner own => records_addTable own id t
  | demand => exact of_own fun name owner own => records_register_own own
  | drop id name => exact hc.drop id name

theorem records_of_insertNode {key : String} {config : Option SourceConfig}
    {source : Option SourceId} {id : NodeId}
    (h : (c.insertNode key config source).2.Records id name owner) : c.Records id name owner := by
  obtain ⟨n, found, recorded⟩ := h
  rcases node?_insertNode found with old | ⟨-, -, -, -, hempty⟩
  · exact ⟨n, old, recorded⟩
  · rw [hempty] at recorded
    cases recorded

theorem Housed.insertNode (hc : c.Housed) (name : String) (config : Option SourceConfig)
    (source : Option SourceId) : (c.insertNode name config source).2.Housed := by
  refine hc.of_changes (fun x y => ?_) ?_ fun _ _ _ h => .inl (records_of_insertNode h)
  · rw [under_insertNode]
    exact id
  · rintro key owner ⟨n, found, recorded⟩
    exact ⟨n, node?_insertNode_of_some found, recorded⟩

/-- Where the parent's own tables are not in the way of the child's, it keeps them. -/
theorem Attached.records_own {parent child : NodeId} {m n : Node}
    (h : Attached c parent child m n d) (clear : c.Clear parent child)
    (own : c.Records owner name owner) : d.Records owner name owner := by
  obtain ⟨k, found, recorded⟩ := own
  unfold Records
  rw [h.node?]
  by_cases hp : owner = parent
  · subst hp
    rw [h.parent_found] at found
    cases found
    refine ⟨_, if_pos rfl, ?_⟩
    rw [Node.owners_mergeChild_of_none _
      (clear m n name h.parent_found h.child_found recorded)]
    exact recorded
  · by_cases hq : owner = child
    · subst hq
      rw [h.child_found] at found
      cases found
      exact ⟨{ n with parent := some parent }, by rw [if_neg hp, if_pos rfl], recorded⟩
    · exact ⟨k, by rw [if_neg hp, if_neg hq, found], recorded⟩

theorem Attached.records_new {parent child : NodeId} {m n : Node}
    (h : Attached c parent child m n d) (signed : c.Signed) {id : NodeId}
    (recorded : d.Records id name owner) : c.Records id name owner ∨ id = owner ∨
      ∃ below, c.Records below name owner ∧ d.Under below id := by
  obtain ⟨k', found, recorded⟩ := recorded
  obtain ⟨k, hk, edits⟩ := h.edits found
  rcases edits.owner recorded with old | ⟨t, rfl, gives⟩
  · exact .inl ⟨k, hk, old⟩
  · have copied := (gives.signed (signed child n h.child_found)).1
    exact .inr (.inr ⟨child, ⟨n, h.child_found, copied⟩, h.under_iff.mpr (by rw [if_pos rfl])⟩)

theorem Attached.under_of_unmoved {parent child : NodeId} {m n : Node}
    (h : Attached c parent child m n d) (unmoved : n.parent = none ∨ n.parent = some parent)
    {x y : NodeId} (hway : c.Under x y) : d.Under x y := by
  obtain ⟨k, found, hparent⟩ := hway
  rw [h.under_iff]
  split
  · rename_i hx
    rw [hx, h.child_found] at found
    cases found
    rcases unmoved with new | same
    · rw [new] at hparent
      cases hparent
    · exact Option.some.inj (hparent.symm.trans same)
  · exact ⟨k, found, hparent⟩

theorem Attached.housed {parent child : NodeId} {m n : Node} (h : Attached c parent child m n d)
    (signed : c.Signed) (new : n.parent = none) (clear : c.Clear parent child) (hc : c.Housed) :
    d.Housed :=
  hc.of_changes (fun _ _ => h.under_of_unmoved (.inl new)) (fun _ _ own => h.records_own clear own)
    fun _ _ _ recorded => h.records_new signed recorded

theorem Step.housed (h : Step c d) (aligned : c.Aligned) (signed : c.Signed)
    (faithful : c.Faithful) (hc : c.Housed) : d.Housed := by
  cases h with
  | touch h => exact h.housed aligned signed faithful hc
  | create name config source => exact hc.insertNode name config source
  | @place parent child new accepted clear =>
      obtain ⟨m, n, attached⟩ := attached_of_ok accepted
      obtain ⟨k, hk, hparent, -⟩ := new
      rw [attached.child_found] at hk
      cases hk
      exact attached.housed signed hparent clear hc

end Catalog

end SchemaCatalog
