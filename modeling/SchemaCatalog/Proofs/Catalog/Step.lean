import SchemaCatalog.Proofs.Catalog.Drop

/-!
The steps that a catalog takes. Operations are made of them: most leave all links as they are, the
others create a node or attach one.
-/

namespace SchemaCatalog.Catalog

open Relation (ReflTransGen)

/-! ### Creation -/

@[simp] theorem nodes_insertNode (c : Catalog) (name : String) (config : Option SourceConfig)
    (source : Option SourceId) :
    (c.insertNode name config source).2.nodes = c.nodes ++
      [{ id := ⟨c.nodes.length⟩, name := Text.lowercase name, config, source,
         window := c.window }] := rfl

@[simp] theorem released_insertNode (c : Catalog) (name : String) (config : Option SourceConfig)
    (source : Option SourceId) : (c.insertNode name config source).2.released = c.released := rfl

theorem node?_insertNode {c : Catalog} {name : String} {config : Option SourceConfig}
    {source : Option SourceId} {id : NodeId} {n : Node}
    (h : (c.insertNode name config source).2.node? id = some n) :
    c.node? id = some n ∨ id = ⟨c.nodes.length⟩ ∧ n.id = id ∧ n.parent = none ∧ n.children = ∅ ∧
      n.directory = {} := by
  rw [node?, nodes_insertNode, List.getElem?_append] at h
  split at h
  · exact .inl h
  · rename_i hid
    rw [List.getElem?_singleton] at h
    split at h
    · rename_i hzero
      cases h
      have hlast : id = ⟨c.nodes.length⟩ := congrArg NodeId.mk (by omega)
      exact .inr ⟨hlast, hlast.symm, rfl, rfl, rfl⟩
    · cases h

theorem node?_insertNode_of_some {c : Catalog} {name : String} {config : Option SourceConfig}
    {source : Option SourceId} {id : NodeId} {n : Node} (h : c.node? id = some n) :
    (c.insertNode name config source).2.node? id = some n := by
  rw [node?, nodes_insertNode, List.getElem?_append_left (index_lt_of_node? h)]
  exact h

theorem attachments_insertNode (c : Catalog) (name : String) (config : Option SourceConfig)
    (source : Option SourceId) :
    (c.insertNode name config source).2.attachments = c.attachments :=
  attachments_log_other _ (by simp [LogEntry.isAttachment, toString, List.isPrefixOf])

/-! ### Attachment -/

/-- What an attachment that is carried out finds, and what it leaves. -/
structure Attached (c : Catalog) (parent child : NodeId) (m n : Node) (d : Catalog) : Prop where
  parent_live : c.get parent = .ok m
  child_live : c.get child = .ok n
  not_above : ¬ ReflTransGen c.Under parent child
  released : d.released = c.released
  length : d.nodes.length = c.nodes.length
  node? : ∀ id, d.node? id =
    if id = parent then some ({ m with children := m.children.insert n.name child }.mergeChild n)
    else if id = child then some { n with parent := some parent }
    else c.node? id

theorem Attached.parent_found {c d : Catalog} {parent child : NodeId} {m n : Node}
    (h : Attached c parent child m n d) : c.node? parent = some m :=
  node?_of_get h.parent_live

theorem Attached.child_found {c d : Catalog} {parent child : NodeId} {m n : Node}
    (h : Attached c parent child m n d) : c.node? child = some n :=
  node?_of_get h.child_live

theorem Attached.ne {c d : Catalog} {parent child : NodeId} {m n : Node}
    (h : Attached c parent child m n d) : child ≠ parent := by
  rintro rfl
  exact h.not_above .refl

theorem Attached.node?_parent {c d : Catalog} {parent child : NodeId} {m n : Node}
    (h : Attached c parent child m n d) : d.node? parent =
      some ({ m with children := m.children.insert n.name child }.mergeChild n) := by
  rw [h.node?, if_pos rfl]

theorem Attached.node?_child {c d : Catalog} {parent child : NodeId} {m n : Node}
    (h : Attached c parent child m n d) :
    d.node? child = some { n with parent := some parent } := by
  rw [h.node?, if_neg h.ne, if_pos rfl]

theorem Attached.node?_of_ne {c d : Catalog} {parent child id : NodeId} {m n : Node}
    (h : Attached c parent child m n d) (hp : id ≠ parent) (hq : id ≠ child) :
    d.node? id = c.node? id := by
  rw [h.node?, if_neg hp, if_neg hq]

/-- An attachment is carried out when both nodes are live and the child is not among the ancestors
of the parent. -/
theorem attached_of_ok {c : Catalog} {parent child : NodeId}
    (h : (c.attach parent child).1 = .ok ()) :
    ∃ m n, Attached c parent child m n (c.attach parent child).2 := by
  unfold attach at h ⊢
  simp only at h ⊢
  split at h
  · cases h
  rename_i checked m n hchecked
  obtain ⟨m', hm, hchecked⟩ := bind_eq_ok_iff.mp hchecked
  obtain ⟨n', hn, hchecked⟩ := bind_eq_ok_iff.mp hchecked
  obtain ⟨above, habove, hchecked⟩ := bind_eq_ok_iff.mp hchecked
  split at hchecked
  · cases hchecked
  rename_i hnot
  cases hchecked
  have hunder : ¬ ReflTransGen c.Under parent child := by
    rw [← mem_ancestors_iff habove]
    exact fun hmem => hnot (List.contains_iff_mem.mpr hmem)
  have hne : child ≠ parent := by
    rintro rfl
    exact hunder .refl
  have hmfound := node?_of_get hm
  have hnfound := node?_of_get hn
  refine ⟨m, n, hm, hn, hunder, by simp, by simp, fun id => ?_⟩
  show ((c.modify parent _).modify child _).node? id = _
  rw [node?_modify, node?_modify]
  by_cases hp : id = parent
  · subst hp
    simp [hne, hmfound]
  · by_cases hq : id = child
    · subst hq
      simp [Ne.symm hp, hp, hnfound]
    · simp [Ne.symm hp, Ne.symm hq, hp, hq]

theorem attachments_attach_of_ok {c : Catalog} {parent child : NodeId}
    (h : (c.attach parent child).1 = .ok ()) :
    (c.attach parent child).2.attachments = c.attachments + 1 := by
  unfold attach at h ⊢
  simp only at h ⊢
  split at h
  · cases h
  · simp [attachments, log, modify, List.countP_append, LogEntry.isAttachment, toString,
      List.isPrefixOf]

theorem attach_of_error {c : Catalog} {parent child : NodeId}
    (h : (c.attach parent child).1 ≠ .ok ()) : (c.attach parent child).2 = c := by
  unfold attach at h ⊢
  simp only at h ⊢
  split at h
  · rfl
  · exact absurd rfl h

/-- How the links of a node look after an attachment. -/
structure Relinked (parent child : NodeId) (name : String) (id : NodeId) (k k' : Node) : Prop where
  id_eq : k'.id = k.id
  name_eq : k'.name = k.name
  parent_eq : k'.parent = if id = child then some parent else k.parent
  children_eq : k'.children = if id = parent then k.children.insert name child else k.children

namespace Attached

variable {c d : Catalog} {parent child : NodeId} {m n : Node}

theorem relinked (h : Attached c parent child m n d) {id : NodeId} {k : Node}
    (found : c.node? id = some k) :
    ∃ k', d.node? id = some k' ∧ Relinked parent child n.name id k k' := by
  by_cases hp : id = parent
  · subst hp
    rw [h.parent_found] at found
    cases found
    obtain ⟨m', hm', same⟩ : ∃ m', d.node? id = some m' ∧
        m'.bare = { m with children := m.children.insert n.name child }.bare :=
      ⟨_, h.node?_parent, Node.bare_mergeChild _ _⟩
    refine ⟨m', hm', congrArg (·.id) same, congrArg (·.name) same, ?_, ?_⟩
    · exact (congrArg (·.parent) same).trans (if_neg (Ne.symm h.ne)).symm
    · exact (congrArg (·.children) same).trans (if_pos rfl).symm
  · by_cases hq : id = child
    · subst hq
      rw [h.child_found] at found
      cases found
      refine ⟨{ n with parent := some parent }, h.node?_child, rfl, rfl, ?_, ?_⟩
      · rw [if_pos rfl]
      · rw [if_neg hp]
    · refine ⟨k, (h.node?_of_ne hp hq).trans found, rfl, rfl, ?_, ?_⟩
      · rw [if_neg hq]
      · rw [if_neg hp]

theorem of_relinked (h : Attached c parent child m n d) {id : NodeId} {k' : Node}
    (found : d.node? id = some k') :
    ∃ k, c.node? id = some k ∧ Relinked parent child n.name id k k' := by
  have hlt := index_lt_of_node? found
  rw [h.length] at hlt
  have old : c.node? id = some c.nodes[id.index] := List.getElem?_eq_getElem hlt
  obtain ⟨k, hk, relinked⟩ := h.relinked old
  rw [found] at hk
  cases hk
  exact ⟨_, old, relinked⟩

end Attached

/-! ### Steps -/

/-- Steps of a refresh. Besides reports and a shutdown they write to nodes within reach only: tables
are discovered, and what children see is taken over. -/
inductive Sweep (within : NodeId → Prop) : Catalog → Catalog → Prop where
  | log {c : Catalog} {level : Level} {message : String}
      (other : (LogEntry.mk level message).isAttachment = false) :
      Sweep within c (c.log level message)
  | shutdown {c : Catalog} : Sweep within c c.shutdown
  | discover {c : Catalog} {id : NodeId} {n : Node} (inside : within id) (listed : String)
      (t : Table) (found : c.node? id = some n) (unknown : n.knows (Text.lowercase listed) = false)
      (allowed : n.allows (Text.lowercase listed)) :
      Sweep within c
        (c.modify n.id (·.register (Text.lowercase listed) n.id (n.adopt listed t)))
  | absorb {c : Catalog} {id child : NodeId} {m n : Node} {name : String} (inside : within id)
      (found : c.node? id = some m) (listed : m.children.get? name = some child)
      (below : c.node? child = some n) : Sweep within c (c.modify id (·.absorb n))
  | stamp {c : Catalog} {id : NodeId} (inside : within id) (now : Instant) :
      Sweep within c (c.modify id (·.stamp now))

abbrev Sweeps (within : NodeId → Prop) : Catalog → Catalog → Prop := ReflTransGen (Sweep within)

/-- Steps that leave all links as they are: those of a refresh, tables that are added by hand or
loaded on demand, and drops. -/
inductive Touch : Catalog → Catalog → Prop where
  | sweep {within : NodeId → Prop} {c d : Catalog} (h : Sweep within c d) : Touch c d
  | addTable {c : Catalog} (id : NodeId) (t : Table) : Touch c (c.addTable id t)
  | demand {c : Catalog} {id : NodeId} {n : Node} {e : CatalogError} (name listed : String)
      (t : Table) (found : c.node? id = some n) (missed : n.table name = .error e)
      (allowed : n.allows (Node.plainName name))
      (spelled : listed = Node.plainName name ∨ Text.sameAsciiCase listed (Node.plainName name)) :
      Touch c (c.modify n.id (·.register (Text.lowercase listed) n.id (n.adopt listed t)))
  | drop {c : Catalog} (id : NodeId) (name : String) : Touch c (c.drop id name).2

theorem Touch.log {c : Catalog} {level : Level} {message : String}
    (other : (LogEntry.mk level message).isAttachment = false) : Touch c (c.log level message) :=
  .sweep (.log other : Sweep (fun _ => False) c _)

theorem Touch.shutdown {c : Catalog} : Touch c c.shutdown :=
  .sweep (.shutdown : Sweep (fun _ => False) c _)

abbrev Touches : Catalog → Catalog → Prop := ReflTransGen Touch

theorem bareNodes_addTable (c : Catalog) (id : NodeId) (t : Table) :
    (c.addTable id t).bareNodes = c.bareNodes := by
  unfold addTable
  split
  · rfl
  · rw [bareNodes_modify _ _ fun n => n.bare_register _ _ _, bareNodes_log]

@[simp] theorem released_addTable (c : Catalog) (id : NodeId) (t : Table) :
    (c.addTable id t).released = c.released := by
  unfold addTable
  split <;> rfl

theorem Sweep.bareNodes {within : NodeId → Prop} {c d : Catalog} (h : Sweep within c d) :
    d.bareNodes = c.bareNodes := by
  cases h with
  | log => rfl
  | shutdown => rfl
  | discover => exact bareNodes_modify _ _ fun n => n.bare_register _ _ _
  | absorb => exact bareNodes_modify _ _ fun n => n.bare_absorb _
  | stamp => exact bareNodes_modify _ _ fun n => n.bare_stamp _

theorem Touch.bareNodes {c d : Catalog} (h : Touch c d) : d.bareNodes = c.bareNodes := by
  cases h with
  | sweep h => exact h.bareNodes
  | addTable id t => exact bareNodes_addTable c id t
  | demand => exact bareNodes_modify _ _ fun n => n.bare_register _ _ _
  | drop id name => exact (erasures_drop c id name).bareNodes

/-- A step releases every node or none. -/
theorem Touch.released {c d : Catalog} (h : Touch c d) :
    d.released = c.released ∨ d.released = c.nodes.length := by
  cases h with
  | sweep h =>
      cases h with
      | shutdown => exact .inr rfl
      | _ => exact .inl rfl
  | addTable id t => exact .inl (released_addTable c id t)
  | demand => exact .inl rfl
  | drop id name => exact .inl (erasures_drop c id name).released

theorem attachments_shutdown (c : Catalog) : c.shutdown.attachments = c.attachments :=
  attachments_log_other _ (by simp [LogEntry.isAttachment, toString, List.isPrefixOf])

theorem attachments_addTable (c : Catalog) (id : NodeId) (t : Table) :
    (c.addTable id t).attachments = c.attachments := by
  unfold addTable
  split
  · rfl
  · exact attachments_log_other _ (by simp [LogEntry.isAttachment, toString, List.isPrefixOf])

theorem Touch.attachments {c d : Catalog} (h : Touch c d) : d.attachments = c.attachments := by
  cases h with
  | sweep h =>
      cases h with
      | log other => exact attachments_log_other _ other
      | shutdown => exact attachments_shutdown c
      | _ => rfl
  | addTable id t => exact attachments_addTable c id t
  | demand => rfl
  | drop id name => exact (erasures_drop c id name).attachments

theorem Sweeps.touches {within : NodeId → Prop} {c d : Catalog} (h : Sweeps within c d) :
    Touches c d :=
  ReflTransGen.mono (fun _ _ hstep => Touch.sweep hstep) c d h

theorem Touches.bareNodes {c d : Catalog} (h : Touches c d) : d.bareNodes = c.bareNodes := by
  induction h with
  | refl => rfl
  | tail _ hstep ih => rw [hstep.bareNodes, ih]

theorem Touches.listed {c d : Catalog} (h : Touches c d) {id : NodeId} {n : Node}
    {entry : String × NodeId} (found : c.node? id = some n) (hentry : entry ∈ n.children.entries) :
    ∃ m, d.node? id = some m ∧ m.children.get? entry.1 = some entry.2 := by
  obtain ⟨m, hm, hbare⟩ := node?_of_bareNodes h.bareNodes.symm found
  refine ⟨m, hm, ?_⟩
  rw [Node.children_eq_of_bare hbare]
  exact NameMap.get?_eq_some_iff.mpr hentry

/-- A node that has never been attached and under which none has been attached. -/
def Unlinked (c : Catalog) (id : NodeId) : Prop :=
  ∃ n, c.node? id = some n ∧ n.parent = none ∧ n.children = ∅

/-- The child sees nothing under the names of the tables that the parent owns itself. -/
def Clear (c : Catalog) (parent child : NodeId) : Prop :=
  ∀ m n name, c.node? parent = some m → c.node? child = some n →
    m.directory.owners.get? name = some parent → n.directory.tables.get? name = none

/-- Steps of every operation except an attachment that a caller asks for. The attachments among
them put nodes in place that have no links yet, and replace no table that the parent owns. -/
inductive Step : Catalog → Catalog → Prop where
  | touch {c d : Catalog} (h : Touch c d) : Step c d
  | create {c : Catalog} (name : String) (config : Option SourceConfig)
      (source : Option SourceId) : Step c (c.insertNode name config source).2
  | place {c : Catalog} {parent child : NodeId} (new : c.Unlinked child)
      (accepted : (c.attach parent child).1 = .ok ()) (clear : c.Clear parent child) :
      Step c (c.attach parent child).2

abbrev Steps : Catalog → Catalog → Prop := ReflTransGen Step

theorem Touches.steps {c d : Catalog} (h : Touches c d) : Steps c d :=
  ReflTransGen.mono (fun _ _ hstep => Step.touch hstep) c d h

theorem Steps.keep {I : Catalog → Prop} (step : ∀ {c d : Catalog}, Step c d → I c → I d)
    {c d : Catalog} (h : Steps c d) (hc : I c) : I d := by
  induction h with
  | refl => exact hc
  | tail _ hstep ih => exact step hstep ih

/-- A node as it is created. -/
def Fresh (c : Catalog) (id : NodeId) : Prop :=
  ∃ n, c.node? id = some n ∧ n.id = id ∧ n.parent = none ∧ n.children = ∅ ∧ n.directory = {}

theorem fresh_insertNode (c : Catalog) (name : String) (config : Option SourceConfig)
    (source : Option SourceId) :
    (c.insertNode name config source).2.Fresh (c.insertNode name config source).1 :=
  ⟨_, List.getElem?_concat_length, rfl, rfl, rfl, rfl⟩

theorem Fresh.unlinked {c : Catalog} {id : NodeId} (h : c.Fresh id) : c.Unlinked id := by
  obtain ⟨n, found, -, hparent, hchildren, -⟩ := h
  exact ⟨n, found, hparent, hchildren⟩

theorem Fresh.clear {c : Catalog} {id : NodeId} (h : c.Fresh id) (parent : NodeId) :
    c.Clear parent id := by
  obtain ⟨n, found, -, -, -, hempty⟩ := h
  intro m k name _ hk _
  rw [found] at hk
  cases hk
  rw [hempty]
  rfl

end SchemaCatalog.Catalog
