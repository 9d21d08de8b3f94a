import SchemaCatalog.Catalog.Attach
import Mathlib.Data.List.Nodup
import Mathlib.Data.List.Perm.Subperm
import Mathlib.Logic.Relation

/-!
The two kinds of links in a catalog: a node lists its children by name, and each node names its
parent. Neither says anything about the other, and the walk to the ancestors of a node sees parents
only.
-/

namespace SchemaCatalog

open Relation (ReflTransGen TransGen)

theorem bind_eq_ok_iff {ε α β : Type} {x : Except ε α} {step : α → Except ε β} {b : β} :
    x >>= step = .ok b ↔ ∃ a, x = .ok a ∧ step a = .ok b := by
  cases x <;> simp [bind, Except.bind]

/-! ### What a node is besides its tables -/

namespace Node

/-- A node without the tables that it sees and the time of its last refresh. -/
def bare (n : Node) : Node :=
  { n with directory := {}, refreshedAt := none }

@[simp] theorem bare_register (n : Node) (name : String) (owner : NodeId) (t : Table) :
    (n.register name owner t).bare = n.bare := rfl

@[simp] theorem bare_unregister (n : Node) (name : String) :
    (n.unregister name).bare = n.bare := rfl

@[simp] theorem bare_stamp (n : Node) (now : Instant) : (n.stamp now).bare = n.bare := rfl

theorem bare_foldl {α : Type} {step : Node → α → Node} (h : ∀ n a, (step n a).bare = n.bare)
    (l : List α) (n : Node) : (l.foldl step n).bare = n.bare := by
  induction l generalizing n with
  | nil => rfl
  | cons a l ih => rw [List.foldl_cons, ih, h]

@[simp] theorem bare_absorb (n child : Node) : (n.absorb child).bare = n.bare := by
  refine bare_foldl (fun n name => ?_) _ n
  split
  · rfl
  · split <;> simp

@[simp] theorem bare_mergeChild (n child : Node) : (n.mergeChild child).bare = n.bare := by
  refine bare_foldl (fun n entry => ?_) _ n
  rw [bare_register]

variable {m n : Node}

theorem id_eq_of_bare (h : m.bare = n.bare) : m.id = n.id := congrArg (·.id) h

theorem name_eq_of_bare (h : m.bare = n.bare) : m.name = n.name := congrArg (·.name) h

theorem parent_eq_of_bare (h : m.bare = n.bare) : m.parent = n.parent := congrArg (·.parent) h

theorem children_eq_of_bare (h : m.bare = n.bare) : m.children = n.children :=
  congrArg (·.children) h

theorem source_eq_of_bare (h : m.bare = n.bare) : m.source = n.source := congrArg (·.source) h

theorem allows_eq_of_bare (h : m.bare = n.bare) : m.allows = n.allows := by
  show m.bare.allows = n.bare.allows
  rw [h]

end Node

namespace Catalog

def bareNodes (c : Catalog) : List Node :=
  c.nodes.map Node.bare

theorem node?_of_bareNodes {c d : Catalog} (h : d.bareNodes = c.bareNodes) {id : NodeId} {n : Node}
    (found : d.node? id = some n) : ∃ m, c.node? id = some m ∧ m.bare = n.bare := by
  have hbare : c.bareNodes[id.index]? = some n.bare := by
    rw [← h, bareNodes, List.getElem?_map]
    exact congrArg (Option.map Node.bare) found
  rw [bareNodes, List.getElem?_map] at hbare
  exact Option.map_eq_some_iff.mp hbare

theorem node?_cases_of_bareNodes {c d : Catalog} (h : d.bareNodes = c.bareNodes) (id : NodeId) :
    (c.node? id = none ∧ d.node? id = none) ∨
      ∃ n n', c.node? id = some n ∧ d.node? id = some n' ∧ n'.bare = n.bare := by
  cases found : c.node? id with
  | some n =>
      obtain ⟨n', found', hbare⟩ := node?_of_bareNodes h.symm found
      exact .inr ⟨n, n', rfl, found', hbare⟩
  | none =>
      refine .inl ⟨rfl, Option.eq_none_iff_forall_ne_some.mpr fun n' found' => ?_⟩
      obtain ⟨n, hn, -⟩ := node?_of_bareNodes h found'
      rw [found] at hn
      cases hn

theorem length_of_bareNodes {c d : Catalog} (h : d.bareNodes = c.bareNodes) :
    d.nodes.length = c.nodes.length := by
  simpa [bareNodes] using congrArg List.length h

@[simp] theorem bareNodes_log (c : Catalog) (level : Level) (message : String) :
    (c.log level message).bareNodes = c.bareNodes := rfl

theorem bareNodes_modify (c : Catalog) (id : NodeId) {change : Node → Node}
    (h : ∀ n, (change n).bare = n.bare) : (c.modify id change).bareNodes = c.bareNodes := by
  refine List.ext_getElem? fun i => ?_
  by_cases hi : id.index = i <;>
    simp [bareNodes, modify, hi, Function.comp_def, h]

theorem index_lt_of_node? {c : Catalog} {id : NodeId} {n : Node} (h : c.node? id = some n) :
    id.index < c.nodes.length :=
  (List.getElem?_eq_some_iff.mp h).1

/-! ### Links -/

/-- A node lists another among its children. -/
def Lists (c : Catalog) (parent child : NodeId) : Prop :=
  ∃ n name, c.node? parent = some n ∧ n.children.get? name = some child

/-- A node names another as its parent. -/
def Under (c : Catalog) (child parent : NodeId) : Prop :=
  ∃ n, c.node? child = some n ∧ n.parent = some parent

theorem lists_of_bareNodes {c d : Catalog} (h : d.bareNodes = c.bareNodes) : d.Lists = c.Lists := by
  have one_way {c d : Catalog} (h : d.bareNodes = c.bareNodes) {p q : NodeId}
      (hl : d.Lists p q) : c.Lists p q := by
    obtain ⟨n, name, found, listed⟩ := hl
    obtain ⟨m, hm, hbare⟩ := node?_of_bareNodes h found
    exact ⟨m, name, hm, Node.children_eq_of_bare hbare ▸ listed⟩
  funext p q
  exact propext ⟨one_way h, one_way h.symm⟩

theorem under_of_bareNodes {c d : Catalog} (h : d.bareNodes = c.bareNodes) : d.Under = c.Under := by
  have one_way {c d : Catalog} (h : d.bareNodes = c.bareNodes) {p q : NodeId}
      (hu : d.Under p q) : c.Under p q := by
    obtain ⟨n, found, above⟩ := hu
    obtain ⟨m, hm, hbare⟩ := node?_of_bareNodes h found
    exact ⟨m, hm, Node.parent_eq_of_bare hbare ▸ above⟩
  funext p q
  exact propext ⟨one_way h, one_way h.symm⟩

/-- No node comes back to itself by child links. -/
def Acyclic (c : Catalog) : Prop :=
  ∀ id, ¬ TransGen c.Lists id id

/-- No node that `id` leads to comes back to itself by child links. -/
def AcyclicBelow (c : Catalog) (id : NodeId) : Prop :=
  ∀ x, ReflTransGen c.Lists id x → ¬ TransGen c.Lists x x

theorem Acyclic.below {c : Catalog} (h : c.Acyclic) (id : NodeId) : c.AcyclicBelow id :=
  fun x _ => h x

/-- Every node lists later nodes only. -/
def ascending (c : Catalog) : Bool :=
  c.nodes.zipIdx.all fun (n, i) => n.children.entries.all fun entry => i < entry.2.index

theorem acyclic_of_ascending {c : Catalog} (h : c.ascending) : c.Acyclic := by
  have later {p q : NodeId} (listed : c.Lists p q) : p.index < q.index := by
    obtain ⟨n, name, found, hchild⟩ := listed
    have here := List.all_eq_true.mp h (n, p.index) (List.mk_mem_zipIdx_iff_getElem?.mpr found)
    simpa using List.all_eq_true.mp here (name, q) (NameMap.get?_eq_some_iff.mp hchild)
  have after {p q : NodeId} (hway : TransGen c.Lists p q) : p.index < q.index := by
    induction hway with
    | single listed => exact later listed
    | tail _ listed ih => exact Nat.lt_trans ih (later listed)
  exact fun id hway => Nat.lt_irrefl _ (after hway)

theorem AcyclicBelow.of_bareNodes {c d : Catalog} {id : NodeId} (same : d.bareNodes = c.bareNodes)
    (h : c.AcyclicBelow id) : d.AcyclicBelow id := by
  unfold AcyclicBelow
  rwa [lists_of_bareNodes same]

theorem AcyclicBelow.child {c : Catalog} {id child : NodeId} (h : c.AcyclicBelow id)
    (listed : c.Lists id child) : c.AcyclicBelow child :=
  fun x hx => h x (.head listed hx)

theorem exists_lists_of_cycle {c : Catalog} {id : NodeId} (h : ¬ c.AcyclicBelow id) :
    ∃ child, c.Lists id child ∧ ¬ c.AcyclicBelow child := by
  obtain ⟨x, hway, hcycle⟩ : ∃ x, ReflTransGen c.Lists id x ∧ TransGen c.Lists x x := by
    simpa [AcyclicBelow] using h
  rcases ReflTransGen.cases_head hway with rfl | ⟨child, listed, hrest⟩
  · obtain ⟨child, listed, hback⟩ := TransGen.head'_iff.mp hcycle
    exact ⟨child, listed, fun acyclic => acyclic id hback hcycle⟩
  · exact ⟨child, listed, fun acyclic => acyclic x hrest hcycle⟩

/-! ### The walk to the ancestors -/

theorem length_le_of_nodup {ids : List NodeId} {bound : Nat} (distinct : ids.Nodup)
    (inside : ∀ id ∈ ids, id.index < bound) : ids.length ≤ bound := by
  have hmap : (ids.map (·.index)).Nodup := by
    refine List.Nodup.map ?_ distinct
    rintro ⟨i⟩ ⟨j⟩ h
    exact congrArg NodeId.mk h
  have hsub : ids.map (·.index) ⊆ List.range bound := by
    intro i hi
    obtain ⟨id, hid, rfl⟩ := List.mem_map.mp hi
    exact List.mem_range.mpr (inside id hid)
  simpa using (List.subperm_of_subset hmap hsub).length_le

/-- What a walk has found: the nodes of a chain that begins at `id`, of which all parents lie in the
chain except the one to be visited next. -/
structure Walked (c : Catalog) (id : NodeId) (chain : List NodeId) (next : Option NodeId) :
    Prop where
  distinct : chain.Nodup
  begun : id ∈ chain
  live : ∀ x ∈ chain, ∃ n, c.get x = .ok n
  reached : ∀ x ∈ chain, ReflTransGen c.Under id x
  ahead : ∀ y, next = some y → ReflTransGen c.Under id y
  closed : ∀ x ∈ chain, ∀ y, c.Under x y → y ∈ chain ∨ next = some y

namespace Walked

variable {c : Catalog} {id : NodeId} {chain : List NodeId}

theorem start {n : Node} (h : c.get id = .ok n) : Walked c id [id] n.parent where
  distinct := by simp
  begun := by simp
  live x hx := ⟨n, List.mem_singleton.mp hx ▸ h⟩
  reached x hx := List.mem_singleton.mp hx ▸ .refl
  ahead y hy := .single ⟨n, node?_of_get h, hy⟩
  closed x hx y hxy := by
    obtain ⟨m, hm, hy⟩ := hxy
    rw [List.mem_singleton.mp hx, node?_of_get h] at hm
    cases hm
    exact .inr hy

theorem visit {next : NodeId} {n : Node} (h : Walked c id chain (some next)) (new : next ∉ chain)
    (found : c.get next = .ok n) : Walked c id (chain ++ [next]) n.parent where
  distinct := by
    rw [List.nodup_append]
    refine ⟨h.distinct, by simp, ?_⟩
    rintro x hx y hy rfl
    exact new (List.mem_singleton.mp hy ▸ hx)
  begun := List.mem_append_left _ h.begun
  live x hx := by
    rcases List.mem_append.mp hx with hx | hx
    · exact h.live x hx
    · exact ⟨n, List.mem_singleton.mp hx ▸ found⟩
  reached x hx := by
    rcases List.mem_append.mp hx with hx | hx
    · exact h.reached x hx
    · exact h.ahead x (congrArg some (List.mem_singleton.mp hx).symm)
  ahead y hy := (h.ahead next rfl).tail ⟨n, node?_of_get found, hy⟩
  closed x hx y hxy := by
    rcases List.mem_append.mp hx with hx | hx
    · rcases h.closed x hx y hxy with hy | hy
      · exact .inl (List.mem_append_left _ hy)
      · cases hy
        exact .inl (by simp)
    · obtain ⟨m, hm, hy⟩ := hxy
      rw [List.mem_singleton.mp hx, node?_of_get found] at hm
      cases hm
      exact .inr hy

/-- The walk ends where it meets a node of the chain again. -/
theorem meet {next : NodeId} (h : Walked c id chain (some next)) (old : next ∈ chain) :
    Walked c id chain none :=
  { h with
    ahead := fun _ hy => nomatch hy
    closed := by
      intro x hx y hxy
      rcases h.closed x hx y hxy with hy | hy
      · exact .inl hy
      · cases hy
        exact .inl old }

theorem length_le {next : Option NodeId} (h : Walked c id chain next) :
    chain.length ≤ c.nodes.length := by
  refine length_le_of_nodup h.distinct fun x hx => ?_
  obtain ⟨n, hn⟩ := h.live x hx
  exact index_lt_of_node? (node?_of_get hn)

theorem mem_iff (h : Walked c id chain none) (x : NodeId) :
    x ∈ chain ↔ ReflTransGen c.Under id x := by
  refine ⟨h.reached x, fun hx => ?_⟩
  induction hx with
  | refl => exact h.begun
  | tail _ hyz ih => exact (h.closed _ ih _ hyz).resolve_right nofun

end Walked

variable {c : Catalog}

/-- The walk is never cut short: the steps that it has left and the nodes that it has met always
exceed the nodes that there are. -/
theorem chainFrom_walked {id : NodeId} {steps : Nat} {chain l : List NodeId} {next : Option NodeId}
    (h : c.chainFrom steps chain next = .ok l) (walked : Walked c id chain next)
    (enough : c.nodes.length < steps + chain.length) : Walked c id l none := by
  fun_induction chainFrom c steps chain next with
  | case1 =>
      cases h
      exact walked
  | case2 =>
      have := walked.length_le
      omega
  | case3 steps chain next met =>
      cases h
      exact walked.meet (List.contains_iff_mem.mp met)
  | case4 steps chain next met ih =>
      obtain ⟨n, found, h⟩ := bind_eq_ok_iff.mp h
      have new : next ∉ chain := fun hmem => met (List.contains_iff_mem.mpr hmem)
      refine ih n h (walked.visit new found) ?_
      rw [List.length_append, List.length_singleton]
      omega

theorem ancestors_walked {id : NodeId} {l : List NodeId} (h : c.ancestors id = .ok l) :
    Walked c id l none := by
  obtain ⟨n, found, h⟩ := bind_eq_ok_iff.mp h
  exact chainFrom_walked h (.start found) (by simp)

theorem mem_ancestors_iff {id : NodeId} {l : List NodeId} (h : c.ancestors id = .ok l)
    (x : NodeId) : x ∈ l ↔ ReflTransGen c.Under id x :=
  (ancestors_walked h).mem_iff x

theorem ancestors_eq_ok {id : NodeId} {n : Node} (found : c.get id = .ok n)
    (parents : ∀ x m y, c.get x = .ok m → m.parent = some y → ∃ k, c.get y = .ok k) :
    ∃ l, c.ancestors id = .ok l := by
  have walk (steps : Nat) (chain : List NodeId) (next : Option NodeId)
      (live : ∀ y, next = some y → ∃ k, c.get y = .ok k) :
      ∃ l, c.chainFrom steps chain next = .ok l := by
    fun_induction chainFrom c steps chain next with
    | case1 => exact ⟨_, rfl⟩
    | case2 => exact ⟨_, rfl⟩
    | case3 => exact ⟨_, rfl⟩
    | case4 chain steps next met ih =>
        obtain ⟨k, hk⟩ := live next rfl
        obtain ⟨l, hl⟩ := ih k fun y hy => parents next k y hk hy
        exact ⟨l, bind_eq_ok_iff.mpr ⟨k, hk, hl⟩⟩
  obtain ⟨l, hl⟩ := walk c.nodes.length [id] n.parent fun y hy => parents id n y found hy
  exact ⟨l, bind_eq_ok_iff.mpr ⟨n, found, hl⟩⟩

/-! ### Reports -/

end Catalog

/-- The report that a node has been attached. -/
def LogEntry.isAttachment (e : LogEntry) : Bool :=
  "attached schema ".toList.isPrefixOf e.message.toList

namespace Catalog

/-- How many attachments have been reported. -/
def attachments (c : Catalog) : Nat :=
  c.journal.countP (·.isAttachment)

theorem attachments_log_other (c : Catalog) {level : Level} {message : String}
    (other : (LogEntry.mk level message).isAttachment = false) :
    (c.log level message).attachments = c.attachments := by
  simp [attachments, log, List.countP_append, other]

end Catalog

end SchemaCatalog
