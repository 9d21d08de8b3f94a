import Mathlib.Data.List.Nodup
import Mathlib.Logic.Relation
import SchemaCatalog.Proofs.Catalog.Run

/-!
Trees of nodes as they are to be built, and the two orders in which they are built: from the leaves
up, where each node is refreshed before it is attached, and from the root down, where a single
refresh comes after all attachments.
-/

namespace SchemaCatalog

open Relation (ReflTransGen TransGen)

/-- Trees of nodes side by side: what stands below the first root, and the trees beside it. -/
inductive Grove where
  | bare
  | plant (root : NodeId) (below beside : Grove)

namespace Grove

def nodes : Grove → List NodeId
  | bare => []
  | plant root below beside => root :: (below.nodes ++ beside.nodes)

/-- Each node with its parent, which for the roots is given. -/
def links (parent : NodeId) : Grove → List (NodeId × NodeId)
  | bare => []
  | plant root below beside => (parent, root) :: (below.links root ++ beside.links parent)

/-- The first of the pair is to list the second. -/
def Joins (g : Grove) (parent p q : NodeId) : Prop :=
  (p, q) ∈ g.links parent

variable {g : Grove} {parent p q z : NodeId}

theorem joins_plant {root : NodeId} {below beside : Grove} :
    (plant root below beside).Joins parent p q ↔
      (p = parent ∧ q = root) ∨ below.Joins root p q ∨ beside.Joins parent p q := by
  simp only [Joins, links, List.mem_cons, List.mem_append, Prod.mk.injEq]

/-! ### Order -/

/-- In the list of all nodes every parent comes before its children. -/
theorem Joins.sublist (h : g.Joins parent p q) : [p, q].Sublist (parent :: g.nodes) := by
  induction g generalizing parent with
  | bare => cases h
  | plant root below beside ihBelow ihBeside =>
      rw [nodes]
      rcases joins_plant.mp h with ⟨rfl, rfl⟩ | inner | outer
      · exact ((List.nil_sublist _).cons_cons q).cons_cons p
      · have first : [p, q].Sublist (root :: below.nodes) := ihBelow inner
        exact (first.trans ((List.sublist_append_left _ _).cons_cons root)).cons parent
      · refine (ihBeside outer).trans (List.Sublist.cons_cons parent ?_)
        exact (List.sublist_append_right _ _).cons root

theorem Joins.mem (h : g.Joins parent p q) : p ∈ parent :: g.nodes ∧ q ∈ parent :: g.nodes :=
  ⟨h.sublist.subset (by simp), h.sublist.subset (by simp)⟩

theorem idxOf_lt_of_sublist {l : List NodeId} (distinct : l.Nodup) (h : [p, q].Sublist l) :
    l.idxOf p < l.idxOf q := by
  induction l with
  | nil => cases h
  | cons a l ih =>
      obtain ⟨fresh, distinct⟩ := List.nodup_cons.mp distinct
      have ne {x : NodeId} (hx : x ∈ l) : a ≠ x := by
        rintro rfl
        exact fresh hx
      cases h with
      | cons _ h =>
          rw [List.idxOf_cons_ne _ (ne (h.subset (by simp))),
            List.idxOf_cons_ne _ (ne (h.subset (by simp)))]
          exact Nat.succ_lt_succ (ih distinct h)
      | cons_cons _ h =>
          rw [List.idxOf_cons_self, List.idxOf_cons_ne _ (ne (h.subset (by simp)))]
          exact Nat.succ_pos _

theorem not_transGen_joins (distinct : (parent :: g.nodes).Nodup) (z : NodeId) :
    ¬ TransGen (g.Joins parent) z z := by
  have ascends {x y : NodeId} (h : TransGen (g.Joins parent) x y) :
      (parent :: g.nodes).idxOf x < (parent :: g.nodes).idxOf y := by
    induction h with
    | single h => exact idxOf_lt_of_sublist distinct h.sublist
    | tail _ h ih => exact ih.trans (idxOf_lt_of_sublist distinct h.sublist)
  exact fun h => Nat.lt_irrefl _ (ascends h)

theorem reflTransGen_joins (h : z ∈ parent :: g.nodes) : ReflTransGen (g.Joins parent) parent z := by
  induction g generalizing parent with
  | bare =>
      rw [nodes, List.mem_singleton] at h
      rw [h]
  | plant root below beside ihBelow ihBeside =>
      have inner {x y : NodeId} (hway : ReflTransGen (below.Joins root) x y) :
          ReflTransGen ((plant root below beside).Joins parent) x y :=
        ReflTransGen.mono (fun _ _ h => joins_plant.mpr (.inr (.inl h))) _ _ hway
      have outer {x y : NodeId} (hway : ReflTransGen (beside.Joins parent) x y) :
          ReflTransGen ((plant root below beside).Joins parent) x y :=
        ReflTransGen.mono (fun _ _ h => joins_plant.mpr (.inr (.inr h))) _ _ hway
      rw [nodes] at h
      rcases List.mem_cons.mp h with rfl | h
      · exact .refl
      rw [List.mem_cons, List.mem_append] at h
      have first : (plant root below beside).Joins parent parent root :=
        joins_plant.mpr (.inl ⟨rfl, rfl⟩)
      rcases h with rfl | h | h
      · exact .single first
      · exact .head first (inner (ihBelow (List.mem_cons_of_mem _ h)))
      · exact outer (ihBeside (List.mem_cons_of_mem _ h))

/-! ### Schedules -/

variable {σ : Type}

/-- From the leaves up: what is below a node comes first, then the node is refreshed and attached to
its parent. -/
def upward (now : NodeId → Instant) (parent : NodeId) : Grove → List (Operation σ)
  | bare => []
  | plant root below beside =>
    upward now root below ++ [.refresh (now root) root, .attach parent root] ++
      upward now parent beside

/-- From the root down: all attachments, in any order. -/
def downward (order : List (NodeId × NodeId)) : List (Operation σ) :=
  order.map fun link => .attach link.1 link.2

/-- The whole build from the leaves up. The root has no parent. -/
def fromLeaves (now : NodeId → Instant) (root : NodeId) (g : Grove) : List (Operation σ) :=
  g.upward now root ++ [.refresh (now root) root]

/-- The whole build from the root down. The root is the only node that is refreshed by itself. -/
def fromRoot (now : Instant) (root : NodeId) (order : List (NodeId × NodeId)) :
    List (Operation σ) :=
  downward order ++ [.refresh now root]

/-- Operations that attach nodes where they belong and refresh any of them. -/
def Tended (g : Grove) (parent : NodeId) (op : Operation σ) : Prop :=
  (∃ p q, g.Joins parent p q ∧ op = .attach p q) ∨
    ∃ now, ∃ z ∈ parent :: g.nodes, op = .refresh now z

theorem tended_upward (now : NodeId → Instant) :
    ∀ op ∈ (g.upward now parent : List (Operation σ)), g.Tended parent op := by
  induction g generalizing parent with
  | bare => simp [upward]
  | plant root below beside ihBelow ihBeside =>
      intro op mem
      rw [upward, List.append_assoc, List.mem_append, List.mem_append] at mem
      rcases mem with inner | own | outer
      · rcases ihBelow op inner with ⟨p, q, h, rfl⟩ | ⟨time, z, hz, rfl⟩
        · exact .inl ⟨p, q, joins_plant.mpr (.inr (.inl h)), rfl⟩
        · refine .inr ⟨time, z, ?_, rfl⟩
          simp only [nodes, List.mem_cons, List.mem_append] at hz ⊢
          exact .inr (hz.imp_right .inl)
      · rw [List.mem_cons, List.mem_singleton] at own
        rcases own with rfl | rfl
        · exact .inr ⟨_, root, by simp [nodes], rfl⟩
        · exact .inl ⟨parent, root, joins_plant.mpr (.inl ⟨rfl, rfl⟩), rfl⟩
      · rcases ihBeside op outer with ⟨p, q, h, rfl⟩ | ⟨time, z, hz, rfl⟩
        · exact .inl ⟨p, q, joins_plant.mpr (.inr (.inr h)), rfl⟩
        · refine .inr ⟨time, z, ?_, rfl⟩
          simp only [nodes, List.mem_cons, List.mem_append] at hz ⊢
          exact hz.imp_right fun h => .inr (.inr h)

theorem attach_mem_upward (now : NodeId → Instant) (h : g.Joins parent p q) :
    (.attach p q : Operation σ) ∈ g.upward now parent := by
  induction g generalizing parent with
  | bare => cases h
  | plant root below beside ihBelow ihBeside =>
      simp only [upward, List.mem_append, List.mem_cons]
      rcases joins_plant.mp h with ⟨rfl, rfl⟩ | inner | outer
      · exact .inl (.inr (.inr (.inl rfl)))
      · exact .inl (.inl (ihBelow inner))
      · exact .inr (ihBeside outer)

theorem attach_mem_downward {order : List (NodeId × NodeId)} (all : order.Perm (g.links parent))
    (h : g.Joins parent p q) : (.attach p q : Operation σ) ∈ downward order :=
  List.mem_map.mpr ⟨(p, q), all.mem_iff.mpr h, rfl⟩

theorem tended_downward {order : List (NodeId × NodeId)} (all : order.Perm (g.links parent)) :
    ∀ op ∈ (downward order : List (Operation σ)), g.Tended parent op := by
  intro op mem
  obtain ⟨⟨p, q⟩, hlink, rfl⟩ := List.mem_map.mp mem
  exact .inl ⟨p, q, all.mem_iff.mp hlink, rfl⟩

end Grove

end SchemaCatalog
