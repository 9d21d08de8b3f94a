import SchemaCatalog.Proofs.Catalog.Discovery
import SchemaCatalog.Proofs.Catalog.Grove
import SchemaCatalog.Proofs.Catalog.Later
import SchemaCatalog.Proofs.Catalog.Mirror

/-!
Trees of nodes that are put together from the leaves up or from the root down. An attachment copies
what a child sees over what the parent sees, a refresh adds what the parent does not see, and either
way no node sees more than the sources below it supply; the last refresh makes it see no less.
-/

namespace SchemaCatalog

open Relation (ReflTransGen TransGen)
open Catalog (Attached Later)

variable {answers : Answers}

/-! ### What sources supply -/

theorem Answers.supply_of_origin {m n : Node} (h : m.origin = n.origin) :
    answers.supply m = answers.supply n := by
  show answers.supply m.origin = answers.supply n.origin
  rw [h]

namespace Catalog

variable {c d : Catalog}

/-- The own source of a node supplies the name. -/
def Supplies (c : Catalog) (answers : Answers) (id : NodeId) (name : String) : Prop :=
  ∃ n, c.node? id = some n ∧ answers.Supplies n name

theorem isSome_supply_iff {id : NodeId} {name : String} :
    (c.supply answers id name).isSome ↔ c.Supplies answers id name := by
  unfold Supplies
  cases found : c.node? id with
  | none => simp [supply, found]
  | some n => simp [supply_of_node? found, Answers.isSome_supply_iff]

theorem Later.supply_eq (h : Later c d) {id : NodeId} {n : Node} (found : c.node? id = some n)
    (answers : Answers) : d.supply answers id = c.supply answers id := by
  obtain ⟨n', found', origin⟩ := h.kept id n found
  funext name
  rw [supply_of_node? found, supply_of_node? found', Answers.supply_of_origin origin]

end Catalog

/-! ### Trees that grow -/

namespace Grove

variable {g : Grove} {root : NodeId} {c d : Catalog}

/-- The nodes of the tree have just been created, and no two of them that are to have the same
parent have the same name. -/
structure Ready (g : Grove) (root : NodeId) (c : Catalog) : Prop where
  distinct : (root :: g.nodes).Nodup
  live : ∀ z ∈ root :: g.nodes, c.isLive z
  fresh : ∀ z ∈ root :: g.nodes, c.Fresh z
  siblings : ∀ p q q' n n', g.Joins root p q → g.Joins root p q' → c.node? q = some n →
    c.node? q' = some n' → n.name = n'.name → q = q'

/-- What attachments of the tree and refreshes of its nodes keep. Links lead where the tree has
them, and the owner of an entry is a node below that gets the name from its own source. -/
structure Growing (answers : Answers) (g : Grove) (root : NodeId) (c d : Catalog) : Prop where
  later : Later c d
  sound : d.Sound
  aligned : d.Aligned
  registered : d.Registered
  lists : ∀ p ∈ root :: g.nodes, ∀ q, d.Lists p q → g.Joins root p q
  under : ∀ q ∈ root :: g.nodes, ∀ p, d.Under q p → g.Joins root p q
  owned : ∀ z ∈ root :: g.nodes, ∀ name o t, d.lookup? z name = some (o, t) →
    ReflTransGen d.Lists z o ∧ c.Supplies answers o name

theorem Ready.growing (ready : g.Ready root c) (sound : c.Sound) (aligned : c.Aligned)
    (registered : c.Registered) : Growing answers g root c c where
  later := .refl c
  sound := sound
  aligned := aligned
  registered := registered
  lists p hp q listed := absurd listed (ready.fresh p hp).unlinked.not_lists
  under q hq p hway := by
    obtain ⟨n, found, hparent⟩ := hway
    obtain ⟨k, hk, -, hnone, -⟩ := ready.fresh q hq
    rw [found] at hk
    cases hk
    rw [hnone] at hparent
    cases hparent
  owned z hz name o t seen := by
    obtain ⟨n, found, -, -, -, hempty⟩ := ready.fresh z hz
    rw [Catalog.lookup?_of_node? found, hempty] at seen
    cases seen

namespace Growing

variable (growing : Growing answers g root c d) {z : NodeId}

include growing

theorem reach {x : NodeId} (hz : z ∈ root :: g.nodes) (hway : ReflTransGen d.Lists z x) :
    x ∈ root :: g.nodes ∧ ReflTransGen (g.Joins root) z x := by
  induction hway with
  | refl => exact ⟨hz, .refl⟩
  | tail _ listed ih =>
      have joins := growing.lists _ ih.1 _ listed
      exact ⟨joins.mem.2, ih.2.tail joins⟩

theorem acyclicBelow (ready : g.Ready root c) (hz : z ∈ root :: g.nodes) : d.AcyclicBelow z := by
  intro x hway cycle
  have hx := (growing.reach hz hway).1
  obtain ⟨y, listed, hback⟩ := TransGen.head'_iff.mp cycle
  have joins := growing.lists x hx y listed
  exact not_transGen_joins ready.distinct x
    (TransGen.head' joins (growing.reach joins.mem.2 hback).2)

theorem live (ready : g.Ready root c) (live : d.isLive root) (hz : z ∈ root :: g.nodes) :
    d.isLive z := by
  have old := (Catalog.isLive_iff_lt.mp (ready.live root List.mem_cons_self)).2
  exact growing.later.isLive_of_released_eq (growing.later.released_eq old live) (ready.live z hz)

theorem supply_eq (ready : g.Ready root c) (hz : z ∈ root :: g.nodes) :
    d.supply answers z = c.supply answers z := by
  obtain ⟨n, found, -⟩ := ready.fresh z hz
  exact growing.later.supply_eq found answers

theorem eq_of_siblings (ready : g.Ready root c) {p q q' : NodeId} {n n' : Node}
    (joins : g.Joins root p q) (joins' : g.Joins root p q') (found : d.node? q = some n)
    (found' : d.node? q' = some n') (same : n.name = n'.name) : q = q' := by
  obtain ⟨k, hk, -⟩ := ready.fresh q joins.mem.2
  obtain ⟨k', hk', -⟩ := ready.fresh q' joins'.mem.2
  obtain ⟨m, hm, origin⟩ := growing.later.kept q k hk
  obtain ⟨m', hm', origin'⟩ := growing.later.kept q' k' hk'
  rw [found] at hm
  rw [found'] at hm'
  cases hm
  cases hm'
  refine ready.siblings p q q' k k' joins joins' hk hk' ?_
  rw [← Node.name_eq_of_origin origin, ← Node.name_eq_of_origin origin', same]

end Growing

/-! ### One attachment -/

section Attach

variable {e : Catalog} {p q : NodeId} {m n : Node} (growing : Growing answers g root c d)
  (ready : g.Ready root c) (joins : g.Joins root p q) (h : Attached d p q m n e)

include growing ready joins h

theorem Growing.lists_kept {a b : NodeId} (ha : a ∈ root :: g.nodes) (listed : d.Lists a b) :
    e.Lists a b := by
  by_cases hp : a = p
  · subst hp
    obtain ⟨k, key, found, hchild⟩ := listed
    obtain ⟨k', hk', relinked⟩ := h.relinked found
    by_cases hkey : key = n.name
    · obtain ⟨x, hx, hname⟩ := growing.registered.keyed a k key b found hchild
      have same : b = q := growing.eq_of_siblings ready (growing.lists a ha b ⟨k, key, found, hchild⟩)
        joins hx h.child_found (hname.trans hkey)
      rw [same]
      exact h.lists_child
    · refine ⟨k', key, hk', ?_⟩
      rw [relinked.children_eq, if_pos rfl, NameMap.get?_insert, if_neg hkey]
      exact hchild
  · exact (h.lists_of_ne hp).mpr listed

omit ready in
theorem Growing.lookup?_attached {z : NodeId} {name : String} {o : NodeId} {t : Table}
    (seen : e.lookup? z name = some (o, t)) :
    d.lookup? z name = some (o, t) ∨ z = p ∧ d.lookup? q name = some (o, t) := by
  have hn := growing.aligned q n h.child_found
  by_cases hp : z = p
  · subst hp
    rw [Catalog.lookup?_of_node? h.node?_parent, Node.lookup?_mergeChild hn] at seen
    rw [Catalog.lookup?_of_node? h.parent_found,
      Catalog.lookup?_of_node? h.child_found]
    rcases Option.or_eq_some_iff.mp seen with own | ⟨-, old⟩
    · exact .inr ⟨rfl, own⟩
    · exact .inl old
  · refine .inl ?_
    by_cases hq : z = q
    · subst hq
      rw [Catalog.lookup?_of_node? h.node?_child] at seen
      rw [Catalog.lookup?_of_node? h.child_found]
      exact seen
    · rw [Catalog.lookup?_congr (h.node?_of_ne hp hq)] at seen
      exact seen

theorem Growing.attached : Growing answers g root c e := by
  have lift {x y : NodeId} (hx : x ∈ root :: g.nodes) (hway : ReflTransGen d.Lists x y) :
      ReflTransGen e.Lists x y := by
    induction hway with
    | refl => exact .refl
    | tail hway listed ih =>
        exact ih.tail (growing.lists_kept ready joins h (growing.reach hx hway).1 listed)
  refine ⟨growing.later.trans h.later, growing.sound.attached h,
    h.aligned growing.aligned, growing.registered.attached h, ?_, ?_, ?_⟩
  · intro a ha b listed
    by_cases hp : a = p
    · subst hp
      rcases h.lists_parent listed with rfl | old
      · exact joins
      · exact growing.lists a ha b old
    · exact growing.lists a ha b ((h.lists_of_ne hp).mp listed)
  · intro b hb a hway
    rw [h.under_iff] at hway
    split at hway
    · rename_i hq
      rw [hq, hway]
      exact joins
    · exact growing.under b hb a hway
  · intro z hz name o t seen
    rcases growing.lookup?_attached joins h seen with old | ⟨rfl, taken⟩
    · obtain ⟨hway, supplied⟩ := growing.owned z hz name o t old
      exact ⟨lift hz hway, supplied⟩
    · obtain ⟨hway, supplied⟩ := growing.owned q joins.mem.2 name o t taken
      exact ⟨.head h.lists_child (lift joins.mem.2 hway), supplied⟩

end Attach

theorem Growing.attach_ok (growing : Growing answers g root c d) (ready : g.Ready root c)
    {p q : NodeId} (joins : g.Joins root p q) (live : d.isLive root) :
    (d.attach p q).1 = .ok () := by
  obtain ⟨m, hm⟩ := Catalog.isLive_iff.mp (growing.live ready live joins.mem.1)
  obtain ⟨n, hn⟩ := Catalog.isLive_iff.mp (growing.live ready live joins.mem.2)
  refine (growing.sound.attach_answer hm hn).2 fun above => ?_
  have down : ReflTransGen (g.Joins root) q p := by
    suffices h : ∀ x, ReflTransGen d.Under p x →
        x ∈ root :: g.nodes ∧ ReflTransGen (g.Joins root) x p from (h q above).2
    intro x hway
    induction hway with
    | refl => exact ⟨joins.mem.1, .refl⟩
    | tail _ hunder ih =>
        have link := growing.under _ ih.1 _ hunder
        exact ⟨link.mem.1, .head link ih.2⟩
  exact not_transGen_joins ready.distinct p (TransGen.head' joins down)

/-! ### One refresh -/

variable {σ : Type} {backend : Backend σ} {now : Instant} {f f' : Federation σ} {z : NodeId}

/-- What a walk leaves a node it has from its own source or from what it has come to below. -/
theorem Growing.owned_of_filled {taken : NodeId → List NodeId} {roots : List NodeId}
    {e : Catalog} (growing : Growing answers g root c d) (ready : g.Ready root c)
    (filled : Catalog.Filled answers (fun _ => False) d e roots taken)
    (hz : z ∈ root :: g.nodes) {name : String} {o : NodeId} {t : Table}
    (seen : e.lookup? z name = some (o, t)) :
    ReflTransGen d.Lists z o ∧ c.Supplies answers o name := by
  have acyclic := growing.acyclicBelow ready hz
  revert hz o t
  refine acyclic.induction (P := fun z => z ∈ root :: g.nodes → ∀ {o : NodeId} {t : Table},
    e.lookup? z name = some (o, t) → ReflTransGen d.Lists z o ∧ c.Supplies answers o name) ?_
  intro z ih hz o t seen
  by_cases come : Catalog.Reached taken roots z
  · rw [filled.inside z come, Option.or_eq_some_iff, Option.or_eq_some_iff] at seen
    rcases seen with old | ⟨-, own | ⟨-, below⟩⟩
    · exact growing.owned z hz name o t old
    · rw [growing.supply_eq ready hz] at own
      have supplied : (c.supply answers z name).isSome := by rw [own, Option.isSome_some]
      obtain ⟨k, -, hentry⟩ := Option.bind_eq_some_iff.mp own
      obtain ⟨t', -, heq⟩ := Option.map_eq_some_iff.mp hentry
      cases heq
      exact ⟨.refl, Catalog.isSome_supply_iff.mp supplied⟩
    · obtain ⟨w, hw, held⟩ := List.exists_of_findSome?_eq_some below
      have listed := Catalog.mem_childrenOf_iff.mp ((filled.initial z).subset hw)
      obtain ⟨hway, supplied⟩ := ih w listed (growing.lists z hz w listed).mem.2 held
      exact ⟨.head listed hway, supplied⟩
  · rw [filled.outside z come not_false] at seen
    exact growing.owned z hz name o t seen

theorem Growing.refreshed (growing : Growing answers g root c f.catalog) (ready : g.Ready root c)
    (gives : backend.Gives answers) (hz : z ∈ root :: g.nodes)
    {answer : Except CatalogError Unit} (h : f.refresh backend now z = some (answer, f')) :
    Growing answers g root c f'.catalog := by
  cases answer with
  | error e =>
      rw [Federation.refresh_of_error now h]
      exact growing
  | ok =>
      have touches := Federation.touches_refresh backend now h
      have same := touches.bareNodes
      obtain ⟨taken, filled, -⟩ := Federation.fills_refresh gives growing.sound growing.aligned
        (growing.acyclicBelow ready hz) h
      refine ⟨growing.later.trans touches.steps.later,
        touches.steps.keep Catalog.Step.sound growing.sound,
        touches.steps.keep Catalog.Step.aligned growing.aligned,
        touches.steps.keep Catalog.Step.registered growing.registered, ?_, ?_, ?_⟩
      · rw [Catalog.lists_of_bareNodes same]
        exact growing.lists
      · rw [Catalog.under_of_bareNodes same]
        exact growing.under
      · rw [Catalog.lists_of_bareNodes same]
        exact fun z hz name o t seen => growing.owned_of_filled ready filled hz seen

/-! ### All operations -/

/-- Each operation ends, keeps the links that are there, and adds its own as long as the root is
live. -/
theorem Growing.performed (growing : Growing answers g root c f.catalog) (ready : g.Ready root c)
    (gives : backend.Gives answers) {op : Operation σ} (tended : g.Tended root op) :
    ∃ f', op.perform backend f = some f' ∧ Growing answers g root c f'.catalog ∧
      Later f.catalog f'.catalog ∧
      (∀ p ∈ root :: g.nodes, ∀ q, f.catalog.Lists p q → f'.catalog.Lists p q) ∧
      ∀ p q, op = .attach p q → f'.catalog.isLive root → f'.catalog.Lists p q := by
  rcases tended with ⟨p, q, joins, rfl⟩ | ⟨now, z, hz, rfl⟩
  · by_cases accepted : (f.catalog.attach p q).1 = .ok ()
    · obtain ⟨m, n, attached⟩ := Catalog.attached_of_ok accepted
      refine ⟨_, rfl, growing.attached ready joins attached, attached.later,
        fun a ha b listed => growing.lists_kept ready joins attached ha listed, ?_⟩
      rintro _ _ ⟨rfl, rfl⟩ -
      exact attached.lists_child
    · have unchanged := Catalog.attach_of_error accepted
      refine ⟨f, by rw [Operation.perform, unchanged], growing, .refl _, fun _ _ _ => id, ?_⟩
      intro _ _ _ live
      exact absurd (growing.attach_ok ready joins live) accepted
  · obtain ⟨answer, f', h⟩ := Federation.exists_refresh backend now
      (growing.acyclicBelow ready hz)
    have touches := Federation.touches_refresh backend now h
    refine ⟨f', by rw [Operation.perform, h, Option.map_some], growing.refreshed ready gives hz h,
      touches.steps.later, ?_, ?_⟩
    · rw [Catalog.lists_of_bareNodes touches.bareNodes]
      exact fun _ _ _ => id
    · intro _ _ attaching
      cases attaching

theorem Growing.schedule (growing : Growing answers g root c f.catalog) (ready : g.Ready root c)
    (gives : backend.Gives answers) {ops : List (Operation σ)}
    (tended : ∀ op ∈ ops, g.Tended root op) :
    ∃ f', ops.foldlM (Operation.perform backend) f = some f' ∧
      Growing answers g root c f'.catalog ∧ Later f.catalog f'.catalog ∧
      (∀ p ∈ root :: g.nodes, ∀ q, f.catalog.Lists p q → f'.catalog.Lists p q) ∧
      ∀ p q, .attach p q ∈ ops → f'.catalog.isLive root → f'.catalog.Lists p q := by
  induction ops generalizing f with
  | nil => exact ⟨f, rfl, growing, .refl _, fun _ _ _ => id, nofun⟩
  | cons op ops ih =>
      obtain ⟨f₁, h₁, growing₁, later₁, kept₁, done₁⟩ :=
        growing.performed ready gives (tended op List.mem_cons_self)
      obtain ⟨f₂, h₂, growing₂, later₂, kept₂, done₂⟩ :=
        ih growing₁ fun op mem => tended op (List.mem_cons_of_mem _ mem)
      refine ⟨f₂, ?_, growing₂, later₁.trans later₂,
        fun p hp q listed => kept₂ p hp q (kept₁ p hp q listed), fun p q mem live => ?_⟩
      · rw [List.foldlM_cons, h₁]
        exact h₂
      · rcases List.mem_cons.mp mem with rfl | mem
        · have old := (Catalog.isLive_iff_lt.mp (ready.live root List.mem_cons_self)).2
          have before := later₂.isLive_of_isLive (old.trans_le growing₁.later.length) live
          have joins : g.Joins root p q := by
            rcases tended _ List.mem_cons_self with ⟨a, b, joins, heq⟩ | ⟨_, _, _, heq⟩
            · cases heq
              exact joins
            · cases heq
          exact kept₂ p joins.mem.1 q (done₁ p q rfl before)
        · exact done₂ p q mem live

/-! ### The tree in the end -/

/-- Each node of the tree sees exactly the names that are supplied at or below it, with an owner
that supplies them. -/
structure Complete (answers : Answers) (g : Grove) (root : NodeId) (c d : Catalog) : Prop where
  later : Later c d
  aligned : d.Aligned
  owned : ∀ z ∈ root :: g.nodes, ∀ name o t, d.lookup? z name = some (o, t) →
    o ∈ root :: g.nodes ∧ ReflTransGen (g.Joins root) z o ∧ c.Supplies answers o name
  supplied : ∀ z ∈ root :: g.nodes, ∀ name y, ReflTransGen (g.Joins root) z y →
    c.Supplies answers y name → (d.lookup? z name).isSome

/-- A refresh of the root comes to the whole tree once all links are there. A name goes up from the
node that supplies it: every other node on the way takes it from the next one unless it has it
already. -/
theorem Growing.complete (growing : Growing answers g root c f.catalog) (ready : g.Ready root c)
    (gives : backend.Gives answers) {answer : Except CatalogError Unit}
    (h : f.refresh backend now root = some (answer, f')) (live : f'.catalog.isLive root)
    (links : ∀ p q, g.Joins root p q → f.catalog.Lists p q) :
    Complete answers g root c f'.catalog := by
  have touches := Federation.touches_refresh backend now h
  have growing' := growing.refreshed ready gives List.mem_cons_self h
  have before : f.catalog.isLive root := touches.isLive live root ▸ live
  obtain rfl := Federation.answer_of_live before h
  obtain ⟨taken, filled, whole⟩ := Federation.fills_refresh gives growing.sound growing.aligned
    (growing.acyclicBelow ready List.mem_cons_self) h
  replace whole := whole live
  have come {z : NodeId} (hz : z ∈ root :: g.nodes) : Catalog.Reached taken [root] z :=
    whole.reached (.root List.mem_cons_self)
      (ReflTransGen.mono (fun p q joins => links p q joins) _ _ (reflTransGen_joins hz))
  refine ⟨growing'.later, growing'.aligned, fun z hz name o t seen => ?_,
    fun z hz name y hway supplied => ?_⟩
  · obtain ⟨hway, supplied⟩ := growing'.owned z hz name o t seen
    obtain ⟨mem, down⟩ := growing'.reach hz hway
    exact ⟨mem, down, supplied⟩
  · induction hway using ReflTransGen.head_induction_on with
    | refl =>
        rw [filled.inside _ (come hz), growing.supply_eq ready hz, Option.isSome_or, Option.isSome_or,
          Catalog.isSome_supply_iff.mpr supplied, Bool.true_or, Bool.or_true]
    | @head a w joins _ ih =>
        have seen := ih joins.mem.2
        have taken_here : w ∈ taken a := by
          rw [whole a (come hz)]
          exact Catalog.mem_childrenOf_iff.mpr (links a w joins)
        have found : ((taken a).findSome? (f'.catalog.lookup? · name)).isSome :=
          List.findSome?_isSome_iff.mpr ⟨w, taken_here, seen⟩
        rw [filled.inside _ (come hz), Option.isSome_or, Option.isSome_or, found, Bool.or_true,
          Bool.or_true]

/-- Attachments and refreshes of a tree in any order, if every attachment is among them, and one
more refresh of the root. -/
theorem Ready.exists_complete (ready : g.Ready root f.catalog) (sound : f.catalog.Sound)
    (aligned : f.catalog.Aligned) (registered : f.catalog.Registered)
    (gives : backend.Gives answers) {ops : List (Operation σ)}
    (tended : ∀ op ∈ ops, g.Tended root op) (all : ∀ p q, g.Joins root p q → .attach p q ∈ ops)
    (now : Instant) :
    ∃ f', (ops ++ [Operation.refresh now root]).foldlM (Operation.perform backend) f = some f' ∧
      (f'.catalog.isLive root → Complete answers g root f.catalog f'.catalog) := by
  obtain ⟨f₁, h₁, growing, -, -, done⟩ :=
    (ready.growing sound aligned registered).schedule ready gives tended
  obtain ⟨answer, f', h⟩ := Federation.exists_refresh backend now
    (growing.acyclicBelow ready List.mem_cons_self)
  refine ⟨f', ?_, fun live => ?_⟩
  · rw [List.foldlM_append, h₁]
    show Option.bind ((f₁.refresh backend now root).map (·.2)) _ = _
    rw [h]
    rfl
  · have touches := Federation.touches_refresh backend now h
    have before : f₁.catalog.isLive root := touches.isLive live root ▸ live
    exact growing.complete ready gives h live fun p q joins => done p q (all p q joins) before

/-- Two states of a tree in which each node lists the same names, and has the same owner for every
name that only one node of the tree gets from its own source. -/
structure Agree (answers : Answers) (g : Grove) (root : NodeId) (c d e : Catalog) : Prop where
  names : ∀ z ∈ root :: g.nodes, ∃ m n, d.node? z = some m ∧ e.node? z = some n ∧
    m.tables = n.tables
  owners : ∀ z ∈ root :: g.nodes, ∀ m n name, d.node? z = some m → e.node? z = some n →
    (∀ x ∈ root :: g.nodes, ∀ y ∈ root :: g.nodes, c.Supplies answers x name →
      c.Supplies answers y name → x = y) →
    m.directory.owners.get? name = n.directory.owners.get? name

theorem Complete.agree {e : Catalog} (ready : g.Ready root c)
    (h : Complete answers g root c d) (h' : Complete answers g root c e) :
    Agree answers g root c d e := by
  have same {z : NodeId} (hz : z ∈ root :: g.nodes) (name : String) :
      (d.lookup? z name).isSome ↔ (e.lookup? z name).isSome := by
    constructor
    · intro seen
      obtain ⟨⟨o, t⟩, hentry⟩ := Option.isSome_iff_exists.mp seen
      obtain ⟨-, hway, supplied⟩ := h.owned z hz name o t hentry
      exact h'.supplied z hz name o hway supplied
    · intro seen
      obtain ⟨⟨o, t⟩, hentry⟩ := Option.isSome_iff_exists.mp seen
      obtain ⟨-, hway, supplied⟩ := h'.owned z hz name o t hentry
      exact h.supplied z hz name o hway supplied
  refine ⟨fun z hz => ?_, fun z hz m n name hm hn sole => ?_⟩
  · obtain ⟨k, found, -⟩ := ready.fresh z hz
    obtain ⟨m, hm, -⟩ := h.later.kept z k found
    obtain ⟨n, hn, -⟩ := h'.later.kept z k found
    refine ⟨m, n, hm, hn, (h.aligned z m hm).names_eq (h'.aligned z n hn) fun name => ?_⟩
    rw [← Catalog.lookup?_of_node? hm, ← Catalog.lookup?_of_node? hn]
    exact same hz name
  · rw [(h.aligned z m hm).owners_get?, (h'.aligned z n hn).owners_get?,
      ← Catalog.lookup?_of_node? hm, ← Catalog.lookup?_of_node? hn]
    have both := same hz name
    cases hd : d.lookup? z name with
    | none =>
        rw [hd] at both
        have unseen : e.lookup? z name = none := by simpa using both
        rw [unseen]
    | some entry =>
        rw [hd] at both
        obtain ⟨entry', he⟩ := Option.isSome_iff_exists.mp (both.mp rfl)
        obtain ⟨mem, -, supplied⟩ := h.owned z hz name entry.1 entry.2 hd
        obtain ⟨mem', -, supplied'⟩ := h'.owned z hz name entry'.1 entry'.2 he
        rw [he, Option.map_some, Option.map_some,
          sole entry.1 mem entry'.1 mem' supplied supplied']

end Grove

namespace Run

/-- A tree of new nodes can be built from the leaves up or from the root down. Both builds come to
their end, and if no source shuts the catalog down they leave the same names, and the same owner for
every name that a single node supplies. -/
theorem tree_builds_agree {σ : Type} {r : Run σ} {f : Federation σ} {backend : Backend σ}
    {g : Grove} {root : NodeId} {order : List (NodeId × NodeId)} (visited : r.Visits f)
    (ready : g.Ready root f.catalog) (gives : backend.Gives answers)
    (all : order.Perm (g.links root)) (times : NodeId → Instant) (now : Instant) :
    ∃ up down,
      (g.fromLeaves times root).foldlM (Operation.perform backend) f = some up ∧
      (Grove.fromRoot now root order).foldlM (Operation.perform backend) f = some down ∧
      (up.catalog.isLive root → down.catalog.isLive root →
        Grove.Agree answers g root f.catalog up.catalog down.catalog) := by
  have sound := Run.sound visited
  have aligned := Run.aligned visited
  have registered := Run.registered visited
  obtain ⟨up, hup, completeUp⟩ := ready.exists_complete sound aligned registered gives
    (Grove.tended_upward times) (fun p q joins => Grove.attach_mem_upward times joins) (times root)
  obtain ⟨down, hdown, completeDown⟩ := ready.exists_complete sound aligned registered gives
    (Grove.tended_downward all) (fun p q joins => Grove.attach_mem_downward all joins) now
  exact ⟨up, down, hup, hdown, fun liveUp liveDown =>
    (completeUp liveUp).agree ready (completeDown liveDown)⟩

/-- Four nodes, three of them with a source. -/
def planted : Run Unit where
  backend := .always mixedAnswers
  sources := ()
  operations := [.create "x" none, .create "b" (some ⟨1⟩), .create "c" (some ⟨2⟩),
    .create "d" (some ⟨3⟩)]

def planted.created : Federation Unit where
  catalog :=
    let c : Catalog := { window := defaultWindow }
    let c := (c.create "x" none).2
    let c := (c.create "b" (some ⟨1⟩)).2
    let c := (c.create "c" (some ⟨2⟩)).2
    (c.create "d" (some ⟨3⟩)).2
  sources := ()

/-- Below the root are two of them, and the last is below the first. -/
def planted.below : Grove :=
  .plant ⟨1⟩ (.plant ⟨3⟩ .bare .bare) (.plant ⟨2⟩ .bare .bare)

theorem planted.ready : below.Ready ⟨0⟩ planted.created.catalog where
  distinct := by decide
  live := by decide
  fresh := by
    intro z hz
    simp only [below, Grove.nodes, List.mem_cons, List.mem_append, List.not_mem_nil, or_false] at hz
    rcases hz with rfl | rfl | rfl | rfl <;> exact ⟨_, rfl, rfl, rfl, rfl, rfl⟩
  siblings := by
    have apart : ∀ l ∈ below.links ⟨0⟩, ∀ l' ∈ below.links ⟨0⟩, l.1 = l'.1 →
        (planted.created.catalog.node? l.2).map (·.name) =
          (planted.created.catalog.node? l'.2).map (·.name) → l.2 = l'.2 := by
      decide +kernel
    intro p q q' n n' joins joins' found found' same
    exact apart _ joins _ joins' rfl (by rw [found, found', Option.map_some, Option.map_some, same])

/-- The builds of a tree in which two sources list the same table differ in its owner. -/
theorem tree_builds_agree_planted : ∃ up down : Federation Unit, planted.Visits planted.created ∧
    planted.below.Ready ⟨0⟩ planted.created.catalog ∧
    [(⟨0⟩, ⟨2⟩), (⟨1⟩, ⟨3⟩), (⟨0⟩, ⟨1⟩)].Perm (planted.below.links ⟨0⟩) ∧
    planted.backend.Gives mixedAnswers ∧ up.catalog.isLive ⟨0⟩ ∧ down.catalog.isLive ⟨0⟩ ∧
    Grove.Agree mixedAnswers planted.below ⟨0⟩ planted.created.catalog up.catalog down.catalog ∧
    (up.catalog.node? ⟨0⟩).map (·.directory.owners.entries) =
      some [("a", ⟨1⟩), ("t", ⟨2⟩), ("u", ⟨2⟩)] ∧
    (down.catalog.node? ⟨0⟩).map (·.directory.owners.entries) =
      some [("a", ⟨1⟩), ("t", ⟨1⟩), ("u", ⟨3⟩)] := by
  have visited : planted.Visits planted.created := ⟨_, List.prefix_rfl, rfl⟩
  have gives : planted.backend.Gives mixedAnswers := Backend.gives_always mixedAnswers
  have all : [(⟨0⟩, ⟨2⟩), (⟨1⟩, ⟨3⟩), (⟨0⟩, ⟨1⟩)].Perm (planted.below.links ⟨0⟩) := by decide
  obtain ⟨up, down, hup, hdown, agree⟩ :=
    tree_builds_agree visited planted.ready gives all (fun _ => ⟨0, 0⟩) ⟨0, 0⟩
  have computedUp : ((planted.below.fromLeaves (fun _ => ⟨0, 0⟩) ⟨0⟩).foldlM
      (Operation.perform planted.backend) planted.created).map (fun f =>
        (f.catalog.isLive ⟨0⟩, (f.catalog.node? ⟨0⟩).map (·.directory.owners.entries))) =
      some (true, some [("a", ⟨1⟩), ("t", ⟨2⟩), ("u", ⟨2⟩)]) := by
    decide +kernel
  have computedDown : ((Grove.fromRoot ⟨0, 0⟩ ⟨0⟩ [(⟨0⟩, ⟨2⟩), (⟨1⟩, ⟨3⟩), (⟨0⟩, ⟨1⟩)]).foldlM
      (Operation.perform planted.backend) planted.created).map (fun f =>
        (f.catalog.isLive ⟨0⟩, (f.catalog.node? ⟨0⟩).map (·.directory.owners.entries))) =
      some (true, some [("a", ⟨1⟩), ("t", ⟨1⟩), ("u", ⟨3⟩)]) := by
    decide +kernel
  rw [hup, Option.map_some, Option.some.injEq, Prod.mk.injEq] at computedUp
  rw [hdown, Option.map_some, Option.some.injEq, Prod.mk.injEq] at computedDown
  exact ⟨up, down, visited, planted.ready, all, gives, computedUp.1, computedDown.1,
    agree computedUp.1 computedDown.1, computedUp.2, computedDown.2⟩

/-- Two nodes, of which the source of the first shuts the catalog down when it is asked. -/
def closingPair : Run Unit where
  backend := closingSources
  sources := ()
  operations := [.create "x" (some ⟨0⟩), .create "b" (some ⟨1⟩)]

def closingPair.created : Federation Unit where
  catalog := ((Catalog.create {} "x" (some ⟨0⟩)).2.create "b" (some ⟨1⟩)).2
  sources := ()

theorem closingPair.ready : (Grove.plant ⟨1⟩ .bare .bare).Ready ⟨0⟩ closingPair.created.catalog where
  distinct := by decide
  live := by decide
  fresh := by
    intro z hz
    simp only [Grove.nodes, List.mem_cons, List.mem_append, List.not_mem_nil, or_false] at hz
    rcases hz with rfl | rfl <;> exact ⟨_, rfl, rfl, rfl, rfl, rfl⟩
  siblings := by
    intro p q q' n n' joins joins' _ _ _
    simp only [Grove.Joins, Grove.links, List.mem_cons, List.mem_append, List.not_mem_nil, or_false,
      Prod.mk.injEq] at joins joins'
    rw [joins.2, joins'.2]

/-- From the leaves up the child is refreshed before its parent; from the root down it comes after,
and the catalog has been shut down by then. -/
theorem closing_builds_differ : ∃ (up down : Federation Unit) (m n : Node),
    closingPair.Visits closingPair.created ∧
    (Grove.plant ⟨1⟩ .bare .bare).Ready ⟨0⟩ closingPair.created.catalog ∧
    closingPair.backend.Gives closingAnswers ∧
    ((Grove.plant ⟨1⟩ .bare .bare).fromLeaves (fun _ => ⟨0, 0⟩) ⟨0⟩).foldlM
      (Operation.perform closingPair.backend) closingPair.created = some up ∧
    (Grove.fromRoot ⟨0, 0⟩ ⟨0⟩ ((Grove.plant ⟨1⟩ .bare .bare).links ⟨0⟩)).foldlM
      (Operation.perform closingPair.backend) closingPair.created = some down ∧
    up.catalog.node? ⟨1⟩ = some m ∧ down.catalog.node? ⟨1⟩ = some n ∧
    m.tables = ["w"] ∧ n.tables = [] := by
  have computedUp : (((Grove.plant ⟨1⟩ .bare .bare).fromLeaves (fun _ => ⟨0, 0⟩) ⟨0⟩).foldlM
      (Operation.perform closingPair.backend) closingPair.created).map
        (fun f => (f.catalog.node? ⟨1⟩).map (·.tables)) = some (some ["w"]) := by
    decide +kernel
  have computedDown : ((Grove.fromRoot ⟨0, 0⟩ ⟨0⟩ ((Grove.plant ⟨1⟩ .bare .bare).links ⟨0⟩)).foldlM
      (Operation.perform closingPair.backend) closingPair.created).map
        (fun f => (f.catalog.node? ⟨1⟩).map (·.tables)) = some (some []) := by
    decide +kernel
  obtain ⟨up, hup, hchild⟩ := Option.map_eq_some_iff.mp computedUp
  obtain ⟨m, hm, hlist⟩ := Option.map_eq_some_iff.mp hchild
  obtain ⟨down, hdown, hchild'⟩ := Option.map_eq_some_iff.mp computedDown
  obtain ⟨n, hn, hlist'⟩ := Option.map_eq_some_iff.mp hchild'
  exact ⟨up, down, m, n, ⟨_, List.prefix_rfl, rfl⟩, closingPair.ready, closingSources_gives, hup,
    hdown, hm, hn, hlist, hlist'⟩

end Run

end SchemaCatalog
