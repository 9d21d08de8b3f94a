import SchemaCatalog.Proofs.Catalog.Supply

/-!
What the nodes below a refreshed one see afterwards. Each is visited once or more, and what it sees
after the first visit it sees until the end: what it saw before, then what its own source supplies,
then what the first of its children sees.
-/

namespace SchemaCatalog

open Relation (ReflTransGen TransGen)

theorem findSome?_congr {α β : Type} {f g : α → Option β} {l : List α}
    (h : ∀ a ∈ l, f a = g a) : l.findSome? f = l.findSome? g := by
  induction l with
  | nil => rfl
  | cons a l ih =>
      rw [List.findSome?_cons, List.findSome?_cons, h a List.mem_cons_self,
        ih fun b hb => h b (List.mem_cons_of_mem _ hb)]

namespace Catalog

variable {c d e : Catalog}

/-! ### Children -/

/-- The children of a node, in order of name. -/
def childrenOf (c : Catalog) (id : NodeId) : List NodeId :=
  ((c.node? id).map fun n => n.children.entries.map (·.2)).getD []

theorem childrenOf_of_node? {id : NodeId} {n : Node} (found : c.node? id = some n) :
    c.childrenOf id = n.children.entries.map (·.2) := by
  rw [childrenOf, found, Option.map_some, Option.getD_some]

theorem mem_childrenOf_iff {id child : NodeId} : child ∈ c.childrenOf id ↔ c.Lists id child := by
  cases found : c.node? id with
  | none =>
      rw [childrenOf, found]
      refine ⟨nofun, ?_⟩
      rintro ⟨n, name, hn, -⟩
      rw [found] at hn
      cases hn
  | some n =>
      rw [childrenOf_of_node? found, List.mem_map]
      constructor
      · rintro ⟨entry, hentry, rfl⟩
        exact ⟨n, entry.1, found, NameMap.get?_eq_some_iff.mpr hentry⟩
      · rintro ⟨m, name, hm, listed⟩
        rw [found] at hm
        cases hm
        exact ⟨(name, child), NameMap.get?_eq_some_iff.mp listed, rfl⟩

theorem childrenOf_of_bareNodes (same : d.bareNodes = c.bareNodes) (id : NodeId) :
    d.childrenOf id = c.childrenOf id := by
  rcases node?_cases_of_bareNodes same id with ⟨missing, missing'⟩ | ⟨n, n', found, found', hbare⟩
  · rw [childrenOf, childrenOf, missing, missing']
  · rw [childrenOf_of_node? found, childrenOf_of_node? found', Node.children_eq_of_bare hbare]

/-- What holds of a node whenever it holds of its children holds of a node that leads to no
cycle. -/
theorem AcyclicBelow.induction {P : NodeId → Prop} {x : NodeId} (acyclic : c.AcyclicBelow x)
    (step : ∀ z, (∀ w, c.Lists z w → P w) → P z) : P x := by
  have below (depth : Nat) : ∀ (above : List NodeId) (z : NodeId), c.AcyclicBelow z →
      Descent c above z → c.nodes.length ≤ depth + above.length → P z := by
    induction depth with
    | zero =>
        intro above z acyclic descent enough
        refine step z fun w ⟨n, _, found, _⟩ => ?_
        have := descent.length_lt acyclic found
        omega
    | succ depth ih =>
        intro above z acyclic descent enough
        refine step z fun w listed => ?_
        obtain ⟨n, name, found, hchild⟩ := listed
        have listed : c.Lists z w := ⟨n, name, found, hchild⟩
        refine ih (z :: above) w (acyclic.child listed) (descent.down acyclic found listed) ?_
        rw [List.length_cons]
        omega
  exact below c.nodes.length [] x acyclic ⟨.nil, by simp, by simp⟩ (Nat.le_add_right _ _)

theorem Sound.isLive_of_lists (h : c.Sound) {id child : NodeId} (live : c.isLive id)
    (listed : c.Lists id child) : c.isLive child := by
  obtain ⟨n, name, found, hchild⟩ := listed
  exact h.children id n name child (get_of_isLive live found) hchild

/-! ### What a walk comes to -/

/-- The nodes that a walk comes to from some roots when `taken` are the children that it visits. -/
def Reached (taken : NodeId → List NodeId) (roots : List NodeId) (z : NodeId) : Prop :=
  ∃ p ∈ roots, ReflTransGen (fun a b => b ∈ taken a) p z

namespace Reached

variable {taken taken' : NodeId → List NodeId} {roots roots' : List NodeId} {z w : NodeId}

theorem root (h : z ∈ roots) : Reached taken roots z :=
  ⟨z, h, .refl⟩

theorem step (h : Reached taken roots z) (hw : w ∈ taken z) : Reached taken roots w := by
  obtain ⟨p, hp, hway⟩ := h
  exact ⟨p, hp, hway.tail hw⟩

theorem mono (h : Reached taken roots z) (roots_sub : roots ⊆ roots')
    (sub : ∀ a, taken a ⊆ taken' a) : Reached taken' roots' z := by
  obtain ⟨p, hp, hway⟩ := h
  exact ⟨p, roots_sub hp, ReflTransGen.mono (fun a _ hb => sub a hb) _ _ hway⟩

theorem induction {P : NodeId → Prop} (h : Reached taken roots z) (start : ∀ p ∈ roots, P p)
    (next : ∀ a b, P a → b ∈ taken a → P b) : P z := by
  obtain ⟨p, hp, hway⟩ := h
  induction hway with
  | refl => exact start p hp
  | tail _ hb ih => exact next _ _ ih hb

theorem below (h : Reached taken roots z) (children : ∀ a, taken a ⊆ c.childrenOf a) :
    ∃ p ∈ roots, ReflTransGen c.Lists p z := by
  obtain ⟨p, hp, hway⟩ := h
  exact ⟨p, hp, ReflTransGen.mono
    (fun a _ hb => mem_childrenOf_iff.mp (children a hb)) _ _ hway⟩

end Reached

/-- What a walk from `roots` makes of `c`. A node that it comes to sees what it saw, then what its
own source supplies, then what the first of the children taken there sees; the others, of which
nothing is said where they are `apart`, see what they saw. -/
structure Filled (answers : Answers) (apart : NodeId → Prop) (c d : Catalog) (roots : List NodeId)
    (taken : NodeId → List NodeId) : Prop where
  bare : d.bareNodes = c.bareNodes
  inside : ∀ z, Reached taken roots z → ∀ name, d.lookup? z name =
    (c.lookup? z name).or ((c.supply answers z name).or ((taken z).findSome? (d.lookup? · name)))
  outside : ∀ z, ¬ Reached taken roots z → ¬ apart z → ∀ name, d.lookup? z name = c.lookup? z name
  initial : ∀ z, taken z <+: c.childrenOf z
  idle : ∀ z, ¬ Reached taken roots z → taken z = []

/-- At every node that the walk came to it has visited all children. -/
def Whole (c : Catalog) (roots : List NodeId) (taken : NodeId → List NodeId) : Prop :=
  ∀ z, Reached taken roots z → taken z = c.childrenOf z

namespace Filled

variable {answers : Answers} {apart : NodeId → Prop} {roots roots' : List NodeId}
  {taken taken' : NodeId → List NodeId}

theorem congr (h : Filled answers apart c d roots taken)
    (clear : ∀ z, Reached taken roots z → ¬ apart z) (bare : e.bareNodes = d.bareNodes)
    (same : ∀ z, ¬ apart z → ∀ name, e.lookup? z name = d.lookup? z name) :
    Filled answers apart c e roots taken where
  bare := bare.trans h.bare
  inside z hz name := by
    rw [same z (clear z hz), h.inside z hz,
      findSome?_congr fun w hw => same w (clear w (hz.step hw)) name]
  outside z hz hapart name := (same z hapart name).trans (h.outside z hz hapart name)
  initial := h.initial
  idle := h.idle

/-- What has been visited with all that is below it is not changed by visiting it again: what a node
does not see neither its source supplies nor a child sees, and from below up the children see what
they saw. -/
theorem settled (h : Filled answers apart c d roots taken) (whole : c.Whole roots taken)
    (clear : ∀ z, Reached taken roots z → ¬ apart z) (acyclic : ∀ p ∈ roots, c.AcyclicBelow p)
    (h' : Filled answers apart d e roots' taken') (z : NodeId) (hz : Reached taken roots z)
    (name : String) : e.lookup? z name = d.lookup? z name := by
  obtain ⟨p, hp, hway⟩ := hz.below fun a => (h.initial a).subset
  have acyclic_z : c.AcyclicBelow z := fun x hx => acyclic p hp x (hway.trans hx)
  suffices Reached taken roots z → e.lookup? z name = d.lookup? z name from this hz
  refine acyclic_z.induction (P := fun z => Reached taken roots z →
    e.lookup? z name = d.lookup? z name) fun z ih hz => ?_
  by_cases again : Reached taken' roots' z
  · rw [h'.inside z again]
    cases seen : d.lookup? z name with
    | some entry => rw [Option.some_or]
    | none =>
        have nothing := (h.inside z hz name).symm.trans seen
        rw [Option.or_eq_none_iff, Option.or_eq_none_iff, List.findSome?_eq_none_iff] at nothing
        obtain ⟨-, unsupplied, unseen⟩ := nothing
        rw [Option.none_or, supply_of_bareNodes h.bare, unsupplied, Option.none_or,
          List.findSome?_eq_none_iff]
        intro w hw
        have hchild : w ∈ taken z := by
          rw [whole z hz, ← childrenOf_of_bareNodes h.bare]
          exact (h'.initial z).subset hw
        rw [ih w (mem_childrenOf_iff.mp ((h.initial z).subset hchild)) (hz.step hchild)]
        exact unseen w hchild
  · exact h'.outside z again (clear z hz) name

end Filled

/-! ### One walk after the other -/

open Classical in
/-- The children taken by two walks: by the first where it has been, else by the second. -/
noncomputable def takenByBoth (roots : List NodeId) (taken taken' : NodeId → List NodeId)
    (z : NodeId) : List NodeId :=
  if Reached taken roots z then taken z else taken' z

namespace Filled

variable {answers : Answers} {apart : NodeId → Prop} {roots roots' : List NodeId}
  {taken taken' : NodeId → List NodeId}

section

variable (h : Filled answers apart c d roots taken) (whole : c.Whole roots taken)
  (h' : Filled answers apart d e roots' taken')

include h whole h'

theorem reached_both_iff (z : NodeId) :
    Reached (takenByBoth roots taken taken') (roots ++ roots') z ↔
      Reached taken roots z ∨ Reached taken' roots' z := by
  constructor
  · intro hz
    refine hz.induction (P := fun z => Reached taken roots z ∨ Reached taken' roots' z) ?_ ?_
    · intro p hp
      exact (List.mem_append.mp hp).imp .root .root
    · intro a b ha hb
      unfold takenByBoth at hb
      split at hb
      · rename_i first
        exact .inl (first.step hb)
      · rename_i first
        exact .inr ((ha.resolve_left first).step hb)
  · rintro (hz | hz)
    · refine hz.mono (List.subset_append_left _ _) fun a b hb => ?_
      unfold takenByBoth
      split
      · exact hb
      · rename_i idle
        rw [h.idle a idle] at hb
        cases hb
    · refine hz.mono (List.subset_append_right _ _) fun a b hb => ?_
      unfold takenByBoth
      split
      · rename_i first
        rw [whole a first, ← childrenOf_of_bareNodes h.bare]
        exact (h'.initial a).subset hb
      · exact hb

theorem whole_both (whole' : d.Whole roots' taken') :
    c.Whole (roots ++ roots') (takenByBoth roots taken taken') := by
  intro z hz
  unfold takenByBoth
  split
  · rename_i first
    exact whole z first
  · rename_i first
    rw [whole' z (((reached_both_iff h whole h' z).mp hz).resolve_left first),
      childrenOf_of_bareNodes h.bare]

theorem both (clear : ∀ z, Reached taken roots z → ¬ apart z)
    (clear' : ∀ z, Reached taken' roots' z → ¬ apart z) (acyclic : ∀ p ∈ roots, c.AcyclicBelow p) :
    Filled answers apart c e (roots ++ roots') (takenByBoth roots taken taken') where
  bare := h'.bare.trans h.bare
  inside z hz name := by
    have kept := settled h whole clear acyclic h'
    unfold takenByBoth
    split
    · rename_i first
      rw [kept z first, h.inside z first, findSome?_congr fun w hw => kept w (first.step hw) name]
    · rename_i first
      have second := ((reached_both_iff h whole h' z).mp hz).resolve_left first
      rw [h'.inside z second, h.outside z first (clear' z second), supply_of_bareNodes h.bare]
  outside z hz hapart name := by
    rw [reached_both_iff h whole h', not_or] at hz
    rw [h'.outside z hz.2 hapart, h.outside z hz.1 hapart]
  initial z := by
    unfold takenByBoth
    split
    · exact h.initial z
    · rw [← childrenOf_of_bareNodes h.bare]
      exact h'.initial z
  idle z hz := by
    rw [reached_both_iff h whole h', not_or] at hz
    rw [takenByBoth, if_neg hz.1, h'.idle z hz.2]

end

theorem refl (answers : Answers) (same : d.bareNodes = c.bareNodes)
    (kept : ∀ z, ¬ apart z → ∀ name, d.lookup? z name = c.lookup? z name) :
    Filled answers apart c d [] fun _ => [] where
  bare := same
  inside z hz := by
    obtain ⟨p, hp, -⟩ := hz
    cases hp
  outside z _ hapart name := kept z hapart name
  initial _ := List.nil_prefix
  idle _ _ := rfl

theorem weaken {apart' : NodeId → Prop} (h : Filled answers apart c d roots taken)
    (weaker : ∀ z, apart z → apart' z) : Filled answers apart' c d roots taken :=
  { h with outside := fun z hz hapart => h.outside z hz fun ha => hapart (weaker z ha) }

end Filled

/-! ### From the children of a node to the node -/

theorem ne_of_reached {x z : NodeId} {roots : List NodeId} {taken : NodeId → List NodeId}
    (initial : ∀ z, taken z <+: c.childrenOf z) (children : roots ⊆ c.childrenOf x)
    (acyclic : c.AcyclicBelow x) (hz : Reached taken roots z) : z ≠ x := by
  rintro rfl
  obtain ⟨p, hp, hway⟩ := hz.below fun a => (initial a).subset
  exact acyclic z .refl (.head' (mem_childrenOf_iff.mp (children hp)) hway)

section Up

variable {answers : Answers} {x : NodeId} {roots : List NodeId} {taken : NodeId → List NodeId}
  (initial : ∀ z, taken z <+: c.childrenOf z) (children : roots <+: c.childrenOf x)
  (acyclic : c.AcyclicBelow x)

include initial children acyclic

theorem reached_up_iff (z : NodeId) :
    Reached (Function.update taken x roots) [x] z ↔ z = x ∨ Reached taken roots z := by
  constructor
  · intro hz
    refine hz.induction (P := fun z => z = x ∨ Reached taken roots z) ?_ ?_
    · intro p hp
      exact .inl (List.mem_singleton.mp hp)
    · intro a b ha hb
      by_cases same : a = x
      · rw [same, Function.update_self] at hb
        exact .inr (.root hb)
      · rw [Function.update_of_ne same] at hb
        exact .inr ((ha.resolve_left same).step hb)
  · rintro (rfl | hz)
    · exact .root (List.mem_singleton.mpr rfl)
    · refine (hz.induction
        (P := fun z => Reached taken roots z ∧ Reached (Function.update taken x roots) [x] z)
        (fun p hp => ⟨.root hp, ?_⟩) fun a b ha hb => ⟨ha.1.step hb, ha.2.step ?_⟩).2
      · have here : Reached (Function.update taken x roots) [x] x :=
          .root (List.mem_singleton.mpr rfl)
        exact here.step (by rwa [Function.update_self])
      · rwa [Function.update_of_ne (ne_of_reached initial children.subset acyclic ha.1)]

theorem Whole.up (whole : c.Whole roots taken) (all : roots = c.childrenOf x) :
    c.Whole [x] (Function.update taken x roots) := by
  intro z hz
  by_cases same : z = x
  · rw [same, Function.update_self, all]
  · rw [Function.update_of_ne same]
    exact whole z (((reached_up_iff initial children acyclic z).mp hz).resolve_left same)

omit initial in
theorem Filled.up (h : Filled answers (· = x) c d roots taken)
    (own : ∀ name, d.lookup? x name =
      (c.lookup? x name).or ((c.supply answers x name).or (roots.findSome? (d.lookup? · name)))) :
    Filled answers (fun _ => False) c d [x] (Function.update taken x roots) where
  bare := h.bare
  inside z hz name := by
    by_cases same : z = x
    · rw [same, Function.update_self]
      exact own name
    · rw [Function.update_of_ne same]
      have below := ((reached_up_iff h.initial children acyclic z).mp hz).resolve_left same
      exact h.inside z below name
  outside z hz _ name := by
    rw [reached_up_iff h.initial children acyclic, not_or] at hz
    exact h.outside z hz.2 hz.1 name
  initial z := by
    by_cases same : z = x
    · rw [same, Function.update_self]
      exact children
    · rw [Function.update_of_ne same]
      exact h.initial z
  idle z hz := by
    rw [reached_up_iff h.initial children acyclic, not_or] at hz
    rw [Function.update_of_ne hz.1, h.idle z hz.2]

end Up

end Catalog

namespace Federation

open Catalog (Sweeps Filled Whole Reached)

variable {σ : Type} {backend : Backend σ} {answers : Answers}

/-- How far a walk has come at a node: of the children that it has passed it has visited the first,
and all of them as long as the catalog is not shut down. -/
structure Visiting (answers : Answers) (f g : Federation σ) (id : NodeId)
    (passed visited : List NodeId) (taken : NodeId → List NodeId) : Prop where
  swept : Sweeps (fun _ => True) f.catalog g.catalog
  filled : Filled answers (· = id) f.catalog g.catalog visited taken
  own : ∀ name, g.catalog.lookup? id name = ((f.catalog.lookup? id name).or
    (f.catalog.supply answers id name)).or (visited.findSome? (g.catalog.lookup? · name))
  first : visited <+: passed
  all : g.catalog.isLive id → visited = passed ∧ f.catalog.Whole visited taken

/-- A walk from a node that has ended. -/
def Fills (answers : Answers) (f f' : Federation σ) (id : NodeId) : Prop :=
  ∃ taken, Filled answers (fun _ => False) f.catalog f'.catalog [id] taken ∧
    (f'.catalog.isLive id → f.catalog.Whole [id] taken)

theorem lookup?_absorbChild {g : Federation σ} {id child : NodeId} (aligned : g.catalog.Aligned)
    (hid : (g.catalog.node? id).isSome) (name : String) :
    (g.absorbChild id child).catalog.lookup? id name =
      (g.catalog.lookup? id name).or (g.catalog.lookup? child name) := by
  obtain ⟨m, hm⟩ := Option.isSome_iff_exists.mp hid
  unfold absorbChild
  split
  · rename_i n below
    have after : (g.catalog.modify id (·.absorb n)).node? id = some (m.absorb n) := by
      rw [Catalog.node?_modify_self, hm, Option.map_some]
    show (g.catalog.modify id _).lookup? id name = _
    rw [Catalog.lookup?_of_node? after,
      Node.lookup?_absorb (aligned id m hm) (aligned child n below),
      Catalog.lookup?_of_node? hm, Catalog.lookup?_of_node? below]
  · rename_i missing
    have nothing : g.catalog.lookup? child name = none := by
      rw [Catalog.lookup?, missing, Option.bind_none]
    rw [nothing, Option.or_none]

theorem absorbChild_rest (g : Federation σ) (id child : NodeId) :
    (g.absorbChild id child).catalog.bareNodes = g.catalog.bareNodes ∧
      (∀ z, (g.absorbChild id child).catalog.isLive z = g.catalog.isLive z) ∧
      ∀ z, z ≠ id → ∀ name,
        (g.absorbChild id child).catalog.lookup? z name = g.catalog.lookup? z name := by
  unfold absorbChild
  split
  · rename_i n _
    exact ⟨Catalog.bareNodes_modify _ _ fun k => k.bare_absorb n,
      Catalog.isLive_congr (Catalog.length_nodes_modify _ _ _) rfl,
      fun z hz name => Catalog.lookup?_congr (Catalog.node?_modify_of_ne hz _) name⟩
  · exact ⟨rfl, fun _ => rfl, fun _ _ _ => rfl⟩

section Visit

variable {id child : NodeId} {f g g₂ : Federation σ} {passed visited : List NodeId}
  {taken taken' : NodeId → List NodeId}

theorem Visiting.clear (h : Visiting answers f g id passed visited taken)
    (acyclic : f.catalog.AcyclicBelow id) (children : passed <+: f.catalog.childrenOf id)
    (z : NodeId) (hz : Reached taken visited z) : z ≠ id :=
  Catalog.ne_of_reached h.filled.initial (h.first.trans children).subset acyclic hz

/-- What a node sees after it has taken from one more child. What it took from the children before
they still have. -/
theorem Visiting.own_absorbChild (h : Visiting answers f g id visited visited taken)
    (whole : f.catalog.Whole visited taken) (clear : ∀ z, Reached taken visited z → z ≠ id)
    (acyclic : ∀ p ∈ visited, f.catalog.AcyclicBelow p)
    (second : Filled answers (· = id) g.catalog g₂.catalog [child] taken')
    (unchanged : ∀ name, g₂.catalog.lookup? id name = g.catalog.lookup? id name)
    (other : child ≠ id) (aligned : g₂.catalog.Aligned) (found : (g₂.catalog.node? id).isSome)
    (name : String) : (g₂.absorbChild id child).catalog.lookup? id name =
      ((f.catalog.lookup? id name).or (f.catalog.supply answers id name)).or
        ((visited ++ [child]).findSome? ((g₂.absorbChild id child).catalog.lookup? · name)) := by
  obtain ⟨-, -, rest⟩ := absorbChild_rest g₂ id child
  have earlier : ∀ w ∈ visited,
      g.catalog.lookup? w name = (g₂.absorbChild id child).catalog.lookup? w name := by
    intro w hw
    rw [rest w (clear w (.root hw)), h.filled.settled whole clear acyclic second w (.root hw)]
  rw [lookup?_absorbChild aligned found, unchanged, h.own, findSome?_congr earlier,
    ← rest child other, List.findSome?_append, List.findSome?_singleton, Option.or_assoc]

/-- A child that has been refreshed after those before it, and that the node has taken from. Neither
walk comes to the node, so together they are one walk from the children visited so far. -/
theorem Visiting.absorbChild (h : Visiting answers f g id visited visited taken)
    (whole : f.catalog.Whole visited taken) (live : f.catalog.isLive id)
    (acyclic : f.catalog.AcyclicBelow id) (aligned : f.catalog.Aligned)
    (children : visited ++ [child] <+: f.catalog.childrenOf id)
    (swept : Sweeps (fun _ => True) f.catalog (g₂.absorbChild id child).catalog)
    (swept₂ : Sweeps (fun _ => True) f.catalog g₂.catalog) (alive : f.catalog.isLive child)
    (filled' : Filled answers (fun _ => False) g.catalog g₂.catalog [child] taken')
    (whole' : g₂.catalog.isLive child → g.catalog.Whole [child] taken') :
    Visiting answers f (g₂.absorbChild id child) id (visited ++ [child]) (visited ++ [child])
      (Catalog.takenByBoth visited taken taken') := by
  obtain ⟨bare, live_after, rest⟩ := absorbChild_rest g₂ id child
  have earlier := (List.prefix_append visited [child]).trans children
  have later : [child] ⊆ g.catalog.childrenOf id := by
    intro z hz
    rw [Catalog.childrenOf_of_bareNodes h.filled.bare]
    exact children.subset (List.mem_append_right _ hz)
  have clear := h.clear acyclic earlier
  have clear' : ∀ z, Reached taken' [child] z → z ≠ id := fun z hz =>
    Catalog.ne_of_reached filled'.initial later (acyclic.of_bareNodes h.filled.bare) hz
  have second : Filled answers (· = id) g.catalog g₂.catalog [child] taken' :=
    filled'.weaken fun _ => False.elim
  have acyclic' : ∀ p ∈ visited, f.catalog.AcyclicBelow p := fun p hp =>
    acyclic.child (Catalog.mem_childrenOf_iff.mp (earlier.subset hp))
  have both := h.filled.both whole second clear clear' acyclic'
  refine ⟨swept, both.congr ?_ bare fun z hz name => rest z hz name, ?_, List.prefix_rfl,
    fun live' => ⟨rfl, ?_⟩⟩
  · intro z hz
    rcases (h.filled.reached_both_iff whole second z).mp hz with hz | hz
    · exact clear z hz
    · exact clear' z hz
  · obtain ⟨n, hn⟩ := Catalog.isLive_iff.mp live
    obtain ⟨m, hm, -⟩ := Catalog.node?_of_bareNodes swept₂.touches.bareNodes.symm
      (Catalog.node?_of_get hn)
    refine h.own_absorbChild whole clear acyclic' second (fun name => ?_)
      (clear' child (.root (List.mem_singleton.mpr rfl))) (swept₂.aligned aligned)
      (Option.isSome_iff_exists.mpr ⟨m, hm⟩)
    exact filled'.outside id (fun hz => clear' id hz rfl) not_false name
  · rw [live_after] at live'
    refine h.filled.whole_both whole second (whole' ?_)
    rw [swept₂.touches.isLive live', alive]

theorem visiting_visitChild {walk : Federation σ → NodeId → Option (Federation σ)}
    {n : Node} {g' : Federation σ} {entry : String × NodeId} (sound : f.catalog.Sound)
    (aligned : f.catalog.Aligned) (live : f.catalog.isLive id) (acyclic : f.catalog.AcyclicBelow id)
    (walks : ∀ {g'}, g.catalog.isLive entry.2 → walk g entry.2 = some g' →
      Fills answers g g' entry.2 ∧ Sweeps (fun _ => True) g.catalog g'.catalog)
    (swept : Sweeps (fun _ => True) f.catalog g'.catalog)
    (children : passed ++ [entry.2] <+: f.catalog.childrenOf id)
    (h : Visiting answers f g id passed visited taken)
    (hvisit : visitChild walk id n g entry = some g') :
    ∃ visited' taken', Visiting answers f g' id (passed ++ [entry.2]) visited' taken' := by
  have alive : f.catalog.isLive entry.2 :=
    sound.isLive_of_lists live (Catalog.mem_childrenOf_iff.mp (children.subset (by simp)))
  cases hlive : g.catalog.get entry.2 with
  | error e =>
      rw [visitChild_of_error hlive] at hvisit
      cases hvisit
      have dead (live' : g.catalog.isLive id) : False := by
        rw [← h.swept.touches.isLive live'] at alive
        obtain ⟨k, hk⟩ := Catalog.isLive_iff.mp alive
        rw [hlive] at hk
        cases hk
      have clear := h.clear acyclic ((List.prefix_append _ _).trans children)
      exact ⟨visited, taken, swept, h.filled.congr clear rfl fun _ _ _ => rfl, h.own,
        h.first.trans (List.prefix_append _ _), fun live' => (dead live').elim⟩
  | ok k =>
      rw [visitChild_of_live hlive] at hvisit
      obtain ⟨g₂, hg₂, rfl⟩ := Option.map_eq_some_iff.mp hvisit
      have live_child := Catalog.isLive_of_get hlive
      obtain ⟨⟨taken', filled', whole'⟩, swept'⟩ := walks live_child hg₂
      obtain ⟨rfl, whole⟩ := h.all (by rw [h.swept.touches.isLive live_child, live])
      exact ⟨_, _, h.absorbChild whole live acyclic aligned children swept (h.swept.trans swept')
        alive filled' whole'⟩

end Visit

theorem lookup?_stamp (g : Federation σ) (id : NodeId) (now : Instant) (z : NodeId)
    (name : String) :
    (g.modify id (·.stamp now)).catalog.lookup? z name = g.catalog.lookup? z name := by
  show (g.catalog.modify id _).lookup? z name = _
  by_cases same : z = id
  · subst same
    rw [Catalog.lookup?, Catalog.node?_modify_self, Catalog.lookup?]
    cases g.catalog.node? z <;> rfl
  · exact Catalog.lookup?_congr (Catalog.node?_modify_of_ne same _) name

theorem Visiting.fills {f g : Federation σ} {id : NodeId} {visited : List NodeId}
    {taken : NodeId → List NodeId} (now : Instant)
    (h : Visiting answers f g id (f.catalog.childrenOf id) visited taken)
    (acyclic : f.catalog.AcyclicBelow id) : Fills answers f (g.modify id (·.stamp now)) id := by
  have filled : Filled answers (fun _ => False) f.catalog g.catalog [id]
      (Function.update taken id visited) :=
    h.filled.up h.first acyclic fun name => by rw [h.own, Option.or_assoc]
  refine ⟨_, filled.congr (fun _ _ => not_false)
    (Catalog.bareNodes_modify _ _ fun n => n.bare_stamp now)
    fun z _ name => lookup?_stamp g id now z name, fun live => ?_⟩
  obtain ⟨all, whole⟩ := h.all (by
    rwa [← Catalog.isLive_congr (Catalog.length_nodes_modify g.catalog id _) rfl id])
  exact whole.up h.filled.initial h.first acyclic all

theorem visiting_loadOwn (gives : backend.Gives answers) {f : Federation σ} {id : NodeId} {n : Node}
    (sound : f.catalog.Sound) (aligned : f.catalog.Aligned) (found : f.catalog.node? id = some n) :
    Visiting answers f (f.loadOwn backend n) id [] [] fun _ => [] := by
  have own : Sweeps (· = id) f.catalog (f.loadOwn backend n).catalog :=
    sweeps_loadOwn backend f (sound.ids id n found)
  refine ⟨sweeps_loadOwn backend f trivial, .refl answers own.touches.bareNodes ?_, ?_,
    List.prefix_rfl, fun _ => ⟨rfl, ?_⟩⟩
  · intro z hz name
    exact Catalog.lookup?_congr (own.node?_of_outside sound hz) name
  · intro name
    rw [(lookup?_loadOwn (fun source _ => gives.givesAt source) found (sound.ids id n found) aligned
      trivial).2, List.findSome?_nil, Option.or_none]
  · rintro z ⟨p, hp, -⟩
    cases hp

/-- A walk fills in what it comes to, if no cycle of child links lies below. -/
theorem fills_refreshWithin (gives : backend.Gives answers) {now : Instant} {depth : Nat}
    {held : List NodeId} {f f' : Federation σ} {id : NodeId} (sound : f.catalog.Sound)
    (aligned : f.catalog.Aligned) (live : f.catalog.isLive id) (acyclic : f.catalog.AcyclicBelow id)
    (h : refreshWithin backend now depth held f id = some f') : Fills answers f f' id := by
  refine refreshWithin_induction (P := fun f f' id => f.catalog.Sound → f.catalog.Aligned →
    f.catalog.isLive id → f.catalog.AcyclicBelow id → Fills answers f f' id) ?_ ?_ h sound aligned
    live acyclic
  · intro f id missing _ _ live _
    obtain ⟨n, hn⟩ := Catalog.isLive_iff.mp live
    rw [Catalog.node?_of_get hn] at missing
    cases missing
  · intro walk f id n g walks found hg sound aligned live acyclic
    have children : f.catalog.childrenOf id = n.children.entries.map (·.2) :=
      Catalog.childrenOf_of_node? found
    obtain ⟨-, visited, taken, visiting⟩ := children_induction
      (fun _ _ _ hwalk => (walks _ _ _ hwalk).1) found
      (P := fun done g => ∃ visited taken, Visiting answers f g id (done.map (·.2)) visited taken)
      ⟨[], _, visiting_loadOwn gives sound aligned found⟩
      (by
        rintro done entry g g' hprefix sofar ⟨visited, taken, visiting⟩ hvisit sofar'
        have below : done.map (·.2) ++ [entry.2] <+: f.catalog.childrenOf id := by
          rw [children]
          simpa using hprefix.map (·.2)
        have listed := Catalog.mem_childrenOf_iff.mp
          (below.subset (List.mem_append_right _ (List.mem_singleton.mpr rfl)))
        rw [List.map_append, List.map_singleton]
        refine visiting_visitChild sound aligned live acyclic (fun {g'} alive hwalk => ?_) sofar'
          below visiting hvisit
        exact ⟨(walks _ _ _ hwalk).2 (sofar.sound sound) (sofar.aligned aligned) alive
          ((acyclic.child listed).of_bareNodes sofar.touches.bareNodes), (walks _ _ _ hwalk).1⟩)
      hg
    rw [← children] at visiting
    exact visiting.fills now acyclic

end Federation

end SchemaCatalog
