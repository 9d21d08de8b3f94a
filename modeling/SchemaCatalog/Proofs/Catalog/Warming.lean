import SchemaCatalog.Proofs.Catalog.Demand
import SchemaCatalog.Proofs.Catalog.Idle

/-!
A node before and after use. While the answers of its source do not change, a node without children
holds nothing but what its source answers to a load on demand or supplies to a refresh. So a name
loads from a node in use as it does from a new one, unless the node in use resolves it in another
way than by the name without its schema, or a refresh has taken another of the listed spellings.
-/

namespace SchemaCatalog

open Relation (ReflTransGen)

/-! ### Where a table comes from -/

namespace Answers

variable {answers : Answers} {m n : Node} {name : String}

/-- What a node answers that is asked to load a name without a schema, in lowercase, and does not
resolve it. -/
def demand (answers : Answers) (n : Node) (name : String) : Except CatalogError Table :=
  if n.allows name then
    match n.source with
    | none => .error (.sourceNotFound name)
    | some source =>
      let spelling := listedSpelling (answers.list source) name
      n.take spelling (answers.describe source spelling)
  else .error (.tableNotFound name)

theorem demand_of_bare (h : m.bare = n.bare) : answers.demand m = answers.demand n := by
  show answers.demand m.bare = answers.demand n.bare
  rw [h]

/-- The source of a node is the origin of a table that the node has under a name. -/
def Provides (answers : Answers) (n : Node) (name : String) (t : Table) : Prop :=
  answers.demand n name = .ok t ∨ answers.supply n name = some t

/-- What a refresh takes is what a load on demand answers, if the first listed spelling of the name
that is described is the one by which the source is asked on demand. -/
theorem demand_of_describedFirst {source : SourceId} {described : Table}
    (hsource : n.source = some source) (allowed : n.allows name = true)
    (first : answers.DescribedFirst n name (listedSpelling (answers.list source) name) described) :
    answers.demand n name =
      .ok (n.adopt (listedSpelling (answers.list source) name) described) := by
  obtain ⟨source', before, after, hsource', -, -, answered, -⟩ := first
  rw [hsource] at hsource'
  cases hsource'
  rw [demand, if_pos allowed, hsource]
  simp only
  rw [answered]
  rfl

end Answers

/-! ### A node in use -/

/-- A name is loaded on demand, or the node is refreshed. -/
inductive Use {σ : Type} (backend : Backend σ) (id : NodeId) :
    Federation σ → Federation σ → Prop where
  | load (f : Federation σ) (name : String) : Use backend id f (f.loadTable backend id name).2
  | refresh {f f' : Federation σ} {now : Instant} {answer : Except CatalogError Unit}
      (ended : f.refresh backend now id = some (answer, f')) : Use backend id f f'

/-- A node that has been used: all it has gained is tables of its own that its source provides. -/
structure InUse (answers : Answers) (n m : Node) : Prop where
  bare : m.bare = n.bare
  provided : ∀ name owner t, m.directory.lookup? name = some (owner, t) →
    owner = n.id ∧ answers.Provides n name t

theorem InUse.of_empty {answers : Answers} {n : Node} (empty : n.directory = {}) :
    InUse answers n n := by
  refine ⟨rfl, fun name owner t holds => ?_⟩
  rw [empty] at holds
  cases holds

theorem Node.unresolved_of_empty {n : Node} (empty : n.directory = {}) (name : String) :
    ∃ e, n.table name = .error e := by
  have nothing {key : String} {t : Table} : n.directory.tables.get? key ≠ some t := by
    rw [empty]
    nofun
  cases resolved : n.table name with
  | error e => exact ⟨e, rfl⟩
  | ok t =>
      cases table_eq_ok_iff.mp resolved with
      | given held => exact absurd held nothing
      | plain _ held => exact absurd held nothing
      | aliased _ _ held =>
          obtain ⟨conf, -, held⟩ := Option.bind_eq_some_iff.mp held
          obtain ⟨target, -, held⟩ := Option.bind_eq_some_iff.mp held
          exact absurd held nothing

theorem InUse.gives {σ : Type} {backend : Backend σ} {answers : Answers} {good : σ → Prop}
    {m n : Node} (h : InUse answers n m)
    (gives : ∀ source, n.source = some source → backend.GivesAt answers source good)
    (source : SourceId) (hsource : m.source = some source) :
    backend.GivesAt answers source good :=
  gives source ((Node.source_eq_of_bare h.bare).symm.trans hsource)

namespace Federation

variable {σ : Type} {backend : Backend σ} {answers : Answers} {good : σ → Prop}
  {f g : Federation σ} {id : NodeId} {n : Node} {name : String}

/-- The state of the world in which a node is used. -/
structure Usage (answers : Answers) (good : σ → Prop) (id : NodeId) (n : Node)
    (f : Federation σ) : Prop where
  aligned : f.catalog.Aligned
  sources : good f.sources
  node : ∃ m, f.catalog.node? id = some m ∧ InUse answers n m

theorem answer_of_missed
    (gives : ∀ source, n.source = some source → backend.GivesAt answers source good)
    (found : f.catalog.node? id = some n) (start : good f.sources) {e : CatalogError}
    (missed : n.table name = .error e) :
    (f.loadTable backend id name).1 = answers.demand n (Node.plainName name) := by
  unfold Answers.demand
  cases n.access name with
  | resolved resolved =>
      rw [missed] at resolved
      cases resolved
  | barred missed barred =>
      rw [loadTable_of_barred found backend missed barred, barred]
      rfl
  | unsourced missed allowed hsource =>
      rw [loadTable_of_unsourced found backend missed allowed hsource, if_pos allowed, hsource]
  | asked missed allowed source hsource =>
      rw [if_pos allowed, hsource]
      exact (demand_of_gives found hsource (gives source hsource) start allowed missed rfl).2

theorem good_loadTable
    (gives : ∀ source, n.source = some source → backend.GivesAt answers source good)
    (found : f.catalog.node? id = some n) (start : good f.sources) :
    good (f.loadTable backend id name).2.sources := by
  cases n.access name with
  | resolved resolved =>
      rw [loadTable_of_resolved found backend resolved]
      exact start
  | barred missed barred =>
      rw [loadTable_of_barred found backend missed barred]
      exact start
  | unsourced missed allowed hsource =>
      rw [loadTable_of_unsourced found backend missed allowed hsource]
      exact start
  | asked missed allowed source hsource =>
      rw [loadTable_eq found backend missed allowed hsource]
      simp only [sources_settle]
      have listed := ((gives source hsource).list f.sources start).2
      exact ((gives source hsource).describe _ _ listed).2

section Steps

variable (gives : ∀ source, n.source = some source → backend.GivesAt answers source good)
  (own : n.id = id)

include gives own

theorem Usage.load (h : Usage answers good id n f) (name : String) :
    Usage answers good id n (f.loadTable backend id name).2 := by
  obtain ⟨m, found, used⟩ := h.node
  have gives' := used.gives gives
  have own' : m.id = id := (Node.id_eq_of_bare used.bare).trans own
  refine ⟨(touches_loadTable backend f id name).steps.keep Catalog.Step.aligned h.aligned,
    good_loadTable gives' found h.sources, ?_⟩
  have after := node?_loadTable found own' backend name id
  rw [if_pos rfl] at after
  refine ⟨_, after, ?_⟩
  cases missed : m.table name with
  | ok t =>
      rw [Node.keep_of_resolved missed]
      exact used
  | error e =>
      have answered := answer_of_missed gives' found h.sources missed
      rw [Answers.demand_of_bare used.bare] at answered
      cases answer : answers.demand n (Node.plainName name) with
      | error e =>
          rw [answered, answer, Node.keep_of_error]
          exact used
      | ok t =>
          rw [answered, answer, Node.keep_of_missed missed]
          refine ⟨used.bare, fun key owner t' holds => ?_⟩
          rw [Node.register, Directory.lookup?_register] at holds
          split at holds
          · rename_i hkey
            cases holds
            exact ⟨Node.id_eq_of_bare used.bare, .inl (hkey ▸ answer)⟩
          · exact used.provided key owner t' holds

theorem Usage.refresh (childless : n.children = ∅) (h : Usage answers good id n f)
    {now : Instant} {answer : Except CatalogError Unit}
    (ended : f.refresh backend now id = some (answer, g)) : Usage answers good id n g := by
  have touches := touches_refresh backend now ended
  cases answer with
  | error e =>
      obtain rfl := refresh_of_error now ended
      exact h
  | ok =>
      obtain ⟨m, found, used⟩ := h.node
      have live := Catalog.get_of_isLive (isLive_of_refresh ended) found
      have childless' := (Node.children_eq_of_bare used.bare).trans childless
      rw [refresh_childless now live childless'] at ended
      cases ended
      have gives' := used.gives gives
      obtain ⟨asked, entries⟩ := lookup?_loadOwn gives' found
        ((Node.id_eq_of_bare used.bare).trans own) h.aligned h.sources
      obtain ⟨m', found', hbare⟩ := Catalog.node?_of_bareNodes touches.bareNodes.symm found
      refine ⟨touches.steps.keep Catalog.Step.aligned h.aligned, asked, m', found',
        hbare.trans used.bare, fun name owner t holds => ?_⟩
      rw [← Catalog.lookup?_of_node? found', lookup?_stamp, entries, Catalog.lookup?_of_node? found,
        Catalog.supply_of_node? found, Option.or_eq_some_iff] at holds
      rcases holds with held | ⟨-, supplied⟩
      · exact used.provided name owner t held
      · obtain ⟨t', supplied, heq⟩ := Option.map_eq_some_iff.mp supplied
        cases heq
        rw [Answers.supply_of_bare used.bare] at supplied
        exact ⟨own.symm, .inr supplied⟩

theorem Usage.uses (childless : n.children = ∅) (h : Usage answers good id n f)
    (uses : ReflTransGen (Use backend id) f g) : Usage answers good id n g := by
  induction uses with
  | refl => exact h
  | tail _ use ih =>
      cases use with
      | load name => exact ih.load gives own name
      | refresh ended => exact ih.refresh gives own childless ended

end Steps

end Federation

/-! ### Cold and warm -/

/-- A node in use resolves a name to a table that the name without its schema does not lead to on
demand: it has the name with its schema, or an alias of the name, or a refresh has taken another
listed spelling of the name than the one by which the source is asked. -/
inductive Detour (answers : Answers) (n m : Node) (name : String) (t : Table) : Prop where
  | qualified (divided : Node.plainName name ≠ Text.lowercase name)
      (held : m.directory.tables.get? (Text.lowercase name) = some t)
  | aliased (missed : m.directory.tables.get? (Text.lowercase name) = none)
      (missed_plain : m.directory.tables.get? (Node.plainName name) = none)
      (held : m.aliased? (Node.plainName name) = some t)
  | respelled {source : SourceId} {listed : String} {described : Table}
      (hsource : n.source = some source)
      (first : answers.DescribedFirst n (Node.plainName name) listed described)
      (other : listed ≠ listedSpelling (answers.list source) (Node.plainName name))
      (taken : t = n.adopt listed described)

namespace InUse

variable {answers : Answers} {n m : Node} {name : String} {t : Table}

/-- What a source provides under the name without its schema is what a load on demand answers, or a
refresh has taken another spelling. -/
theorem demand_or_detour (provided : answers.Provides n (Node.plainName name) t) :
    answers.demand n (Node.plainName name) = .ok t ∨ Detour answers n m name t := by
  rcases provided with demanded | supplied
  · exact .inl demanded
  · obtain ⟨listed, described, first, rfl⟩ := Answers.describedFirst_of_supply supplied
    have supplies := Answers.isSome_supply_iff.mp (Option.isSome_of_eq_some supplied)
    obtain ⟨source, -, -, hsource, -, -, allowed, -⟩ := supplies
    by_cases same : listed = listedSpelling (answers.list source) (Node.plainName name)
    · subst same
      exact .inl (Answers.demand_of_describedFirst hsource allowed first)
    · exact .inr (.respelled hsource first same rfl)

theorem demand_or_detour_of_table (h : InUse answers n m) (aligned : m.directory.Aligned)
    (resolved : m.table name = .ok t) :
    answers.demand n (Node.plainName name) = .ok t ∨ Detour answers n m name t := by
  have provided {key : String} (held : m.directory.tables.get? key = some t) :
      answers.Provides n key t := by
    rw [aligned.tables_get?] at held
    obtain ⟨⟨owner, t'⟩, entry, rfl⟩ := Option.map_eq_some_iff.mp held
    exact (h.provided key owner t' entry).2
  cases Node.table_eq_ok_iff.mp resolved with
  | given held =>
      by_cases plain : Node.plainName name = Text.lowercase name
      · exact demand_or_detour (plain ▸ provided held)
      · exact .inr (.qualified plain held)
  | plain missed held => exact demand_or_detour (provided held)
  | aliased missed missed_plain held => exact .inr (.aliased missed missed_plain held)

end InUse

namespace Run

variable {σ : Type} {r : Run σ} {f g : Federation σ} {id : NodeId} {n : Node}

/-- A new node without children answers to every name what its source answers to the name without
its schema. After any use of the node, as long as the source answers as before, a name that loads
leads to the same table as on the new node, or the node in use has resolved it by a detour. -/
theorem loads_as_new (visited : r.Visits f) (found : f.catalog.node? id = some n)
    (empty : n.directory = {}) (childless : n.children = ∅) {backend : Backend σ}
    {answers : Answers} {good : σ → Prop}
    (gives : ∀ source, n.source = some source → backend.GivesAt answers source good)
    (start : good f.sources) (name : String) :
    (f.loadTable backend id name).1 = answers.demand n (Node.plainName name) ∧
      ∀ g, ReflTransGen (Use backend id) f g → ∃ m, g.catalog.node? id = some m ∧
        ∀ t, (g.loadTable backend id name).1 = .ok t →
          (f.loadTable backend id name).1 = .ok t ∨ Detour answers n m name t := by
  have own := (Run.sound visited).ids id n found
  obtain ⟨e, missed⟩ := Node.unresolved_of_empty empty name
  have cold := Federation.answer_of_missed gives found start missed
  have new : Federation.Usage answers good id n f :=
    ⟨Run.aligned visited, start, n, found, .of_empty empty⟩
  refine ⟨cold, fun g uses => ?_⟩
  have used := new.uses gives own childless uses
  obtain ⟨m, found', inUse⟩ := used.node
  refine ⟨m, found', fun t answer => ?_⟩
  rw [cold]
  cases resolved : m.table name with
  | ok t' =>
      rw [Federation.loadTable_of_resolved found' backend resolved] at answer
      cases answer
      exact inUse.demand_or_detour_of_table (used.aligned id m found') resolved
  | error e =>
      have gives' := inUse.gives gives
      rw [Federation.answer_of_missed gives' found' used.sources resolved,
        Answers.demand_of_bare inUse.bare] at answer
      exact .inl answer

/-- A source with a dot in one name and two spellings of another, of which the first cannot be
described. -/
def wardrobeAnswers : Answers where
  list _ := ["Orders", "a.b", "T", "t"]
  describe _ name :=
    if name = "T" then .error (.backend "locked")
    else if name ∈ ["Orders", "a.b", "t"] then .ok (some (.new name))
    else .ok none

/-- A node with this source and another name for one table. -/
def wardrobe : Run Unit where
  backend := .always wardrobeAnswers
  sources := ()
  operations := [.createWithConfig
    { name := "sales", tableAliases := (∅ : NameMap String).insert "ord" "orders" } (some ⟨0⟩)]

theorem wardrobe_new : ∃ f n, wardrobe.after wardrobe.operations = some f ∧
    f.catalog.node? ⟨0⟩ = some n ∧ n.directory = {} ∧ n.children = ∅ :=
  ⟨_, _, rfl, rfl, rfl, rfl⟩

/-- The spellings in which some names load from the node before and after a refresh. -/
def wardrobeLoads (names : List String) : Option (List (Option String × Option String)) :=
  (wardrobe.after wardrobe.operations).bind fun f =>
    (f.refresh wardrobe.backend ⟨0, 0⟩ ⟨0⟩).map fun result =>
      names.map fun name =>
        ((f.loadTable wardrobe.backend ⟨0⟩ name).1.toOption.map (·.originalName),
          (result.2.loadTable wardrobe.backend ⟨0⟩ name).1.toOption.map (·.originalName))

/-- A name with a schema loads from the new node as it does after a refresh. -/
theorem loads_as_new_qualified : ∃ f n g t, wardrobe.Visits f ∧ f.catalog.node? ⟨0⟩ = some n ∧
    n.directory = {} ∧ n.children = ∅ ∧
    (∀ source, wardrobe.backend.GivesAt wardrobeAnswers source fun _ => True) ∧
    ReflTransGen (Use wardrobe.backend ⟨0⟩) f g ∧
    (g.loadTable wardrobe.backend ⟨0⟩ "Sales.ORDERS").1 = .ok t ∧ t.originalName = "Orders" ∧
    (f.loadTable wardrobe.backend ⟨0⟩ "Sales.ORDERS").1.toOption.map (·.originalName) =
      some "Orders" ∧
    ∃ m, g.catalog.node? ⟨0⟩ = some m ∧
      ((f.loadTable wardrobe.backend ⟨0⟩ "Sales.ORDERS").1 = .ok t ∨
        Detour wardrobeAnswers n m "Sales.ORDERS" t) := by
  obtain ⟨f, n, hf, found, empty, childless⟩ := wardrobe_new
  have computed : wardrobeLoads ["Sales.ORDERS"] = some [(some "Orders", some "Orders")] := by
    decide +kernel
  rw [wardrobeLoads, hf, Option.bind_some] at computed
  obtain ⟨⟨answer, g⟩, refreshed, loaded⟩ := Option.map_eq_some_iff.mp computed
  simp only [List.map_cons, List.map_nil, List.cons.injEq, Prod.mk.injEq, and_true] at loaded
  obtain ⟨cold, warm⟩ := loaded
  obtain ⟨t, answered, original⟩ := exists_ok_of_toOption warm
  have visited : wardrobe.Visits f := ⟨_, List.prefix_rfl, hf⟩
  have gives (source : SourceId) : wardrobe.backend.GivesAt wardrobeAnswers source fun _ => True :=
    (Backend.gives_always wardrobeAnswers).givesAt source
  have used : ReflTransGen (Use wardrobe.backend ⟨0⟩) f g := .single (.refresh refreshed)
  obtain ⟨-, warmed⟩ := loads_as_new visited found empty childless (fun source _ => gives source)
    trivial "Sales.ORDERS"
  obtain ⟨m, found', same⟩ := warmed g used
  exact ⟨f, n, g, t, visited, found, empty, childless, gives, used, answered, original, cold, m,
    found', same t answered⟩

/-- An alias, a name that is listed with a dot in it, and a name of which the first listed spelling
cannot be described load after a refresh and not before. -/
theorem wardrobe_loads_after_refresh : ∃ f n g, wardrobe.Visits f ∧
    f.catalog.node? ⟨0⟩ = some n ∧ n.directory = {} ∧ n.children = ∅ ∧
    wardrobe.backend.Gives wardrobeAnswers ∧ ReflTransGen (Use wardrobe.backend ⟨0⟩) f g ∧
    ∀ name ∈ ["ord", "a.b", "t"], (∃ t, (g.loadTable wardrobe.backend ⟨0⟩ name).1 = .ok t) ∧
      ∀ t, (f.loadTable wardrobe.backend ⟨0⟩ name).1 ≠ .ok t := by
  obtain ⟨f, n, hf, found, empty, childless⟩ := wardrobe_new
  have computed : wardrobeLoads ["ord", "a.b", "t"] =
      some [(none, some "Orders"), (none, some "a.b"), (none, some "t")] := by
    decide +kernel
  rw [wardrobeLoads, hf, Option.bind_some] at computed
  obtain ⟨⟨answer, g⟩, refreshed, loaded⟩ := Option.map_eq_some_iff.mp computed
  simp only [List.map_cons, List.map_nil, List.cons.injEq, Prod.mk.injEq, and_true] at loaded
  obtain ⟨⟨coldAlias, warmAlias⟩, ⟨coldDotted, warmDotted⟩, coldSpelled, warmSpelled⟩ := loaded
  have apart {name spelling : String}
      (cold : (f.loadTable wardrobe.backend ⟨0⟩ name).1.toOption.map (·.originalName) = none)
      (warm : (g.loadTable wardrobe.backend ⟨0⟩ name).1.toOption.map (·.originalName) =
        some spelling) :
      (∃ t, (g.loadTable wardrobe.backend ⟨0⟩ name).1 = .ok t) ∧
        ∀ t, (f.loadTable wardrobe.backend ⟨0⟩ name).1 ≠ .ok t := by
    obtain ⟨t, answered, -⟩ := exists_ok_of_toOption warm
    refine ⟨⟨t, answered⟩, fun t' answered' => ?_⟩
    rw [answered'] at cold
    cases cold
  refine ⟨f, n, g, ⟨_, List.prefix_rfl, hf⟩, found, empty, childless,
    Backend.gives_always wardrobeAnswers, .single (.refresh refreshed), ?_⟩
  simp only [List.mem_cons, List.not_mem_nil, or_false, forall_eq_or_imp, forall_eq]
  exact ⟨apart coldAlias warmAlias, apart coldDotted warmDotted, apart coldSpelled warmSpelled⟩

end Run

end SchemaCatalog
