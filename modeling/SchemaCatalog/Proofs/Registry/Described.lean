import Mathlib.Data.List.Forall2
import SchemaCatalog.Proofs.Registry.Branch

/-!
What a registry of the built-in types builds from a configuration: one root for each schema, in
order, with a branch for each source that the schema lists. A root sees what its sources declare and
let in, and under each name the table of the last of them.
-/

namespace SchemaCatalog

open List (Forall₂)
open MemorySource (TableSetting DeclaresLast ofSettings)

/-! ### The first offence -/

namespace CatalogConfig

variable {config : CatalogConfig} {schema : SchemaConfig} {listed : String} {e : CatalogError}
  {part : List (SchemaConfig × String)}

/-- The names of sources, each with the schema that lists it, in order. -/
def entries (config : CatalogConfig) : List (SchemaConfig × String) :=
  config.schemas.flatMap fun schema => schema.sources.map (schema, ·)

/-- The error tells what is wrong with the first entry with which something is wrong. -/
def FirstOffence (config : CatalogConfig) (entries : List (SchemaConfig × String))
    (e : CatalogError) : Prop :=
  ∃ before schema listed after, entries = before ++ (schema, listed) :: after ∧
    (∀ entry ∈ before, ∃ conf settings, config.Describes entry.2 conf settings) ∧
    config.Offends schema listed e

theorem FirstOffence.append (h : config.FirstOffence part e)
    (later : List (SchemaConfig × String)) : config.FirstOffence (part ++ later) e := by
  obtain ⟨before, schema, listed, after, rfl, good, offends⟩ := h
  exact ⟨before, schema, listed, after ++ later, by simp, good, offends⟩

theorem FirstOffence.after {earlier : List (SchemaConfig × String)}
    (h : config.FirstOffence part e)
    (good : ∀ entry ∈ earlier, ∃ conf settings, config.Describes entry.2 conf settings) :
    config.FirstOffence (earlier ++ part) e := by
  obtain ⟨before, schema, listed, after, rfl, good', offends⟩ := h
  refine ⟨earlier ++ before, schema, listed, after, by simp, fun entry mem => ?_, offends⟩
  rcases List.mem_append.mp mem with mem | mem
  · exact good entry mem
  · exact good' entry mem

end CatalogConfig

/-! ### Lists side by side -/

section Forall₂

variable {α γ : Type} {R : α → γ → Prop} {l : List α} {l' : List γ}

theorem exists_right_of_mem (h : Forall₂ R l l') {a : α} (mem : a ∈ l) : ∃ b ∈ l', R a b := by
  induction h with
  | nil => cases mem
  | cons hab _ ih =>
      rcases List.mem_cons.mp mem with rfl | mem
      · exact ⟨_, List.mem_cons_self, hab⟩
      · obtain ⟨b, hb, hR⟩ := ih mem
        exact ⟨b, List.mem_cons_of_mem _ hb, hR⟩

theorem exists_left_of_mem (h : Forall₂ R l l') {b : γ} (mem : b ∈ l') : ∃ a ∈ l, R a b :=
  exists_right_of_mem (R := fun b a => R a b) h.flip mem

end Forall₂

namespace Registry

open Catalog (Keeps Branch Restamped)
open SchemaCatalog.Action (bind_of_ok bind_of_error)

variable {β : Type} {other : SourceKind β} {config : CatalogConfig} {schema : SchemaConfig}
  {f₀ f f' : Federation (SourcePool (MemorySource ⊕ β))} {root child : NodeId} {m : Node}
  {listed : String} {done : List String} {children : List NodeId} {now : Instant}

/-! ### While a schema is built -/

/-- The branch that has been built for a listed source. -/
def BuiltBelow (config : CatalogConfig) (f : Federation (SourcePool (MemorySource ⊕ β)))
    (root : NodeId) (listed : String) (child : NodeId) : Prop :=
  child ≠ root ∧ ∃ conf settings n source, config.Describes listed conf settings ∧
    f.catalog.Branch root child conf settings n ∧ n.source = some source ∧
    f.sources.get? source = some (.inl (ofSettings conf.name settings))

/-- Some sources of a schema have been built below its root, and nothing else has happened since the
root was created. -/
structure Stage (config : CatalogConfig) (schema : SchemaConfig)
    (f₀ f : Federation (SourcePool (MemorySource ⊕ β))) (root : NodeId) (m : Node)
    (done : List String) (children : List NodeId) : Prop where
  sound : f.catalog.Sound
  aligned : f.catalog.Aligned
  keeps : Keeps (fun id => id.index < f₀.catalog.nodes.length) f₀.catalog f.catalog
  new : root.index = f₀.catalog.nodes.length
  live : f.catalog.get root = .ok m
  name : m.name = Text.lowercase schema.name
  unbound : m.source = none
  top : m.parent = none
  below : ∀ key child, m.children.get? key = some child → child ∈ children
  branches : Forall₂ (BuiltBelow config f root) done children
  ascending : (root :: children).Pairwise (·.index < ·.index)
  sees : ∀ name, f.catalog.lookup? root name = children.reverse.findSome? (f.catalog.lookup? · name)

theorem Stage.start (config : CatalogConfig) (schema : SchemaConfig)
    (sound : f.catalog.Sound) (aligned : f.catalog.Aligned)
    (room : f.catalog.released ≤ f.catalog.nodes.length) :
    ∃ m, Stage config schema f { f with catalog := (f.catalog.create schema.name none).2 }
      ⟨f.catalog.nodes.length⟩ m [] [] := by
  obtain ⟨m, live, name, -, unbound, top, childless, bare⟩ :=
    Catalog.get_created room schema.name none none
  refine ⟨m, sound.insertNode _ _ _, Catalog.Step.aligned (.create _ _ _) aligned, .insertNode ..,
    rfl, live, name, unbound, top, fun key child hchild => ?_, .nil, by simp, fun name => ?_⟩
  · rw [childless] at hchild
    cases hchild
  · show (f.catalog.insertNode schema.name none none).2.lookup? _ name = _
    rw [Catalog.lookup?_of_node? (Catalog.node?_of_get live), bare]
    rfl

theorem Stage.older (stage : Stage config schema f₀ f root m done children) {z : NodeId}
    (hz : z ∈ children) : z ≠ root ∧ z.index < f.catalog.nodes.length ∧
      ∃ k, f.catalog.node? z = some k := by
  obtain ⟨_, -, ne, _, _, k, _, -, branch, -⟩ := exists_left_of_mem stage.branches hz
  exact ⟨ne, (Catalog.isLive_iff_lt.mp (Catalog.isLive_of_get branch.live)).2, k,
    Catalog.node?_of_get branch.live⟩

theorem Stage.next (stage : Stage config schema f₀ f root m done children) {conf : SourceConfig}
    {settings : List TableSetting} (describes : config.Describes listed conf settings)
    (grafted : Grafted f f' root child m conf settings) :
    ∃ m', Stage config schema f₀ f' root m' (done ++ [listed]) (children ++ [child]) := by
  obtain ⟨m', key, live, bare, sees⟩ := grafted.root
  obtain ⟨n, source, branch, hsource, held⟩ := grafted.branch
  have root_older : root.index < child.index := by
    rw [grafted.new]
    exact (Catalog.isLive_iff_lt.mp (Catalog.isLive_of_get stage.live)).2
  refine ⟨m', grafted.sound, grafted.aligned, stage.keeps.andThen grafted.keeps ?_, stage.new, live,
    (Node.name_eq_of_bare bare).trans stage.name, (Node.source_eq_of_bare bare).trans stage.unbound,
    (Node.parent_eq_of_bare bare).trans stage.top, ?_, ?_, ?_, fun name => ?_⟩
  · rintro id - before rfl
    exact Nat.lt_irrefl _ (stage.new ▸ before)
  · intro key' child' hchild
    rw [Node.children_eq_of_bare bare, NameMap.get?_insert] at hchild
    split at hchild
    · cases hchild
      simp
    · exact List.mem_append_left _ (stage.below key' child' hchild)
  · refine List.rel_append (stage.branches.imp ?_) (.cons ?_ .nil)
    · rintro listed' z ⟨ne, conf', settings', n', source', describes', branch', hsource', held'⟩
      exact ⟨ne, conf', settings', n', source', describes', branch'.keeps grafted.keeps ne, hsource',
        grafted.pool _ _ held'⟩
    · refine ⟨?_, conf, settings, n, source, describes, branch, hsource, held⟩
      rintro rfl
      exact Nat.lt_irrefl _ root_older
  · rw [← List.cons_append, List.pairwise_append]
    refine ⟨stage.ascending, List.pairwise_singleton _ _, fun z hz w hw => ?_⟩
    rw [List.mem_singleton.mp hw]
    rcases List.mem_cons.mp hz with rfl | hz
    · exact root_older
    · rw [grafted.new]
      exact (stage.older hz).2.1
  · have kept : ∀ z ∈ children.reverse, f.catalog.lookup? z name = f'.catalog.lookup? z name := by
      intro z hz
      obtain ⟨ne, -, k, hk⟩ := stage.older (List.mem_reverse.mp hz)
      exact (grafted.keeps.lookup? ne hk name).symm
    rw [sees, stage.sees, findSome?_congr kept, List.reverse_append, List.reverse_singleton,
      List.singleton_append, List.findSome?_cons]
    cases f'.catalog.lookup? child name <;> rfl

/-- The sources of a schema are built one after another, until something is wrong with one. -/
theorem Stage.sources (stage : Stage config schema f₀ f root m done children)
    (other : SourceKind β) (now : Instant) (rest : List String) :
    (∃ f' m' children', rest.forM
        (builtin.buildSource (pooled other) now config schema root) f = some (.ok (), f') ∧
      Stage config schema f₀ f' root m' (done ++ rest) children') ∨
    ∃ f' e, rest.forM (builtin.buildSource (pooled other) now config schema root) f =
        some (.error e, f') ∧
      Keeps (fun id => id.index < f₀.catalog.nodes.length) f₀.catalog f'.catalog ∧
      config.FirstOffence (rest.map (schema, ·)) e := by
  induction rest generalizing f m done children with
  | nil => exact .inl ⟨f, m, children, rfl, by rwa [List.append_nil]⟩
  | cons listed rest ih =>
      rcases config.describes_or_offends schema listed with
        ⟨conf, settings, describes⟩ | ⟨e, offends⟩
      · obtain ⟨f₁, child, built, grafted⟩ := buildSource_of_describes other now schema describes
          stage.sound stage.aligned stage.live stage.top
        obtain ⟨m₁, stage₁⟩ := stage.next describes grafted
        rcases ih stage₁ with ⟨f', m', children', all, stage'⟩ | ⟨f', e, failed, keeps, first⟩
        · refine .inl ⟨f', m', children', (bind_of_ok built).trans all, ?_⟩
          rwa [List.append_assoc, List.singleton_append] at stage'
        · have good : ∀ entry ∈ [(schema, listed)],
              ∃ conf settings, config.Describes entry.2 conf settings := by
            intro entry mem
            rw [List.mem_singleton.mp mem]
            exact ⟨conf, settings, describes⟩
          exact .inr ⟨f', e, (bind_of_ok built).trans failed, keeps, first.after good⟩
      · exact .inr ⟨f, e, bind_of_error (buildSource_of_offends offends), stage.keeps,
          [], schema, listed, rest.map (schema, ·), rfl, nofun, offends⟩

/-! ### The last refresh of a root -/

/-- The root and what is below it. -/
def Within (root : NodeId) (children : List NodeId) (id : NodeId) : Prop :=
  id = root ∨ id ∈ children

theorem Stage.branch (stage : Stage config schema f₀ f root m done children)
    (hchild : child ∈ children) : ∃ listed ∈ done, BuiltBelow config f root listed child :=
  exists_left_of_mem stage.branches hchild

/-- Nothing is listed below a branch, and only branches below the root. -/
theorem Stage.lists (stage : Stage config schema f₀ f root m done children) {x y : NodeId}
    (hx : Within root children x) (listed : f.catalog.Lists x y) : x = root ∧ y ∈ children := by
  obtain ⟨k, key, found, hy⟩ := listed
  rcases hx with rfl | hx
  · rw [Catalog.node?_of_get stage.live] at found
    cases found
    exact ⟨rfl, stage.below key y hy⟩
  · obtain ⟨_, -, -, _, _, n, _, -, branch, -⟩ := stage.branch hx
    rw [Catalog.node?_of_get branch.live] at found
    cases found
    rw [branch.childless] at hy
    cases hy

theorem Stage.acyclic (stage : Stage config schema f₀ f root m done children) :
    f.catalog.AcyclicBelow root := by
  have apart : ∀ z ∈ children, z ≠ root := fun z hz => (stage.branch hz).choose_spec.2.1
  have down {y : NodeId} (hway : Relation.ReflTransGen f.catalog.Lists root y) :
      Within root children y := by
    induction hway with
    | refl => exact .inl rfl
    | tail _ listed ih => exact .inr (stage.lists ih listed).2
  intro y hway cycle
  obtain ⟨z, first, back⟩ := Relation.TransGen.head'_iff.mp cycle
  obtain ⟨rfl, hz⟩ := stage.lists (down hway) first
  rcases Relation.ReflTransGen.cases_head back with rfl | ⟨w, next, -⟩
  · exact apart z hz rfl
  · exact apart z hz (stage.lists (.inr hz) next).1

theorem Stage.sated (stage : Stage config schema f₀ f root m done children) :
    f.Sated (pooled other) (Within root children) where
  own id n _ found := stage.sound.ids id n found
  children id n key child inside found hchild :=
    .inr (stage.lists inside ⟨n, key, found, hchild⟩).2
  listed id n source inside found hsource := by
    rcases inside with rfl | hid
    · rw [Catalog.node?_of_get stage.live] at found
      cases found
      rw [stage.unbound] at hsource
      cases hsource
    · obtain ⟨_, -, -, conf, settings, k, source', describes, branch, hsource', held⟩ :=
        stage.branch hid
      rw [Catalog.node?_of_get branch.live] at found
      cases found
      obtain rfl : source' = source := Option.some.inj (hsource'.symm.trans hsource)
      have aligned := stage.aligned id _ (Catalog.node?_of_get branch.live)
      exact ⟨_, MemorySource.list_eq other held,
        fun listed mem allowed => branch.knows_listed aligned mem allowed⟩
  below id n key child k inside found hchild below known mem := by
    obtain ⟨rfl, hmem⟩ := stage.lists inside ⟨n, key, found, hchild⟩
    have aligned := stage.aligned id n found
    have aligned' := stage.aligned child k below
    rw [Node.knows, aligned.knows_iff, ← Catalog.lookup?_of_node? found, stage.sees,
      List.findSome?_isSome_iff]
    refine ⟨child, List.mem_reverse.mpr hmem, ?_⟩
    rw [Catalog.lookup?_of_node? below, aligned'.isSome_lookup?]
    exact mem

/-! ### A schema that has been built -/

/-- The table that the root sees is the last declaration of its name, out of the last listed source
that declares the name and lets it in; the branch of that source is the owner. -/
def Shows (config : CatalogConfig) (schema : SchemaConfig) (c : Catalog) (root : NodeId)
    (children : List NodeId) (name : String) (owner : NodeId) (t : Table) : Prop :=
  ∃ before listed after conf settings setting m, schema.sources = before ++ listed :: after ∧
    config.Describes listed conf settings ∧ conf.allows name ∧
    (∀ later ∈ after, ¬ config.Offers later name) ∧ children[before.length]? = some owner ∧
    c.Branch root owner conf settings m ∧ DeclaresLast settings name setting ∧
    t = m.adopt name setting.toTable ∧ setting.Makes t

/-- A root as its schema describes it, with one branch for each source that is listed. -/
structure Described (config : CatalogConfig) (schema : SchemaConfig) (c : Catalog) (root : NodeId)
    (n : Node) (children : List NodeId) : Prop where
  live : c.get root = .ok n
  name : n.name = Text.lowercase schema.name
  unbound : n.source = none
  top : n.parent = none
  branches : Forall₂ (fun listed child => ∃ conf settings m, config.Describes listed conf settings ∧
    c.Branch root child conf settings m) schema.sources children
  ascending : (root :: children).Pairwise (·.index < ·.index)
  names : ∀ name, name ∈ n.directory.names ↔ ∃ listed ∈ schema.sources, config.Offers listed name
  entries : ∀ name owner t, n.directory.lookup? name = some (owner, t) →
    Shows config schema c root children name owner t

theorem Described.keeps {c d : Catalog} {n : Node} (h : Described config schema c root n children)
    (keeps : Keeps (fun _ => True) c d) : Described config schema d root n children where
  live := keeps.get trivial h.live
  name := h.name
  unbound := h.unbound
  top := h.top
  branches := h.branches.imp fun _ _ ⟨conf, settings, m, describes, branch⟩ =>
    ⟨conf, settings, m, describes, branch.keeps keeps trivial⟩
  ascending := h.ascending
  names := h.names
  entries name owner t held := by
    obtain ⟨before, listed, after, conf, settings, setting, m, parts, describes, allowed, last, place,
      branch, rest⟩ := h.entries name owner t held
    exact ⟨before, listed, after, conf, settings, setting, m, parts, describes, allowed, last, place,
      branch.keeps keeps trivial, rest⟩

theorem isSome_lookup?_branch {c : Catalog} {conf : SourceConfig} {settings : List TableSetting}
    (describes : config.Describes listed conf settings)
    (branch : c.Branch root child conf settings m) (name : String) :
    (c.lookup? child name).isSome ↔ config.Offers listed name := by
  rw [Catalog.lookup?_of_node? (Catalog.node?_of_get branch.live), describes.offers_iff,
    Option.isSome_iff_exists]
  constructor
  · rintro ⟨⟨owner, t⟩, held⟩
    obtain ⟨-, allowed, setting, last, -⟩ := (branch.entries name owner t).mp held
    exact ⟨allowed, setting, last⟩
  · rintro ⟨allowed, setting, last⟩
    exact ⟨_, (branch.entries name child _).mpr ⟨rfl, allowed, setting, last, rfl⟩⟩

section Branches

variable {d : Catalog} {name : String}
  (branches : Forall₂ (fun listed child => ∃ conf settings k,
    config.Describes listed conf settings ∧ d.Branch root child conf settings k)
    schema.sources children)

include branches

theorem isSome_findSome?_branches :
    (children.reverse.findSome? (d.lookup? · name)).isSome ↔
      ∃ listed ∈ schema.sources, config.Offers listed name := by
  rw [List.findSome?_isSome_iff]
  constructor
  · rintro ⟨z, hz, seen⟩
    obtain ⟨listed, hlisted, conf, settings, k, describes, branch⟩ :=
      exists_left_of_mem branches (List.mem_reverse.mp hz)
    exact ⟨listed, hlisted, (isSome_lookup?_branch describes branch name).mp seen⟩
  · rintro ⟨listed, hlisted, offers⟩
    obtain ⟨z, hz, conf, settings, k, describes, branch⟩ := exists_right_of_mem branches hlisted
    exact ⟨z, List.mem_reverse.mpr hz, (isSome_lookup?_branch describes branch name).mpr offers⟩

/-- The first branch from behind that has the name is that of the last source that offers it. -/
theorem shows_of_findSome? {owner : NodeId} {t : Table}
    (held : children.reverse.findSome? (d.lookup? · name) = some (owner, t)) :
    Shows config schema d root children name owner t := by
  obtain ⟨later, z, earlier, heq, hz, passed⟩ := List.findSome?_eq_some_iff.mp held
  have parts : children = earlier.reverse ++ z :: later.reverse := by
    rw [← List.reverse_reverse children, heq]
    simp
  rw [parts] at branches
  have front := List.forall₂_take_append _ _ _ branches
  obtain ⟨listed, after, ⟨conf, settings, k, describes, branch⟩, back, split⟩ :=
    List.forall₂_cons_right_iff.mp (List.forall₂_drop_append _ _ _ branches)
  have sources : schema.sources = schema.sources.take earlier.reverse.length ++ listed :: after := by
    rw [← split, List.take_append_drop]
  rw [Catalog.lookup?_of_node? (Catalog.node?_of_get branch.live), branch.entries] at hz
  obtain ⟨rfl, allowed, setting, last, rfl⟩ := hz
  have ⟨_, _, _, named, _⟩ := last
  refine ⟨_, listed, after, conf, settings, setting, k, sources, describes, allowed,
    fun later' mem offers => ?_, ?_, branch, last, rfl, ?_⟩
  · obtain ⟨w, hw, conf', settings', k', describes', branch'⟩ := exists_right_of_mem back mem
    have unseen := passed w (List.mem_reverse.mp hw)
    have seen := (isSome_lookup?_branch describes' branch' name).mpr offers
    rw [unseen] at seen
    cases seen
  · rw [front.length_eq, parts, List.getElem?_append_right (Nat.le_refl _), Nat.sub_self]
    rfl
  · rw [← named]
    exact setting.makes_toTable.adopt k

end Branches

/-- The times that the last refresh leaves change nothing in what the root and its branches are. -/
theorem Stage.described (stage : Stage config schema f₀ f root m schema.sources children)
    {d : Catalog} (same : Restamped (Within root children) f.catalog d) :
    ∃ n, Described config schema d root n children := by
  obtain ⟨n, found, dated⟩ := same.node? (Catalog.node?_of_get stage.live)
  have bare := Node.bare_eq_of_undated dated
  have aligned : n.directory.Aligned := by
    rw [Node.directory_eq_of_undated dated]
    exact stage.aligned root m (Catalog.node?_of_get stage.live)
  have branches : Forall₂ (fun listed child => ∃ conf settings k,
      config.Describes listed conf settings ∧ d.Branch root child conf settings k)
      schema.sources children := by
    refine stage.branches.imp ?_
    rintro listed child ⟨-, conf, settings, k, source, describes, branch, -⟩
    obtain ⟨k', branch'⟩ := branch.restamped same
    exact ⟨conf, settings, k', describes, branch'⟩
  have sees (name : String) : n.directory.lookup? name =
      children.reverse.findSome? (d.lookup? · name) := by
    rw [← Catalog.lookup?_of_node? found, same.lookup?, stage.sees]
    exact findSome?_congr fun z _ => (same.lookup? z name).symm
  refine ⟨n, Catalog.get_of_isLive ?_ found, (Node.name_eq_of_bare bare).trans stage.name,
    (Node.source_eq_of_bare bare).trans stage.unbound,
    (Node.parent_eq_of_bare bare).trans stage.top, branches, stage.ascending, fun name => ?_,
    fun name owner t held => ?_⟩
  · rw [same.isLive]
    exact Catalog.isLive_of_get stage.live
  · rw [← aligned.isSome_lookup?, sees]
    exact isSome_findSome?_branches branches
  · rw [sees] at held
    exact shows_of_findSome? branches held

/-! ### Building -/

/-- What every state of a run satisfies and a build needs. -/
structure Consistent (c : Catalog) : Prop where
  sound : c.Sound
  aligned : c.Aligned
  room : c.released ≤ c.nodes.length

theorem Stage.refreshed (stage : Stage config schema f₀ f root m schema.sources children)
    (other : SourceKind β) (now : Instant) :
    ∃ f' n, f.refresh (pooled other) now root = some (.ok (), f') ∧ Consistent f'.catalog ∧
      Keeps (fun id => id.index < f₀.catalog.nodes.length) f₀.catalog f'.catalog ∧
      Described config schema f'.catalog root n children := by
  have sated : f.Sated (pooled other) (Within root children) := stage.sated
  obtain ⟨f', refreshed, -, same⟩ := sated.refresh (.inl rfl) (Catalog.isLive_of_get stage.live)
    stage.acyclic now
  obtain ⟨n, described⟩ := stage.described same
  have steps := (Federation.touches_refresh (pooled other) now refreshed).steps
  have live := Catalog.isLive_iff_lt.mp (Catalog.isLive_of_get described.live)
  have apart : ∀ id : NodeId, id.index < f₀.catalog.nodes.length → ¬ Within root children id := by
    rintro id old (rfl | hid)
    · exact Nat.lt_irrefl _ (stage.new ▸ old)
    · have younger := (List.pairwise_cons.mp stage.ascending).1 id hid
      rw [stage.new] at younger
      exact Nat.lt_asymm old younger
  exact ⟨f', n, refreshed, ⟨steps.keep Catalog.Step.sound stage.sound,
    steps.keep Catalog.Step.aligned stage.aligned, live.1.trans live.2.le⟩,
    stage.keeps.andThen same.keeps fun id _ => apart id, described⟩

/-- A schema is built as described, or the build stops at its first source with which something is
wrong. -/
theorem buildSchema_outcome (other : SourceKind β) (now : Instant) (config : CatalogConfig)
    (schema : SchemaConfig) (consistent : Consistent f.catalog) :
    (∃ f' n children, builtin.buildSchema (pooled other) now config schema f =
        some (.ok ⟨f.catalog.nodes.length⟩, f') ∧ Consistent f'.catalog ∧
      Keeps (fun _ => True) f.catalog f'.catalog ∧
      Described config schema f'.catalog ⟨f.catalog.nodes.length⟩ n children) ∨
    ∃ f' e, builtin.buildSchema (pooled other) now config schema f = some (.error e, f') ∧
      Keeps (fun _ => True) f.catalog f'.catalog ∧
      config.FirstOffence (schema.sources.map (schema, ·)) e := by
  obtain ⟨m, start⟩ := Stage.start config schema consistent.sound consistent.aligned consistent.room
  have created : (Action.create schema.name none : Action (SourcePool (MemorySource ⊕ β)) NodeId) f =
    some (.ok ⟨f.catalog.nodes.length⟩,
      { f with catalog := (f.catalog.create schema.name none).2 }) := rfl
  unfold buildSchema
  rw [bind_of_ok created]
  rcases start.sources other now schema.sources with
    ⟨f₁, m₁, children, built, stage⟩ | ⟨f', e, failed, keeps, first⟩
  · rw [List.nil_append] at stage
    obtain ⟨f₂, n, refreshed, ⟨sound, aligned, room⟩, keeps, described⟩ := stage.refreshed other now
    have logged : Keeps (fun _ => True) f₂.catalog
        (f₂.log .info (builtMessage schema n)).catalog := ⟨rfl, Nat.le_refl _, fun _ _ _ => id⟩
    refine .inl ⟨f₂.log .info (builtMessage schema n), n, children, ?_,
      ⟨⟨sound.ids, sound.parents, sound.children, sound.owners⟩, aligned, room⟩,
      (keeps.andThen logged fun _ _ _ => trivial).mono fun _ old _ => old,
      described.keeps logged⟩
    have asked : (Action.catalog : Action (SourcePool (MemorySource ⊕ β)) Catalog) f₂ =
      some (.ok f₂.catalog, f₂) := rfl
    rw [bind_of_ok built, bind_of_ok refreshed, bind_of_ok asked,
      Catalog.node?_of_get described.live]
    rfl
  · exact .inr ⟨f', e, bind_of_error failed, keeps.mono fun _ old _ => old, first⟩

/-- The roots of some schemas, in their order and in the order in which they were created. -/
structure Roots (config : CatalogConfig) (schemas : List SchemaConfig) (c d : Catalog)
    (roots : List NodeId) : Prop where
  each : Forall₂ (fun schema root => ∃ n children, Described config schema d root n children)
    schemas roots
  new : ∀ root ∈ roots, c.nodes.length ≤ root.index
  ascending : roots.Pairwise (·.index < ·.index)

theorem buildSchemas_outcome (other : SourceKind β) (now : Instant) (config : CatalogConfig)
    (schemas : List SchemaConfig) (consistent : Consistent f.catalog) :
    (∃ f' roots, schemas.mapM (builtin.buildSchema (pooled other) now config) f =
        some (.ok roots, f') ∧ Keeps (fun _ => True) f.catalog f'.catalog ∧
      Roots config schemas f.catalog f'.catalog roots) ∨
    ∃ f' e, schemas.mapM (builtin.buildSchema (pooled other) now config) f =
        some (.error e, f') ∧ Keeps (fun _ => True) f.catalog f'.catalog ∧
      config.FirstOffence (schemas.flatMap fun schema => schema.sources.map (schema, ·)) e := by
  induction schemas generalizing f with
  | nil => exact .inl ⟨f, [], rfl, .refl _, .nil, nofun, .nil⟩
  | cons schema schemas ih =>
      rw [List.mapM_cons, List.flatMap_cons]
      rcases buildSchema_outcome other now config schema consistent with
        ⟨f₁, n, children, built, consistent₁, keeps₁, described⟩ | ⟨f', e, failed, keeps, first⟩
      · rw [bind_of_ok built]
        rcases ih consistent₁ with ⟨f', roots, rest, keeps, each, new, ascending⟩ |
          ⟨f', e, failed, keeps, first⟩
        · have later : ∀ root ∈ roots, f.catalog.nodes.length < root.index := fun root mem =>
            (Catalog.isLive_iff_lt.mp (Catalog.isLive_of_get described.live)).2.trans_le
              (new root mem)
          refine .inl ⟨f', _, (bind_of_ok rest).trans rfl, keeps₁.trans keeps,
            .cons ⟨n, children, described.keeps keeps⟩ each, fun root mem => ?_,
            List.pairwise_cons.mpr ⟨later, ascending⟩⟩
          rcases List.mem_cons.mp mem with rfl | mem
          · exact Nat.le_refl _
          · exact (later root mem).le
        · refine .inr ⟨f', e, bind_of_error failed, keeps₁.trans keeps,
            first.after fun entry mem => ?_⟩
          obtain ⟨listed, hlisted, rfl⟩ := List.mem_map.mp mem
          obtain ⟨_, -, conf, settings, _, describes, -⟩ :=
            exists_right_of_mem described.branches hlisted
          exact ⟨conf, settings, describes⟩
      · exact .inr ⟨f', e, bind_of_error failed, keeps, first.append _⟩

theorem Consistent.step {c d : Catalog} (h : Catalog.Step c d) (consistent : Consistent c) :
    Consistent d := by
  refine ⟨h.sound consistent.sound, h.aligned consistent.aligned, ?_⟩
  have room := consistent.room
  cases h with
  | touch touch =>
      rw [Catalog.length_of_bareNodes touch.bareNodes]
      rcases touch.released with same | all
      · rwa [same]
      · exact all.le
  | create name conf source =>
      rw [Catalog.length_insertNode]
      exact Nat.le_succ_of_le room
  | place new accepted =>
      obtain ⟨m, n, attached⟩ := Catalog.attached_of_ok accepted
      rwa [attached.length, attached.released]

theorem consistent {r : Run (SourcePool (MemorySource ⊕ β))} (visited : r.Visits f) :
    Consistent f.catalog := by
  refine Run.invariant (fun window => ?_) Consistent.step (fun attached before => ?_) visited
  · exact ⟨.empty window, Catalog.aligned_empty window, Nat.le_refl 0⟩
  · refine ⟨before.sound.attached attached, attached.aligned before.aligned, ?_⟩
    rw [attached.length, attached.released]
    exact before.room

/-- In every state of every run, a registry of the built-in types builds what a configuration
describes, or tells what is wrong with the first source with which something is wrong. Either way
the nodes that were there stay as they are. -/
theorem schemas_built_as_described {r : Run (SourcePool (MemorySource ⊕ β))}
    (visited : r.Visits f) (other : SourceKind β) (now : Instant) (config : CatalogConfig) :
    ∃ answer f', builtin.buildSchemas (pooled other) now config f = some (answer, f') ∧
      Keeps (fun _ => True) f.catalog f'.catalog ∧
      ((∃ roots, answer = .ok roots) ↔ ∀ schema ∈ config.schemas, ∀ listed ∈ schema.sources,
        ∃ conf settings, config.Describes listed conf settings) ∧
      (∀ e, answer = .error e → config.FirstOffence config.entries e) ∧
      ∀ roots, answer = .ok roots → Roots config config.schemas f.catalog f'.catalog roots := by
  rcases buildSchemas_outcome other now config config.schemas (consistent visited) with
    ⟨f', roots, built, keeps, described⟩ | ⟨f', e, failed, keeps, first⟩
  · refine ⟨_, f', built, keeps, ⟨fun _ schema hschema listed hlisted => ?_,
      fun _ => ⟨roots, rfl⟩⟩, nofun, ?_⟩
    · obtain ⟨root, -, n, children, h⟩ := exists_right_of_mem described.each hschema
      obtain ⟨_, -, conf, settings, _, describes, -⟩ := exists_right_of_mem h.branches hlisted
      exact ⟨conf, settings, describes⟩
    · rintro _ ⟨⟩
      exact described
  · refine ⟨_, f', failed, keeps, ⟨nofun, fun all => ?_⟩, ?_, nofun⟩
    · obtain ⟨before, schema, listed, after, split, -, offends⟩ := first
      have mem : (schema, listed) ∈ config.entries := by
        show _ ∈ config.schemas.flatMap _
        rw [split]
        simp
      obtain ⟨schema', hschema, hentry⟩ := List.mem_flatMap.mp mem
      obtain ⟨_, hlisted, heq⟩ := List.mem_map.mp hentry
      cases heq
      obtain ⟨conf, settings, describes⟩ := all schema hschema listed hlisted
      exact absurd offends (describes.not_offends schema e)
    · rintro _ ⟨⟩
      exact first

/-- Two schemas of the same two sources. Both sources declare the same table; the first declares a
column of it twice, and the second lets in no other table. -/
def shared : CatalogConfig where
  schemas := [{ name := "Main", sources := ["a", "b"] }, { name := "Side", sources := ["b", "a"] }]
  sources := [
    { name := "a"
      type := "memory"
      settings := .ofList [("tables", .array [
        .object [("columns", .array [column "id" "int", column "total" "int", column "id" "string"]),
          ("name", .string "Orders")],
        .object [("name", .string "users")]])] },
    { name := "b"
      type := "memory"
      tablesToLoad := ["orders"]
      settings := .ofList [("tables", .array [
        .object [("name", .string "ORDERS")], .object [("name", .string "hidden")]])] }]
where
  column (name type : String) : Json := .object [("name", .string name), ("type", .string type)]

/-- A run that leaves a node. -/
def occupied : Run (SourcePool (MemorySource ⊕ Empty)) where
  backend := pooled ⟨nofun, nofun, nofun⟩
  sources := {}
  operations := [.create "first" none]

theorem schemas_built_as_described_shared :
    ∃ (f f' : Federation (SourcePool (MemorySource ⊕ Empty))) (roots : List NodeId),
      occupied.Visits f ∧ f.catalog.nodes.length = 1 ∧
      builtin.buildSchemas (pooled ⟨nofun, nofun, nofun⟩) ⟨0, 0⟩ shared f = some (.ok roots, f') ∧
      Keeps (fun _ => True) f.catalog f'.catalog ∧
      Roots shared shared.schemas f.catalog f'.catalog roots ∧ roots = [⟨1⟩, ⟨4⟩] ∧
      roots.map (fun root => (f'.catalog.node? root).map (·.directory.owners.entries)) =
        [some [("orders", ⟨3⟩), ("users", ⟨2⟩)], some [("orders", ⟨6⟩), ("users", ⟨6⟩)]] ∧
      ((f'.catalog.node? ⟨4⟩).bind (·.directory.tables.get? "orders")).map
          (·.fields.map fun f => (f.name, f.type)) =
        some [("id", .string), ("total", .int)] := by
  have computed : ((occupied.after occupied.operations).bind fun f =>
      (builtin.buildSchemas (pooled ⟨nofun, nofun, nofun⟩) ⟨0, 0⟩ shared f).map fun p =>
        (f.catalog.nodes.length == 1 && p.1.toOption == some [⟨1⟩, ⟨4⟩] &&
            ((p.2.catalog.node? ⟨4⟩).bind (·.directory.tables.get? "orders")).map
              (·.fields.map fun f => (f.name, f.type)) == some [("id", .string), ("total", .int)],
          [⟨1⟩, ⟨4⟩].map fun root => (p.2.catalog.node? root).map (·.directory.owners.entries))) =
      some (true,
        [some [("orders", ⟨3⟩), ("users", ⟨2⟩)], some [("orders", ⟨6⟩), ("users", ⟨6⟩)]]) := by
    decide +kernel
  obtain ⟨f, hf, hbuild⟩ := Option.bind_eq_some_iff.mp computed
  obtain ⟨⟨answer, f'⟩, h, hparts⟩ := Option.map_eq_some_iff.mp hbuild
  simp only [Prod.mk.injEq, Bool.and_eq_true, beq_iff_eq] at hparts
  obtain ⟨⟨⟨hlength, hanswer⟩, hfields⟩, hentries⟩ := hparts
  have visited : occupied.Visits f := ⟨_, List.prefix_rfl, hf⟩
  obtain ⟨answer', f'', built, keeps, -, -, described⟩ :=
    schemas_built_as_described visited ⟨nofun, nofun, nofun⟩ ⟨0, 0⟩ shared
  rw [h] at built
  cases built
  cases answer with
  | error e => cases hanswer
  | ok roots =>
      cases hanswer
      exact ⟨f, f', _, visited, hlength, h, keeps, described _ rfl, rfl, hentries, hfields⟩

end Registry

end SchemaCatalog
