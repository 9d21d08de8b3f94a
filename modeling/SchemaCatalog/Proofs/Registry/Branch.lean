import SchemaCatalog.Proofs.Catalog.Idle
import SchemaCatalog.Proofs.Catalog.Outcome
import SchemaCatalog.Proofs.Catalog.Waiting
import SchemaCatalog.Proofs.Source.Pooled
import SchemaCatalog.Registry.Build

/-!
One source of a schema. A registry of the built-in types makes of its configuration a node below
the root that sees the declared tables which the configuration lets in, and the root comes to see
them too.
-/

namespace SchemaCatalog

open MemorySource (TableSetting DeclaresLast ofSettings)

/-! ### What a configuration offers -/

namespace CatalogConfig

variable {config : CatalogConfig} {listed name : String} {conf : SourceConfig}
  {settings : List TableSetting}

/-- The name is that of a source held in memory, which declares these tables. -/
structure Describes (config : CatalogConfig) (listed : String) (conf : SourceConfig)
    (settings : List TableSetting) : Prop where
  known : config.source? listed = some conf
  type : conf.type = "memory"
  declares : conf.Declares settings

/-- The source of that name declares the table and lets it in. -/
def Offers (config : CatalogConfig) (listed name : String) : Prop :=
  ∃ conf settings setting, config.Describes listed conf settings ∧ setting ∈ settings ∧
    Text.lowercase setting.name = name ∧ conf.allows name

/-- What is wrong with a source that a schema names. -/
inductive Offends (config : CatalogConfig) (schema : SchemaConfig) (listed : String) :
    CatalogError → Prop where
  | unknown (h : config.source? listed = none) :
    Offends config schema listed (.unknownSource schema.name listed)
  | type {conf : SourceConfig} (known : config.source? listed = some conf)
    (h : conf.type ≠ "memory") :
    Offends config schema listed (.unknownSourceType conf.name conf.type)
  | tables {conf : SourceConfig} {e : Json.ReadError}
    (known : config.source? listed = some conf) (type : conf.type = "memory")
    (h : conf.Unreadable e) :
    Offends config schema listed (.badTables conf.name e)

theorem describes_or_offends (config : CatalogConfig) (schema : SchemaConfig) (listed : String) :
    (∃ conf settings, config.Describes listed conf settings) ∨
      ∃ e, config.Offends schema listed e := by
  cases known : config.source? listed with
  | none => exact .inr ⟨_, .unknown known⟩
  | some conf =>
      by_cases type : conf.type = "memory"
      · rcases conf.declares_or_unreadable with ⟨settings, declares⟩ | ⟨e, unreadable⟩
        · exact .inl ⟨conf, settings, known, type, declares⟩
        · exact .inr ⟨_, .tables known type unreadable⟩
      · exact .inr ⟨_, .type known type⟩

theorem Describes.unique {conf' : SourceConfig} {settings' : List TableSetting}
    (h : config.Describes listed conf settings) (h' : config.Describes listed conf' settings') :
    conf' = conf ∧ settings' = settings := by
  obtain rfl : conf' = conf := Option.some.inj (h'.known.symm.trans h.known)
  exact ⟨rfl, h.declares.unique h'.declares⟩

theorem Describes.not_offends (h : config.Describes listed conf settings) (schema : SchemaConfig)
    (e : CatalogError) : ¬ config.Offends schema listed e := by
  rintro (missing | ⟨known, other⟩ | ⟨known, -, unreadable⟩)
  · rw [h.known] at missing
    cases missing
  · rw [h.known] at known
    cases known
    exact other h.type
  · rw [h.known] at known
    cases known
    exact h.declares.not_unreadable _ unreadable

theorem Describes.offers_iff (h : config.Describes listed conf settings) (name : String) :
    config.Offers listed name ↔
      conf.allows name ∧ ∃ setting, DeclaresLast settings name setting := by
  constructor
  · rintro ⟨conf', settings', setting, describes, mem, rfl, allowed⟩
    obtain ⟨rfl, rfl⟩ := h.unique describes
    exact ⟨allowed, MemorySource.exists_declaresLast mem⟩
  · rintro ⟨allowed, setting, before, after, rfl, named, -⟩
    exact ⟨conf, _, setting, h, by simp, named, allowed⟩

end CatalogConfig

/-! ### Nodes that stay -/

namespace Catalog

variable {kept kept' : NodeId → Prop} {c d e : Catalog} {id : NodeId} {n : Node}

/-- These nodes stay as they are, and none is released. -/
structure Keeps (kept : NodeId → Prop) (c d : Catalog) : Prop where
  released : d.released = c.released
  length : c.nodes.length ≤ d.nodes.length
  node? : ∀ id n, kept id → c.node? id = some n → d.node? id = some n

namespace Keeps

theorem refl (c : Catalog) : Keeps kept c c :=
  ⟨rfl, Nat.le_refl _, fun _ _ _ => id⟩

theorem trans (h : Keeps kept c d) (h' : Keeps kept d e) : Keeps kept c e :=
  ⟨h'.released.trans h.released, h.length.trans h'.length,
    fun id n hid found => h'.node? id n hid (h.node? id n hid found)⟩

/-- The second need only keep what was there in the beginning. -/
theorem andThen (h : Keeps kept c d) (h' : Keeps kept' d e)
    (still : ∀ id, id.index < c.nodes.length → kept id → kept' id) : Keeps kept c e :=
  ⟨h'.released.trans h.released, h.length.trans h'.length, fun id n hid found =>
    h'.node? id n (still id (index_lt_of_node? found) hid) (h.node? id n hid found)⟩

theorem mono (h : Keeps kept c d)
    (fewer : ∀ id, id.index < c.nodes.length → kept' id → kept id) : Keeps kept' c d :=
  ⟨h.released, h.length,
    fun id n hid found => h.node? id n (fewer id (index_lt_of_node? found) hid) found⟩

theorem get (h : Keeps kept c d) (hid : kept id) (live : c.get id = .ok n) : d.get id = .ok n := by
  obtain ⟨alive, found⟩ := get_eq_ok_iff.mp live
  have found' := h.node? id n hid found
  refine get_of_isLive (isLive_iff_lt.mpr ⟨?_, index_lt_of_node? found'⟩) found'
  rw [h.released]
  exact (isLive_iff_lt.mp alive).1

theorem lookup? (h : Keeps kept c d) (hid : kept id) (found : c.node? id = some n) (name : String) :
    d.lookup? id name = c.lookup? id name := by
  rw [lookup?_of_node? found, lookup?_of_node? (h.node? id n hid found)]

theorem insertNode (c : Catalog) (name : String) (config : Option SourceConfig)
    (source : Option SourceId) : Keeps kept c (c.insertNode name config source).2 :=
  ⟨rfl, by simp, fun _ _ _ found => node?_insertNode_of_some found⟩

end Keeps

theorem Restamped.keeps {within : NodeId → Prop} (h : Restamped within c d) :
    Keeps (¬ within ·) c d :=
  ⟨h.released, h.length.ge, fun id _ out found => (h.outside id out).trans found⟩

theorem Attached.keeps {parent child : NodeId} {m n : Node} (h : Attached c parent child m n d) :
    Keeps (fun id => id ≠ parent ∧ id ≠ child) c d := by
  refine ⟨h.released, h.length.ge, fun id k out found => ?_⟩
  rw [h.node?_of_ne out.1 out.2]
  exact found

theorem Attached.get {parent child : NodeId} {m n k k' : Node} (h : Attached c parent child m n d)
    (live : c.get id = .ok k) (found : d.node? id = some k') : d.get id = .ok k' := by
  refine get_of_isLive ?_ found
  rw [isLive_congr h.length h.released]
  exact isLive_of_get live

theorem get_created (room : c.released ≤ c.nodes.length) (name : String)
    (config : Option SourceConfig) (source : Option SourceId) :
    ∃ n, (c.insertNode name config source).2.get ⟨c.nodes.length⟩ = .ok n ∧
      n.name = Text.lowercase name ∧ n.config = config ∧ n.source = source ∧ n.parent = none ∧
      n.children = ∅ ∧ n.directory = {} := by
  refine ⟨_, get_of_isLive (isLive_iff_lt.mpr ⟨room, ?_⟩) List.getElem?_concat_length, rfl, rfl, rfl,
    rfl, rfl, rfl⟩
  rw [length_insertNode]
  exact Nat.lt_succ_self _

/-- A node without a parent has no ancestors, and every other node can be put below it. -/
theorem attach_of_top {parent child : NodeId} {m : Node} (hm : c.get parent = .ok m)
    (hn : c.get child = .ok n) (top : m.parent = none) (other : child ≠ parent) :
    (c.attach parent child).1 = .ok () := by
  have above : c.ancestors parent = .ok [parent] := by
    rw [ancestors, hm]
    show c.chainFrom _ [parent] m.parent = _
    rw [top, chainFrom]
  simp [attach, hm, hn, above, other, bind, Except.bind, pure, Except.pure]

/-! ### A source below a root -/

/-- A node below a root that sees the declared tables that its configuration lets in. -/
structure Branch (c : Catalog) (root child : NodeId) (conf : SourceConfig)
    (settings : List TableSetting) (n : Node) : Prop where
  live : c.get child = .ok n
  name : n.name = Text.lowercase conf.name
  config : n.config = some conf
  parent : n.parent = some root
  childless : n.children = ∅
  entries : ∀ name owner t, n.directory.lookup? name = some (owner, t) ↔ owner = child ∧
    conf.allows name ∧
      ∃ setting, DeclaresLast settings name setting ∧ n.adopt name setting.toTable = t

namespace Branch

variable {root child : NodeId} {conf : SourceConfig} {settings : List TableSetting}

theorem keeps (h : c.Branch root child conf settings n) (keeps : Keeps kept c d)
    (hid : kept child) : d.Branch root child conf settings n :=
  { h with live := keeps.get hid h.live }

theorem restamped {within : NodeId → Prop} (h : c.Branch root child conf settings n)
    (same : Restamped within c d) : ∃ n', d.Branch root child conf settings n' := by
  obtain ⟨alive, found⟩ := get_eq_ok_iff.mp h.live
  obtain ⟨n', found', dated⟩ := same.node? found
  have bare := Node.bare_eq_of_undated dated
  have adopts (name : String) (t : Table) : n'.adopt name t = n.adopt name t := by
    show n'.undated.adopt name t = n.undated.adopt name t
    rw [dated]
  refine ⟨n', get_of_isLive (same.isLive child ▸ alive) found', ?_, ?_, ?_, ?_, ?_⟩
  · rw [Node.name_eq_of_bare bare, h.name]
  · have config : n'.undated.config = n.undated.config := by rw [dated]
    exact config.trans h.config
  · rw [Node.parent_eq_of_bare bare, h.parent]
  · rw [Node.children_eq_of_bare bare, h.childless]
  · intro name owner t
    rw [Node.directory_eq_of_undated dated, h.entries]
    simp only [adopts]

end Branch

theorem Branch.knows_listed {root child : NodeId} {conf : SourceConfig}
    {settings : List TableSetting} (h : c.Branch root child conf settings n)
    (aligned : n.directory.Aligned) {listed : String}
    (mem : listed ∈ (ofSettings conf.name settings).tableNames)
    (allowed : n.allows (Text.lowercase listed)) : n.knows (Text.lowercase listed) := by
  obtain ⟨t, ht, rfl⟩ := List.mem_map.mp mem
  rw [MemorySource.lowercase_of_mem_ofSettings ht] at allowed ⊢
  rw [Node.allows, h.config] at allowed
  obtain ⟨setting, last⟩ := MemorySource.declaresLast_of_mem_ofSettings ht
  have held := (h.entries t.name child _).mpr ⟨rfl, allowed, setting, last, rfl⟩
  rw [Node.knows, aligned.knows_iff, held, Option.isSome_some]

/-- A node without children that sees the declared tables becomes a branch when it is attached. -/
theorem Attached.branch {root child : NodeId} {m : Node} {conf : SourceConfig}
    {settings : List TableSetting} (h : Attached c root child m n d)
    (name : n.name = Text.lowercase conf.name) (config : n.config = some conf)
    (childless : n.children = ∅)
    (entries : ∀ name owner t, n.directory.lookup? name = some (owner, t) ↔ owner = child ∧
      conf.allows name ∧
        ∃ setting, DeclaresLast settings name setting ∧ n.adopt name setting.toTable = t) :
    d.Branch root child conf settings { n with parent := some root } where
  live := h.get h.child_live h.node?_child
  name := name
  config := config
  parent := rfl
  childless := childless
  entries := entries

end Catalog

/-! ### Building a branch -/

theorem Node.adopt_eq_of_bare {m n : Node} (h : m.bare = n.bare) (listed : String) (t : Table) :
    m.adopt listed t = n.adopt listed t := by
  show m.bare.adopt listed t = n.bare.adopt listed t
  rw [h]

variable {β : Type} {other : SourceKind β}

/-- Sources held in memory beside sources of another kind. -/
abbrev pooled (other : SourceKind β) : Backend (SourcePool (MemorySource ⊕ β)) :=
  SourcePool.backend (MemorySource.kind.sum other)

namespace Federation

open Catalog (Keeps Restamped Sweeps)

variable {f : Federation (SourcePool (MemorySource ⊕ β))} {id : NodeId} {n : Node}
  {source : SourceId} {name : String} {settings : List TableSetting}

theorem listing_pooled (held : f.sources.get? source = some (.inl (ofSettings name settings))) :
    f.listing (pooled other) source = ((ofSettings name settings).tableNames, f) := by
  unfold listing
  rw [MemorySource.list_eq other held]
  rfl

/-- The first refresh of a node that has just been made for a source held in memory. -/
theorem refresh_pooled (other : SourceKind β) (now : Instant) (sound : f.catalog.Sound)
    (aligned : f.catalog.Aligned) (live : f.catalog.get id = .ok n) (childless : n.children = ∅)
    (bare : n.directory = {}) (hsource : n.source = some source)
    (held : f.sources.get? source = some (.inl (ofSettings name settings))) :
    ∃ f', f.refresh (pooled other) now id = some (.ok (), f') ∧ f'.sources = f.sources ∧
      Keeps (· ≠ id) f.catalog f'.catalog ∧
      ∃ n', f'.catalog.get id = .ok n' ∧ n'.bare = n.bare ∧ ∀ name owner t,
        n'.directory.lookup? name = some (owner, t) ↔ owner = id ∧ n.allows name ∧
          ∃ setting, DeclaresLast settings name setting ∧ n.adopt name setting.toTable = t := by
  have found := Catalog.node?_of_get live
  have own := sound.ids id n found
  have refreshed : f.refresh (pooled other) now id =
      some (.ok (), (f.loadOwn (pooled other) n).modify id (·.stamp now)) :=
    refresh_childless now live childless
  have swept : Sweeps (· = id) f.catalog (f.loadOwn (pooled other) n).catalog :=
    sweeps_loadOwn (pooled other) f own
  have released : (f.loadOwn (pooled other) n).catalog.released = f.catalog.released := by
    rw [loadOwn_eq (pooled other) hsource, listing_pooled held, released_loadAll]
  have length := Catalog.length_of_bareNodes swept.touches.bareNodes
  have gives : ∀ source', n.source = some source' → (pooled other).GivesAt
      (ofSettings name settings).answers source' (· = f.sources) := by
    intro source' hs
    rw [hsource] at hs
    cases hs
    exact MemorySource.givesAt other held
  obtain ⟨sources, entries⟩ := lookup?_loadOwn gives found own aligned rfl
  have stamped : Restamped (· = id) (f.loadOwn (pooled other) n).catalog
      ((f.loadOwn (pooled other) n).modify id (·.stamp now)).catalog := by
    refine .stamp ?_ _ now
    rfl
  obtain ⟨k, hk, loaded⟩ := Catalog.node?_of_bareNodes swept.touches.bareNodes.symm found
  obtain ⟨n', hn', dated⟩ := stamped.node? hk
  refine ⟨_, refreshed, sources, ?_, n', ?_, (Node.bare_eq_of_undated dated).trans loaded, ?_⟩
  · have loads : Keeps (· ≠ id) f.catalog (f.loadOwn (pooled other) n).catalog :=
      ⟨released, length.ge, fun z k out hz => (swept.node?_of_outside sound out).trans hz⟩
    exact loads.trans stamped.keeps
  · refine Catalog.get_of_isLive ?_ hn'
    rw [stamped.isLive, Catalog.isLive_congr length released]
    exact Catalog.isLive_of_get live
  · intro name' owner t
    have nothing : f.catalog.lookup? id name' = none := by
      rw [Catalog.lookup?_of_node? found, bare]
      rfl
    rw [← Catalog.lookup?_of_node? hn', stamped.lookup?, entries, nothing, Option.none_or,
      Catalog.supply_of_node? found, Option.map_eq_some_iff]
    simp only [MemorySource.supply_ofSettings hsource, Prod.mk.injEq]
    constructor
    · rintro ⟨t', supplied, rfl, rfl⟩
      exact ⟨rfl, supplied⟩
    · rintro ⟨rfl, supplied⟩
      exact ⟨t, supplied, rfl, rfl⟩

end Federation

namespace Registry

/-- The registry that knows the built-in types, and no others. -/
abbrev builtin : Registry (SourcePool (MemorySource ⊕ β)) :=
  (registerBuiltin .inl {}).2

variable {config : CatalogConfig} {schema : SchemaConfig} {listed : String} {conf : SourceConfig}
  {settings : List TableSetting} {world : SourcePool (MemorySource ⊕ β)}

theorem createSource_of_memory (type : conf.type = "memory") :
    builtin.createSource conf world = memoryFactory .inl conf world := by
  have factory : builtin.factories.get? conf.type =
      some (memoryFactory (.inl : MemorySource → MemorySource ⊕ β)) := by
    rw [type]
    exact NameMap.get?_insert_self ..
  rw [createSource, factory]

theorem createSource_of_declares (type : conf.type = "memory") (declares : conf.Declares settings) :
    builtin.createSource conf world =
      (.ok (world.add (.inl (ofSettings conf.name settings))).1,
        (world.add (.inl (ofSettings conf.name settings))).2) := by
  rw [createSource_of_memory type, memoryFactory, SourceConfig.ofConfig_of_declares declares]

theorem createSource_of_unreadable {e : Json.ReadError} (type : conf.type = "memory")
    (unreadable : conf.Unreadable e) :
    builtin.createSource conf world = (.error (.badTables conf.name e), world) := by
  rw [createSource_of_memory type, memoryFactory, SourceConfig.ofConfig_of_unreadable unreadable]

theorem createSource_of_type (type : conf.type ≠ "memory") :
    builtin.createSource conf world = (.error (.unknownSourceType conf.name conf.type), world) := by
  have missing : builtin.factories.get? conf.type =
      (none : Option (SourceFactory (SourcePool (MemorySource ⊕ β)))) :=
    NameMap.get?_insert_ne _ _ type
  rw [createSource, missing]

section Build

open Catalog (Keeps Branch)
open SchemaCatalog.Action (bind_of_ok bind_of_error)

variable {f f' : Federation (SourcePool (MemorySource ⊕ β))} {root child : NodeId} {m : Node}
  {now : Instant}

/-- What a root and the world have become when a branch has been put below the root. -/
structure Grafted (f f' : Federation (SourcePool (MemorySource ⊕ β))) (root child : NodeId)
    (m : Node) (conf : SourceConfig) (settings : List TableSetting) : Prop where
  sound : f'.catalog.Sound
  aligned : f'.catalog.Aligned
  keeps : Keeps (· ≠ root) f.catalog f'.catalog
  pool : ∀ source s, f.sources.get? source = some s → f'.sources.get? source = some s
  new : child.index = f.catalog.nodes.length
  branch : ∃ n source, f'.catalog.Branch root child conf settings n ∧ n.source = some source ∧
    f'.sources.get? source = some (.inl (ofSettings conf.name settings))
  root : ∃ m' key, f'.catalog.get root = .ok m' ∧
    m'.bare = { m with children := m.children.insert key child }.bare ∧
    ∀ name, f'.catalog.lookup? root name =
      (f'.catalog.lookup? child name).or (f.catalog.lookup? root name)

theorem buildSource_of_offends {e : CatalogError} (offends : config.Offends schema listed e) :
    builtin.buildSource (pooled other) now config schema root listed f = some (.error e, f) := by
  unfold buildSource
  cases offends with
  | unknown missing =>
      rw [missing]
      rfl
  | type known different =>
      rw [known]
      refine bind_of_error ?_
      rw [Action.ofSources, createSource_of_type different]
  | tables known type unreadable =>
      rw [known]
      refine bind_of_error ?_
      rw [Action.ofSources, createSource_of_unreadable type unreadable]

/-- A node that has just been made for a source is refreshed and put below the root. -/
theorem grafted_of_created (other : SourceKind β) (now : Instant) {n : Node} {source : SourceId}
    (sound : f.catalog.Sound) (aligned : f.catalog.Aligned) (live : f.catalog.get root = .ok m)
    (top : m.parent = none) (ne : child ≠ root) (created : f.catalog.get child = .ok n)
    (name : n.name = Text.lowercase conf.name) (hconf : n.config = some conf)
    (childless : n.children = ∅) (bare : n.directory = {}) (hsource : n.source = some source)
    (held : f.sources.get? source = some (.inl (ofSettings conf.name settings))) :
    ∃ f', (do Action.refresh (pooled other) now child; Action.attach root child) f =
        some (.ok (), f') ∧ f'.sources = f.sources ∧ f'.catalog.Sound ∧ f'.catalog.Aligned ∧
      Keeps (fun id => id ≠ root ∧ id ≠ child) f.catalog f'.catalog ∧
      (∃ n', f'.catalog.Branch root child conf settings n' ∧ n'.source = some source) ∧
      ∃ m', f'.catalog.get root = .ok m' ∧
        m'.bare = { m with children := m.children.insert n.name child }.bare ∧
        ∀ name, f'.catalog.lookup? root name =
          (f'.catalog.lookup? child name).or (f.catalog.lookup? root name) := by
  obtain ⟨g, refreshed, sources, keeps, n₁, live₁, bare₁, entries⟩ :=
    Federation.refresh_pooled other now sound aligned created childless bare hsource held
  have steps := (Federation.touches_refresh (pooled other) now refreshed).steps
  have sound₁ := steps.keep Catalog.Step.sound sound
  have aligned₁ := steps.keep Catalog.Step.aligned aligned
  have root₁ := keeps.get ne.symm live
  obtain ⟨m₂, n₂, attached⟩ := Catalog.attached_of_ok (Catalog.attach_of_top root₁ live₁ top ne)
  obtain rfl : m₂ = m := Except.ok.inj (attached.parent_live.symm.trans root₁)
  obtain rfl : n₂ = n₁ := Except.ok.inj (attached.child_live.symm.trans live₁)
  have configured : n₂.config = some conf := by
    have same : n₂.bare.config = n.bare.config := by rw [bare₁]
    exact same.trans hconf
  have branch := attached.branch ((Node.name_eq_of_bare bare₁).trans name) configured
    ((Node.children_eq_of_bare bare₁).trans childless) fun name owner t => by
      have allows : conf.allows name = n.allows name := by rw [Node.allows, hconf]
      simp only [Node.adopt_eq_of_bare bare₁, allows]
      exact entries name owner t
  have answered : Action.attach root child g =
      some (.ok (), { g with catalog := (g.catalog.attach root child).2 }) := by
    rw [Action.attach, Action.ofCatalog, ← Catalog.attach_of_top root₁ live₁ top ne]
  refine ⟨_, (bind_of_ok refreshed).trans answered, sources, sound₁.attached attached,
    attached.aligned aligned₁, (keeps.mono fun _ _ out => out.2).trans attached.keeps,
    ⟨_, branch, (Node.source_eq_of_bare bare₁).trans hsource⟩,
    _, attached.get root₁ attached.node?_parent, ?_, fun name => ?_⟩
  · rw [Node.bare_mergeChild, Node.name_eq_of_bare bare₁]
  · rw [Catalog.lookup?_of_node? attached.node?_parent,
      Catalog.lookup?_of_node? attached.node?_child,
      Node.lookup?_mergeChild (aligned₁ child n₂ attached.child_found),
      Catalog.lookup?_of_node? (Catalog.node?_of_get live)]

theorem buildSource_of_describes (other : SourceKind β) (now : Instant) (schema : SchemaConfig)
    (describes : config.Describes listed conf settings) (sound : f.catalog.Sound)
    (aligned : f.catalog.Aligned) (live : f.catalog.get root = .ok m) (top : m.parent = none) :
    ∃ f' child, builtin.buildSource (pooled other) now config schema root listed f =
      some (.ok (), f') ∧ Grafted f f' root child m conf settings := by
  generalize hs : (Sum.inl (ofSettings conf.name settings) : MemorySource ⊕ β) = s
  generalize hadded : f.sources.add s = added
  obtain ⟨source, world⟩ := added
  have held : world.get? source = some s := by
    have := SourcePool.get?_add f.sources s
    rwa [hadded] at this
  have pool : ∀ id k, f.sources.get? id = some k → world.get? id = some k := by
    intro id k hk
    have := SourcePool.get?_add_of_some hk s
    rwa [hadded] at this
  have sourced : Action.ofSources (builtin.createSource conf) f =
      some (.ok source, { f with sources := world }) := by
    rw [Action.ofSources, createSource_of_declares describes.type describes.declares, hs, hadded]
  have inserted : Keeps (fun _ => True) f.catalog
      (f.catalog.insertNode conf.name (some conf) (some source)).2 := .insertNode ..
  have root_live := inserted.get trivial live
  have lower := Catalog.isLive_iff_lt.mp (Catalog.isLive_of_get live)
  have ne : (⟨f.catalog.nodes.length⟩ : NodeId) ≠ root := by
    rintro rfl
    exact Nat.lt_irrefl _ lower.2
  obtain ⟨n, created, name, hconf, hsource, -, childless, bare⟩ :=
    Catalog.get_created (lower.1.trans lower.2.le) conf.name (some conf) (some source)
  obtain ⟨f', built, sources, sound', aligned', keeps, ⟨n', branch, hsource'⟩, m', hm', root_bare,
    sees⟩ := grafted_of_created
      (f := ⟨(f.catalog.insertNode conf.name (some conf) (some source)).2, world⟩) other now
      (sound.insertNode _ _ _) (Catalog.Step.aligned (.create _ _ _) aligned) root_live top ne created
      name hconf childless bare hsource (hs ▸ held)
  refine ⟨f', ⟨f.catalog.nodes.length⟩, ?_, sound', aligned', ?_, ?_, rfl,
    ⟨n', source, branch, hsource', ?_⟩, m', _, hm', root_bare, fun name => ?_⟩
  · unfold buildSource
    rw [describes.known]
    exact (bind_of_ok sourced).trans ((bind_of_ok rfl).trans built)
  · refine (inserted.mono fun _ _ _ => trivial).andThen keeps fun id old out => ⟨out, ?_⟩
    rintro rfl
    exact Nat.lt_irrefl _ old
  · rw [sources]
    exact pool
  · rw [sources, hs]
    exact held
  · rw [sees, inserted.lookup? trivial (Catalog.node?_of_get live)]

end Build

end Registry

end SchemaCatalog
