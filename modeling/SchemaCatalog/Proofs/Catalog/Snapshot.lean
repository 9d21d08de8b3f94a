import SchemaCatalog.Proofs.Catalog.Frame
import SchemaCatalog.Proofs.Catalog.Outcome

/-!
An attachment gives the parent a copy of what the child sees. From then on the parent sees the same
until an operation concerns it, whatever becomes of the child.
-/

namespace SchemaCatalog

open Relation (ReflTransGen)
open Catalog (Sweeps Attached)

variable {σ : Type}

namespace Catalog

variable {c d : Catalog} {p : NodeId} {seen : Directory}

/-! ### The copy -/

/-- An attachment of `n` to `m`. The entries of the child take the place of the parent's, in
whatever order they come; the child gets another parent, and all other nodes stay as they are. -/
structure Snapshot (c : Catalog) (parent child : NodeId) (m n : Node) (d : Catalog) (m' : Node) :
    Prop where
  parent_node : d.node? parent = some m'
  links : m' = { m with children := m.children.insert n.name child, directory := m'.directory }
  aligned : m'.directory.Aligned
  lookup : ∀ name, m'.directory.lookup? name =
    (n.directory.lookup? name).or (m.directory.lookup? name)
  unordered : ∀ entries : List (String × Table), entries.Perm n.directory.tables.entries →
    m' = entries.foldl n.takeAny { m with children := m.children.insert n.name child }
  child_node : d.node? child = some { n with parent := some parent }
  others : ∀ z, z ≠ parent → z ≠ child → d.node? z = c.node? z

theorem Attached.snapshot {parent child : NodeId} {m n : Node} (h : Attached c parent child m n d)
    (aligned : c.Aligned) : ∃ m', Snapshot c parent child m n d m' := by
  have hm := aligned parent m h.parent_found
  have hn := aligned child n h.child_found
  have linked : ({ m with children := m.children.insert n.name child } : Node).directory.Aligned :=
    hm
  refine ⟨_, by rw [h.node?, if_pos rfl], Node.foldl_takeAny_eq _ n _,
    Node.mergeChild_aligned linked n, fun name => Node.lookup?_mergeChild hn name,
    fun entries order => (Node.mergeChild_of_perm linked hn order).symm, ?_, ?_⟩
  · rw [h.node?, if_neg h.ne, if_pos rfl]
  · intro z hp hq
    rw [h.node?, if_neg hp, if_neg hq]

/-! ### What a node sees -/

def Sees (c : Catalog) (p : NodeId) (seen : Directory) : Prop :=
  ∃ n, c.node? p = some n ∧ n.directory = seen

theorem Sees.congr (h : c.Sees p seen) (same : d.node? p = c.node? p) : d.Sees p seen := by
  obtain ⟨n, found, hseen⟩ := h
  exact ⟨n, same.trans found, hseen⟩

theorem Sees.addTable (h : c.Sees p seen) {id : NodeId} (other : id ≠ p) (t : Table) :
    (c.addTable id t).Sees p seen := by
  unfold Catalog.addTable
  split
  · exact h
  · exact h.congr (node?_modify_of_ne (Ne.symm other) _)

theorem Sees.insertNode (h : c.Sees p seen) (name : String) (config : Option SourceConfig)
    (source : Option SourceId) : (c.insertNode name config source).2.Sees p seen := by
  obtain ⟨n, found, hseen⟩ := h
  exact ⟨n, node?_insertNode_of_some found, hseen⟩

theorem Sees.attach (h : c.Sees p seen) {parent : NodeId} (other : parent ≠ p) (child : NodeId) :
    (c.attach parent child).2.Sees p seen := by
  by_cases accepted : (c.attach parent child).1 = .ok ()
  · obtain ⟨m, n, attached⟩ := attached_of_ok accepted
    obtain ⟨k, found, hseen⟩ := h
    by_cases same : p = child
    · subst same
      rw [attached.child_found] at found
      cases found
      exact ⟨{ n with parent := some parent },
        by rw [attached.node?, if_neg (Ne.symm other), if_pos rfl], hseen⟩
    · exact ⟨k, by rw [attached.node?, if_neg (Ne.symm other), if_neg same, found], hseen⟩
  · rw [attach_of_error accepted]
    exact h

/-- A node that has just been created has nothing that a parent could take over. -/
theorem Sees.attach_fresh (h : c.Sees p seen) {child : NodeId} (fresh : c.Fresh child)
    (parent : NodeId) : (c.attach parent child).2.Sees p seen := by
  by_cases other : parent = p
  · subst other
    by_cases accepted : (c.attach parent child).1 = .ok ()
    · obtain ⟨m, n, attached⟩ := attached_of_ok accepted
      obtain ⟨k, hk, -, -, -, hempty⟩ := fresh
      obtain ⟨k', found, hseen⟩ := h
      rw [attached.child_found] at hk
      cases hk
      rw [attached.parent_found] at found
      cases found
      refine ⟨_, by rw [attached.node?, if_pos rfl], ?_⟩
      rw [Node.mergeChild_eq, hempty]
      exact hseen
    · rw [attach_of_error accepted]
      exact h
  · exact h.attach other child

theorem Sees.refresh {backend : Backend σ} {now : Instant} {f f' : Federation σ} {x : NodeId}
    {answer : Except CatalogError Unit} (h : f.catalog.Sees p seen) (sound : f.catalog.Sound)
    (apart : ¬ ReflTransGen f.catalog.Lists x p)
    (hrefresh : f.refresh backend now x = some (answer, f')) : f'.catalog.Sees p seen := by
  have sweeps := Federation.sweeps_refresh backend now (sound.covers x) hrefresh
  exact h.congr (sweeps.node?_of_outside sound apart)

theorem Sees.loadTable {backend : Backend σ} {f : Federation σ} {id : NodeId}
    (h : f.catalog.Sees p seen) (sound : f.catalog.Sound) (other : id ≠ p) (name : String) :
    (f.loadTable backend id name).2.catalog.Sees p seen := by
  unfold Federation.loadTable
  split
  · exact h
  rename_i n found
  split
  · exact h
  simp only
  split
  · obtain ⟨-, same, -⟩ := Federation.listedName_spec backend f n (Node.plainName name)
    generalize f.listedName backend n (Node.plainName name) = answer at same ⊢
    obtain ⟨listed, f'⟩ := answer
    have asked : f'.catalog.Sees p seen := h.congr (by rw [node?, same, node?])
    rcases Federation.loadListed_catalog backend f' n listed with hkept | ⟨t, hloaded⟩
    · rw [hkept]
      exact asked
    · rw [hloaded, sound.ids id n found]
      exact asked.congr (node?_modify_of_ne (Ne.symm other) _)
  · exact h

theorem Sees.schemaForTable (h : c.Sees p seen) (id : NodeId) (name : String) :
    (c.schemaForTable id name).2.Sees p seen := by
  unfold Catalog.schemaForTable
  simp only
  split
  · exact h
  · split
    · exact h
    · split <;> exact h

end Catalog

/-! ### Operations that concern a node -/

/-- The command can change what a node sees. One that creates a schema below it cannot: there is
nothing yet to be taken over. -/
def Command.Concerns (c : Catalog) (p : NodeId) : Command → Prop
  | createSchema _ _ => False
  | addTable schema _ => ∃ n, c.byName? schema = some n ∧ n.id = p
  | dropTable _ _ => True
  | refresh schema => ∃ n, c.byName? schema = some n ∧ ReflTransGen c.Lists n.id p

theorem Command.concerns_log (c : Catalog) (level : Level) (message : String) (p : NodeId)
    (command : Command) : command.Concerns (c.log level message) p = command.Concerns c p := by
  cases command <;> rfl

/-- The operation can change what a node sees: it adds, loads or attaches something there, refreshes
the node or one that leads to it, or drops a table. -/
def Operation.Concerns (c : Catalog) (p : NodeId) : Operation σ → Prop
  | attach parent _ => parent = p
  | addTable id _ => id = p
  | loadTable id _ => id = p
  | refresh _ id => ReflTransGen c.Lists id p
  | drop _ _ => True
  | apply _ command => command.Concerns c p
  | _ => False

namespace Action.Leaves

open Catalog (Sees)

variable {p : NodeId} {seen : Directory}

theorem createFresh (name : String) (source : Option SourceId) :
    Leaves (fun c => c.Sees p seen) (Action.create name source : Action σ NodeId)
      (fun id c => c.Sees p seen ∧ c.Fresh id) (fun c => c.Sees p seen) :=
  ofChange fun c sees =>
    ⟨sees.insertNode name none source, Catalog.fresh_insertNode c name none source⟩

theorem attach {pre : Catalog → Prop} (parent child : NodeId)
    (h : ∀ c, pre c → (c.attach parent child).2.Sees p seen) :
    Leaves pre (Action.attach parent child : Action σ Unit) (fun _ c => c.Sees p seen)
      (fun c => c.Sees p seen) :=
  ofCatalog (fun c _ hpre _ => h c hpre) fun c _ hpre _ => h c hpre

theorem run (backend : Backend σ) (now : Instant) (command : Command) :
    Leaves (fun c => c.Sound ∧ c.Sees p seen ∧ ¬ command.Concerns c p) (command.run backend now)
      (fun _ c => c.Sees p seen) (fun c => c.Sees p seen) := by
  cases command with
  | createSchema name parent =>
      refine catalog.bind fun c => ?_
      split
      · exact throw (.schemaExists (Text.lowercase name)) fun d hd => hd.2.2.1
      · refine ((resolveParent parent fun d sees => sees).mono (fun d hd => hd.2.2.1)
          fun _ _ => id).bind fun above => (createFresh name none).bind fun child => ?_
        cases above with
        | some above => exact attach above child fun d hd => hd.1.attach_fresh hd.2 above
        | none => exact .pure fun d hd => hd.1
  | addTable schema t =>
      refine (resolve schema fun d hd => hd.2.1).bind fun id => ofChange ?_
      rintro d ⟨⟨-, sees, apart⟩, n, found, hid⟩
      exact sees.addTable (fun heq => apart ⟨n, found, hid.trans heq⟩) t
  | dropTable schema name =>
      exact ⟨fun hpre => absurd trivial hpre.2.2, fun hpre => absurd trivial hpre.2.2⟩
  | refresh schema =>
      refine (resolve schema fun d hd => hd.2.1).bind fun id => ⟨?_, ?_⟩
      · rintro f f' a ⟨⟨sound, sees, apart⟩, n, found, rfl⟩ hrefresh
        exact sees.refresh sound (fun hway => apart ⟨n, found, hway⟩) hrefresh
      · rintro f f' e ⟨⟨sound, sees, apart⟩, n, found, rfl⟩ hrefresh
        exact sees.refresh sound (fun hway => apart ⟨n, found, hway⟩) hrefresh

theorem apply (backend : Backend σ) (now : Instant) (command : Command) :
    Leaves (fun c => c.Sound ∧ c.Sees p seen ∧ ¬ command.Concerns c p) (command.apply backend now)
      (fun _ c => c.Sees p seen) (fun c => c.Sees p seen) := by
  refine (log ?_).bind fun _ => run backend now command
  rintro c ⟨sound, sees, apart⟩
  have logged : Catalog.Touch c (c.log .debug s!"applying {command.display}") :=
    .log (by simp [LogEntry.isAttachment, toString, List.isPrefixOf])
  refine ⟨sound.touch logged, sees, ?_⟩
  rwa [Command.concerns_log]

end Action.Leaves

/-! ### Building -/

namespace Catalog

/-- A node that sees `seen`, and sources for new nodes: from `bound` on nodes list only each other,
and the node is older. -/
structure Apart (p : NodeId) (seen : Directory) (bound : Nat) (c : Catalog) : Prop where
  sound : c.Sound
  sees : c.Sees p seen
  older : p.index < bound
  room : bound ≤ c.nodes.length
  onward : ∀ x y, bound ≤ x.index → c.Lists x y → bound ≤ y.index

namespace Apart

variable {c d : Catalog} {p : NodeId} {seen : Directory} {bound : Nat}

theorem start (sound : c.Sound) (sees : c.Sees p seen) : Apart p seen c.nodes.length c := by
  obtain ⟨n, found, hseen⟩ := sees
  refine ⟨sound, ⟨n, found, hseen⟩, index_lt_of_node? found, Nat.le_refl _, ?_⟩
  rintro x y beyond ⟨k, name, hk, -⟩
  have := index_lt_of_node? hk
  omega

theorem insertNode (h : Apart p seen bound c) (name : String) (config : Option SourceConfig)
    (source : Option SourceId) : Apart p seen bound (c.insertNode name config source).2 where
  sound := h.sound.insertNode name config source
  sees := h.sees.insertNode name config source
  older := h.older
  room := by
    rw [length_insertNode]
    exact h.room.trans (Nat.le_succ _)
  onward := by
    rw [lists_insertNode]
    exact h.onward

theorem covers (h : Apart p seen bound c) {x : NodeId} (new : bound ≤ x.index) :
    c.Covers (bound ≤ ·.index) x := by
  intro z n hway found
  have reached : bound ≤ z.index := by
    clear found
    induction hway with
    | refl => exact new
    | tail _ listed ih => exact h.onward _ _ ih listed
  exact ⟨reached, h.sound.ids z n found ▸ reached⟩

theorem sweeps (h : Apart p seen bound c) (hd : Sweeps (bound ≤ ·.index) c d) :
    Apart p seen bound d where
  sound := hd.sound h.sound
  sees := h.sees.congr (hd.node?_of_outside h.sound (Nat.not_le.mpr h.older))
  older := h.older
  room := by
    rw [length_of_bareNodes hd.touches.bareNodes]
    exact h.room
  onward := by
    rw [lists_of_bareNodes hd.touches.bareNodes]
    exact h.onward

theorem attach (h : Apart p seen bound c) {parent child : NodeId} (hp : bound ≤ parent.index)
    (hq : bound ≤ child.index) : Apart p seen bound (c.attach parent child).2 := by
  by_cases accepted : (c.attach parent child).1 = .ok ()
  · obtain ⟨m, n, attached⟩ := attached_of_ok accepted
    have other : parent ≠ p := by
      rintro rfl
      exact Nat.not_lt.mpr hp h.older
    refine ⟨h.sound.attached attached, h.sees.attach other child, h.older, ?_, ?_⟩
    · rw [attached.length]
      exact h.room
    · intro x y hx listed
      by_cases same : x = parent
      · subst same
        rcases attached.lists_parent listed with rfl | old
        · exact hq
        · exact h.onward x y hx old
      · exact h.onward x y hx ((attached.lists_of_ne same).mp listed)
  · rw [attach_of_error accepted]
    exact h

end Apart

end Catalog

namespace Action.Leaves

open Catalog (Apart)

variable {p : NodeId} {seen : Directory} {bound : Nat}

/-- Nodes that are created come after all others. -/
theorem insertApart (name : String) (config : Option SourceConfig) (source : Option SourceId) :
    Leaves (Apart p seen bound)
      (Action.ofCatalog fun c => (.ok (c.insertNode name config source).1,
        (c.insertNode name config source).2) : Action σ NodeId)
      (fun id c => Apart p seen bound c ∧ bound ≤ id.index) (Apart p seen bound) :=
  ofChange fun _ apart => ⟨apart.insertNode name config source, apart.room⟩

theorem refreshApart (backend : Backend σ) (now : Instant) {x : NodeId} (new : bound ≤ x.index) :
    Leaves (Apart p seen bound) (Action.refresh backend now x) (fun _ => Apart p seen bound)
      (Apart p seen bound) where
  holds apart h := apart.sweeps (Federation.sweeps_refresh backend now (apart.covers new) h)
  fails apart h := apart.sweeps (Federation.sweeps_refresh backend now (apart.covers new) h)

theorem buildSource (r : Registry σ) (backend : Backend σ) (now : Instant) (config : CatalogConfig)
    (schema : SchemaConfig) {root : NodeId} (new : bound ≤ root.index) (name : String) :
    Leaves (Apart p seen bound) (r.buildSource backend now config schema root name)
      (fun _ => Apart p seen bound) (Apart p seen bound) := by
  unfold Registry.buildSource
  split
  · exact .throw _ fun c h => h
  · rename_i conf _
    refine (ofSources (r.createSource conf) fun c h => h).bind fun source => ?_
    refine (insertApart conf.name (some conf) (some source)).bind fun child => given fun below => ?_
    exact (refreshApart backend now below).bind fun _ => ofCatalog
      (fun c _ apart _ => apart.attach new below) fun c _ apart _ => apart.attach new below

theorem buildSchema (r : Registry σ) (backend : Backend σ) (now : Instant)
    (config : CatalogConfig) (schema : SchemaConfig) :
    Leaves (Apart p seen bound) (r.buildSchema backend now config schema)
      (fun _ => Apart p seen bound) (Apart p seen bound) := by
  refine (insertApart schema.name none none).bind fun root => given fun new => ?_
  refine (forM (buildSource r backend now config schema new)).bind fun _ => ?_
  refine (refreshApart backend now new).bind fun _ => catalog.bind fun c => ?_
  have built {d : Catalog} (h : c = d ∧ Apart p seen bound d) (n : Node) :
      Apart p seen bound (d.log .info (Registry.builtMessage schema n)) := by
    have logged : Catalog.Sweep (bound ≤ ·.index) d
        (d.log .info (Registry.builtMessage schema n)) := by
      refine .log ?_
      unfold Registry.builtMessage
      simp [LogEntry.isAttachment, toString, List.isPrefixOf]
    exact h.2.sweeps (.single logged)
  split
  · rename_i n _
    exact (log fun d h => built h n).bind fun _ => .pure fun _ => id
  · exact .pure fun d h => h.2

theorem buildSchemas (r : Registry σ) (backend : Backend σ) (now : Instant)
    (config : CatalogConfig) :
    Leaves (Apart p seen bound) (r.buildSchemas backend now config)
      (fun _ => Apart p seen bound) (Apart p seen bound) :=
  mapM (buildSchema r backend now config)

end Action.Leaves

/-! ### Runs -/

/-- An operation that does not concern a node leaves it what it sees. -/
theorem Operation.sees_of_perform {backend : Backend σ} {f f' : Federation σ} {op : Operation σ}
    {p : NodeId} {seen : Directory} (sound : f.catalog.Sound) (sees : f.catalog.Sees p seen)
    (apart : ¬ op.Concerns f.catalog p) (h : op.perform backend f = some f') :
    f'.catalog.Sees p seen := by
  cases op with
  | create name source =>
      cases h
      exact sees.insertNode name none source
  | createWithConfig config source =>
      cases h
      exact sees.insertNode config.name (some config) source
  | attach parent child =>
      cases h
      exact sees.attach apart child
  | addTable id t =>
      cases h
      exact sees.addTable apart t
  | loadTable id name =>
      cases h
      exact sees.loadTable sound apart name
  | refresh now id =>
      obtain ⟨answer, hanswer, rfl⟩ := Option.map_eq_some_iff.mp h
      exact sees.refresh sound apart hanswer
  | drop id name => exact absurd trivial apart
  | build registry now config =>
      obtain ⟨answer, hanswer, rfl⟩ := Option.map_eq_some_iff.mp h
      exact (Action.Leaves.buildSchemas registry backend now config).always
        (fun _ _ h => h.sees) (fun _ h => h.sees) (Catalog.Apart.start sound sees) hanswer
  | apply now command =>
      obtain ⟨answer, hanswer, rfl⟩ := Option.map_eq_some_iff.mp h
      exact (Action.Leaves.apply backend now command).always (fun _ _ h => h) (fun _ h => h)
        ⟨sound, sees, apart⟩ hanswer
  | schemaForTable id name =>
      cases h
      exact sees.schemaForTable id name
  | openTable id name =>
      cases h
      rw [catalog_openTable]
      exact sees
  | shutdown =>
      cases h
      exact sees
  | change world =>
      cases h
      exact sees

namespace Run

variable {r : Run σ} {f f' : Federation σ} {p : NodeId} {seen : Directory}

/-- The run comes from one state to another without an operation that concerns the node. -/
def Spares (r : Run σ) (p : NodeId) (f f' : Federation σ) : Prop :=
  ∃ done more, done ++ more <+: r.operations ∧ r.after done = some f ∧
    r.after (done ++ more) = some f' ∧ ∀ before op g, before ++ [op] <+: more →
      r.after (done ++ before) = some g → ¬ op.Concerns g.catalog p

theorem Spares.sees (h : r.Spares p f f') (sees : f.catalog.Sees p seen) :
    f'.catalog.Sees p seen := by
  obtain ⟨done, more, hprefix, hdone, hmore, apart⟩ := h
  induction more using List.reverseRecOn generalizing f' with
  | nil =>
      rw [List.append_nil, hdone] at hmore
      cases hmore
      exact sees
  | append_singleton more op ih =>
      rw [← List.append_assoc] at hprefix hmore
      obtain ⟨g, hg, hop⟩ := after_concat.mp hmore
      have visited : r.Visits g := ⟨_, (List.prefix_append _ _).trans hprefix, hg⟩
      have earlier : g.catalog.Sees p seen := by
        refine ih ((List.prefix_append _ _).trans hprefix) hg ?_
        intro before op' g' hbefore
        exact apart before op' g' (hbefore.trans (List.prefix_append _ _))
      exact Operation.sees_of_perform (Run.sound visited) earlier
        (apart more op g List.prefix_rfl hg) hop

/-- An attachment that is carried out gives the parent a copy of what the child sees, and one that
is refused changes nothing. At any time a node sees the same until an operation concerns it. -/
theorem attach_copies_once (visited : r.Visits f) (p q : NodeId) :
    ((f.catalog.attach p q).1 = .ok () → ∃ m n m', f.catalog.get p = .ok m ∧
      f.catalog.get q = .ok n ∧ Catalog.Snapshot f.catalog p q m n (f.catalog.attach p q).2 m') ∧
    ((f.catalog.attach p q).1 ≠ .ok () → (f.catalog.attach p q).2 = f.catalog) ∧
    ∀ g g' n, r.Spares p g g' → g.catalog.node? p = some n →
      ∃ n', g'.catalog.node? p = some n' ∧ n'.directory = n.directory := by
  refine ⟨fun accepted => ?_, Catalog.attach_of_error, fun g g' n spares found => ?_⟩
  · obtain ⟨m, n, attached⟩ := Catalog.attached_of_ok accepted
    obtain ⟨m', snapshot⟩ := attached.snapshot (Run.aligned visited)
    exact ⟨m, n, m', attached.parent_live, attached.child_live, snapshot⟩
  · exact spares.sees ⟨n, found, rfl⟩

/-- The child has another table under a name that the parent knows, and gets one more after it has
been attached. -/
def copied : Run Unit where
  backend := silent
  sources := ()
  operations := [.create "p" none, .create "c" none, .addTable ⟨0⟩ (.new "t"),
    .addTable ⟨1⟩ (.new "T"), .addTable ⟨1⟩ (.new "u"), .attach ⟨0⟩ ⟨1⟩, .addTable ⟨1⟩ (.new "v")]

theorem attach_copies_once_copied : ∃ f g g' m n m' k k', copied.Visits f ∧
    f.catalog.get ⟨0⟩ = .ok m ∧ f.catalog.get ⟨1⟩ = .ok n ∧
    Catalog.Snapshot f.catalog ⟨0⟩ ⟨1⟩ m n (f.catalog.attach ⟨0⟩ ⟨1⟩).2 m' ∧
    copied.Spares ⟨0⟩ g g' ∧ g.catalog.node? ⟨0⟩ = some k ∧ g'.catalog.node? ⟨0⟩ = some k' ∧
    k.directory.names = ["t", "u"] ∧ k.directory.owners.get? "t" = some ⟨1⟩ ∧
    k'.directory = k.directory := by
  have accepted : ((copied.after (copied.operations.take 5)).map fun f =>
      (f.catalog.attach ⟨0⟩ ⟨1⟩).1.toOption) = some (some ()) := by decide +kernel
  have computed : ((copied.after (copied.operations.take 6)).bind fun g =>
      (copied.after (copied.operations.take 6 ++ copied.operations.drop 6)).bind fun _ =>
        (g.catalog.node? ⟨0⟩).map fun k => (k.directory.names, k.directory.owners.get? "t")) =
      some (["t", "u"], some ⟨1⟩) := by decide +kernel
  obtain ⟨f, hf, hanswer⟩ := Option.map_eq_some_iff.mp accepted
  obtain ⟨g, hg, hlater⟩ := Option.bind_eq_some_iff.mp computed
  obtain ⟨g', hg', hk⟩ := Option.bind_eq_some_iff.mp hlater
  obtain ⟨k, found, hparts⟩ := Option.map_eq_some_iff.mp hk
  obtain ⟨hnames, howner⟩ := Prod.mk.injEq .. ▸ hparts
  have visited : copied.Visits f := ⟨_, List.take_prefix 5 _, hf⟩
  have spares : copied.Spares ⟨0⟩ g g' := by
    refine ⟨_, _, ⟨[], by rw [List.append_nil, List.take_append_drop]⟩, hg, hg', ?_⟩
    rintro before op h ⟨rest, heq⟩ -
    cases before with
    | nil =>
        cases heq
        show ¬ (⟨1⟩ : NodeId) = ⟨0⟩
        decide
    | cons first before =>
        have length := congrArg List.length heq
        simp [copied] at length
  obtain ⟨copies, -, later⟩ := attach_copies_once visited ⟨0⟩ ⟨1⟩
  obtain ⟨m, n, m', hm, hn, snapshot⟩ := copies (by
    cases h : (f.catalog.attach ⟨0⟩ ⟨1⟩).1 with
    | ok => rfl
    | error e =>
        rw [h] at hanswer
        cases hanswer)
  obtain ⟨k', found', same⟩ := later g g' k spares found
  exact ⟨f, g, g', m, n, m', k, k', visited, hm, hn, snapshot, spares, found, found', hnames,
    howner, same⟩

end Run

end SchemaCatalog
