import SchemaCatalog.Command
import SchemaCatalog.Proofs.Catalog.Entries
import SchemaCatalog.Proofs.Catalog.Refresh
import SchemaCatalog.Registry.Build

/-!
Operations made of several steps. Commands and the building of schemas attach only nodes that they
have just created, where no table of the parent's own is in the way, and they end unless child links
form a cycle.
-/

namespace SchemaCatalog

open Relation (ReflTransGen)
open Catalog (Steps Sweep Attached)

variable {σ : Type}

/-! ### A root and the child that is made for it -/

namespace Catalog

/-- A node that owns none of the tables that it sees. -/
def Selfless (c : Catalog) (id : NodeId) : Prop :=
  ∃ n, c.node? id = some n ∧ ∀ name, n.directory.owners.get? name ≠ some id

/-- A node without links that owns all tables that it sees. -/
def Alone (c : Catalog) (id : NodeId) : Prop :=
  ∃ n, c.node? id = some n ∧ n.id = id ∧ n.parent = none ∧ n.children = ∅ ∧
    ∀ name owner, n.directory.owners.get? name = some owner → owner = id

/-- A root, and a child that has been filled from its source and is not yet below the root. -/
structure Beside (c : Catalog) (root child : NodeId) : Prop where
  selfless : c.Selfless root
  alone : c.Alone child
  ne : root ≠ child

variable {c d : Catalog} {id root child : NodeId}

theorem Fresh.selfless (h : c.Fresh id) : c.Selfless id := by
  obtain ⟨n, found, -, -, -, hempty⟩ := h
  refine ⟨n, found, fun name => ?_⟩
  rw [hempty]
  exact nofun

theorem Fresh.alone (h : c.Fresh id) : c.Alone id := by
  obtain ⟨n, found, hid, hparent, hchildren, hempty⟩ := h
  refine ⟨n, found, hid, hparent, hchildren, fun name owner recorded => ?_⟩
  rw [hempty] at recorded
  cases recorded

theorem Alone.unlinked (h : c.Alone id) : c.Unlinked id := by
  obtain ⟨n, found, -, hparent, hchildren, -⟩ := h
  exact ⟨n, found, hparent, hchildren⟩

theorem Alone.covers (h : c.Alone id) : c.Covers (· = id) id := by
  intro x k hway found
  rcases ReflTransGen.cases_head hway with rfl | ⟨other, listed, -⟩
  · obtain ⟨n, hn, hid, -⟩ := h
    rw [hn] at found
    cases found
    exact ⟨rfl, hid⟩
  · exact absurd listed h.unlinked.not_lists

theorem beside_insertNode (h : c.Selfless root) (name : String) (config : Option SourceConfig)
    (source : Option SourceId) :
    (c.insertNode name config source).2.Beside root (c.insertNode name config source).1 := by
  obtain ⟨m, found, selfless⟩ := h
  refine ⟨⟨m, node?_insertNode_of_some found, selfless⟩, (fresh_insertNode c _ _ _).alone, ?_⟩
  rintro rfl
  exact Nat.lt_irrefl _ (index_lt_of_node? found)

namespace Beside

theorem modify (h : c.Beside root child) {change : Node → Node}
    (bare : ∀ n, (change n).bare = n.bare)
    (own : ∀ n name owner, (change n).directory.owners.get? name = some owner →
      owner = child ∨ n.directory.owners.get? name = some owner) :
    (c.modify child change).Beside root child := by
  obtain ⟨m, hm, selfless⟩ := h.selfless
  obtain ⟨n, hn, hid, hparent, hchildren, owned⟩ := h.alone
  refine ⟨⟨m, ?_, selfless⟩, ⟨change n, ?_, ?_, ?_, ?_, ?_⟩, h.ne⟩
  · rw [node?_modify, if_neg (Ne.symm h.ne), hm]
  · rw [node?_modify, if_pos rfl, hn, Option.map_some]
  · exact (Node.id_eq_of_bare (bare n)).trans hid
  · exact (Node.parent_eq_of_bare (bare n)).trans hparent
  · exact (Node.children_eq_of_bare (bare n)).trans hchildren
  · intro name owner recorded
    exact (own n name owner recorded).elim id (owned name owner)

theorem sweep (h : c.Beside root child) (hstep : Sweep (· = child) c d) :
    d.Beside root child := by
  cases hstep with
  | log => exact ⟨h.selfless, h.alone, h.ne⟩
  | shutdown => exact ⟨h.selfless, h.alone, h.ne⟩
  | @discover id n inside listed t found =>
      obtain ⟨k, hk, hid, -⟩ := h.alone
      cases inside
      rw [hk] at found
      cases found
      rw [hid]
      refine h.modify (fun n => n.bare_register _ _ _) fun n name owner recorded => ?_
      simp only [Node.register, Directory.register, NameMap.get?_insert] at recorded
      split at recorded
      · exact .inl (Option.some.inj recorded).symm
      · exact .inr recorded
  | @absorb id other m n name inside found listed =>
      cases inside
      exact absurd ⟨m, name, found, listed⟩ h.alone.unlinked.not_lists
  | stamp inside now =>
      cases inside
      exact h.modify (fun n => n.bare_stamp now) fun n name owner recorded => .inr recorded

theorem clear (h : c.Beside root child) : c.Clear root child := by
  obtain ⟨m, hm, selfless⟩ := h.selfless
  intro m' n name hm' _ recorded
  rw [hm] at hm'
  cases hm'
  exact absurd recorded (selfless name)

theorem attached {m n : Node} (h : c.Beside root child) (attached : Attached c root child m n d) :
    d.Selfless root := by
  obtain ⟨m', hm', -⟩ := attached.relinked attached.parent_found
  refine ⟨m', hm', fun name recorded => ?_⟩
  obtain ⟨k, hk, edits⟩ := attached.edits hm'
  rcases edits.owner recorded with old | ⟨t, -, -, taken⟩
  · obtain ⟨k', hk', selfless⟩ := h.selfless
    rw [hk] at hk'
    cases hk'
    exact selfless name old
  · obtain ⟨k', hk', hid, -, -, owned⟩ := h.alone
    rw [attached.child_found] at hk'
    cases hk'
    cases howner : n.directory.owners.get? name with
    | none =>
        rw [howner, Option.getD_none, hid] at taken
        exact h.ne taken
    | some owner =>
        rw [howner, Option.getD_some, owned name owner howner] at taken
        exact h.ne taken

end Beside

end Catalog

/-! ### Actions in steps -/

/-- An action that, from where `pre` holds, takes steps of the catalog, ends unless child links form
a cycle, and establishes `post` when it succeeds. -/
structure Action.Stepwise {α : Type} (pre : Catalog → Prop) (act : Action σ α)
    (post : α → Catalog → Prop) : Prop where
  steps : ∀ {f f' r}, pre f.catalog → act f = some (r, f') → Steps f.catalog f'.catalog
  holds : ∀ {f f' a}, pre f.catalog → act f = some (.ok a, f') → post a f'.catalog
  ends : ∀ {f}, pre f.catalog → f.catalog.Acyclic → ∃ r f', act f = some (r, f')

namespace Action.Stepwise

variable {α β : Type} {pre : Catalog → Prop} {post : α → Catalog → Prop}
  {last : β → Catalog → Prop}

theorem pure {a : α} (h : ∀ c, pre c → post a c) :
    Stepwise pre (Pure.pure a : Action σ α) post where
  steps _ h := by
    cases h
    exact .refl
  holds hpre h' := by
    cases h'
    exact h _ hpre
  ends _ _ := ⟨_, _, rfl⟩

theorem throw (e : CatalogError) : Stepwise pre (MonadExcept.throw e : Action σ α) post where
  steps _ h := by
    cases h
    exact .refl
  holds _ h := by cases h
  ends _ _ := ⟨_, _, rfl⟩

theorem bind {x : Action σ α} {k : α → Action σ β} (hx : Stepwise pre x post)
    (hk : ∀ a, Stepwise (post a) (k a) last) : Stepwise pre (x >>= k) last where
  steps {f f' r} hpre h := by
    obtain ⟨⟨answer, g⟩, hanswer, h⟩ := Option.bind_eq_some_iff.mp h
    cases answer with
    | ok a => exact (hx.steps hpre hanswer).trans ((hk a).steps (hx.holds hpre hanswer) h)
    | error e =>
        cases h
        exact hx.steps hpre hanswer
  holds {f f' b} hpre h := by
    obtain ⟨⟨answer, g⟩, hanswer, h⟩ := Option.bind_eq_some_iff.mp h
    cases answer with
    | ok a => exact (hk a).holds (hx.holds hpre hanswer) h
    | error e => cases h
  ends {f} hpre acyclic := by
    obtain ⟨answer, g, hanswer⟩ := hx.ends hpre acyclic
    cases answer with
    | ok a =>
        obtain ⟨r, f', h⟩ := (hk a).ends (hx.holds hpre hanswer)
          ((hx.steps hpre hanswer).acyclic acyclic)
        exact ⟨r, f', Option.bind_eq_some_iff.mpr ⟨_, hanswer, h⟩⟩
    | error e => exact ⟨.error e, g, Option.bind_eq_some_iff.mpr ⟨_, hanswer, rfl⟩⟩

theorem mono {x : Action σ α} {post' : α → Catalog → Prop} (h : Stepwise pre x post)
    (weaker : ∀ a c, post a c → post' a c) : Stepwise pre x post' :=
  { h with holds := fun hpre hx => weaker _ _ (h.holds hpre hx) }

theorem map {x : Action σ α} {g : α → β} (h : Stepwise pre x fun a => last (g a)) :
    Stepwise pre (g <$> x) last := by
  rw [map_eq_pure_bind]
  exact h.bind fun a => .pure fun _ => id

theorem ofCatalog {step : Catalog → Except CatalogError α × Catalog}
    (steps : ∀ c, pre c → Steps c (step c).2)
    (holds : ∀ c a, pre c → (step c).1 = .ok a → post a (step c).2) :
    Stepwise pre (Action.ofCatalog step : Action σ α) post where
  steps hpre h := by
    cases h
    exact steps _ hpre
  holds {f f' a} hpre h := by
    have heq := Option.some.inj h
    have hanswer : (step f.catalog).1 = .ok a := congrArg Prod.fst heq
    have hcatalog := congrArg (fun p => p.2.catalog) heq
    exact hcatalog ▸ holds f.catalog a hpre hanswer
  ends _ _ := ⟨_, _, rfl⟩

/-! ### Single steps -/

theorem ofSources (step : σ → Except CatalogError α × σ) :
    Stepwise pre (Action.ofSources step) fun _ => pre where
  steps _ h := by
    cases h
    exact .refl
  holds {f f' a} hpre h := by
    have hcatalog := congrArg (fun p => p.2.catalog) (Option.some.inj h)
    exact hcatalog ▸ hpre
  ends _ _ := ⟨_, _, rfl⟩

theorem catalog : Stepwise pre (Action.catalog : Action σ Catalog) fun _ => pre where
  steps _ h := by
    cases h
    exact .refl
  holds hpre h := by
    cases h
    exact hpre
  ends _ _ := ⟨_, _, rfl⟩

theorem log {level : Level} {message : String}
    (other : (LogEntry.mk level message).isAttachment = false) :
    Stepwise pre (Action.log level message : Action σ Unit) fun _ _ => True :=
  ofCatalog (fun _ _ => .single (.touch (.log other))) fun _ _ _ _ => trivial

theorem create (name : String) (source : Option SourceId) :
    Stepwise pre (Action.create name source : Action σ NodeId) fun id c => c.Fresh id := by
  refine ofCatalog (fun c _ => .single (.create name none source)) ?_
  intro c id _ h
  cases h
  exact Catalog.fresh_insertNode c name none source

theorem createBeside (root : NodeId) (config : SourceConfig) (source : Option SourceId) :
    Stepwise (·.Selfless root) (Action.createWithConfig config source : Action σ NodeId)
      fun child c => c.Beside root child := by
  refine ofCatalog (fun c _ => .single (.create config.name (some config) source)) ?_
  intro c id selfless h
  cases h
  exact Catalog.beside_insertNode selfless config.name (some config) source

/-- Attaching a node that has no links yet, where no table of the parent's own is in its way. -/
theorem place {last : Catalog → Prop} (parent child : NodeId)
    (new : ∀ {c}, pre c → c.Unlinked child ∧ c.Clear parent child)
    (keep : ∀ {c d m n}, pre c → Attached c parent child m n d → last d) :
    Stepwise pre (Action.attach parent child : Action σ Unit) fun _ => last := by
  refine ofCatalog (fun c hpre => ?_) fun c _ hpre accepted => ?_
  · by_cases accepted : (c.attach parent child).1 = .ok ()
    · exact .single (.place (new hpre).1 accepted (new hpre).2)
    · rw [Catalog.attach_of_error accepted]
  · obtain ⟨m, n, attached⟩ := Catalog.attached_of_ok accepted
    exact keep hpre attached

theorem addTable (id : NodeId) (t : Table) :
    Stepwise pre (Action.addTable id t : Action σ Unit) fun _ _ => True :=
  ofCatalog (fun _ _ => .single (.touch (.addTable id t))) fun _ _ _ _ => trivial

theorem drop (id : NodeId) (name : String) :
    Stepwise pre (Action.drop id name : Action σ Table) fun _ _ => True :=
  ofCatalog (fun _ _ => .single (.touch (.drop id name))) fun _ _ _ _ => trivial

/-- A refresh keeps what the steps within its reach keep. -/
theorem refresh (backend : Backend σ) (now : Instant) (id : NodeId) (within : NodeId → Prop)
    (covers : ∀ {c}, pre c → c.Covers within id)
    (keep : ∀ {c d}, Sweep within c d → pre c → pre d) :
    Stepwise pre (Action.refresh backend now id) fun _ => pre where
  steps _ h := (Federation.touches_refresh backend now h).steps
  holds {f f' _} hpre h := by
    have sweeps := Federation.sweeps_refresh backend now (covers hpre) h
    generalize f'.catalog = d at sweeps
    induction sweeps with
    | refl => exact hpre
    | tail _ hstep ih => exact keep hstep ih
  ends _ acyclic := Federation.exists_refresh backend now (acyclic.below id)

theorem refreshAny (backend : Backend σ) (now : Instant) (id : NodeId) :
    Stepwise (fun _ => True) (Action.refresh backend now id) fun _ _ => True :=
  refresh backend now id (fun _ => True) (fun _ => Catalog.covers_everywhere _ id)
    fun _ _ => trivial

/-! ### Commands -/

theorem resolve (name : String) :
    Stepwise pre (Command.resolve name : Action σ NodeId) fun _ => pre := by
  refine catalog.bind fun c => ?_
  split
  · exact .pure fun _ => id
  · exact .throw _

theorem resolveParent (parent : Option String) :
    Stepwise pre (parent.mapM Command.resolve : Action σ (Option NodeId)) fun _ => pre := by
  cases parent with
  | none => exact .pure fun _ => id
  | some name =>
      show Stepwise pre (some <$> Command.resolve name) fun _ => pre
      exact map (resolve name)

theorem run (backend : Backend σ) (now : Instant) (command : Command) :
    Stepwise (fun _ => True) (command.run backend now) fun _ _ => True := by
  cases command with
  | createSchema name parent =>
      refine catalog.bind fun c => ?_
      split
      · exact throw (.schemaExists (Text.lowercase name))
      · refine (resolveParent parent).bind fun above => (create name none).bind fun child => ?_
        cases above with
        | some above =>
            exact place above child (fun fresh => ⟨fresh.unlinked, fresh.clear above⟩)
              fun _ _ => trivial
        | none => exact .pure fun _ _ => trivial
  | addTable schema t => exact (resolve schema).bind fun id => addTable id t
  | dropTable schema name => exact (resolve schema).bind fun id => (drop id name).map
  | refresh schema =>
      exact (resolve schema).bind fun id => refreshAny backend now id

theorem apply (backend : Backend σ) (now : Instant) (command : Command) :
    Stepwise (fun _ => True) (command.apply backend now) fun _ _ => True :=
  (log (by simp [LogEntry.isAttachment, toString, List.isPrefixOf])).bind fun _ =>
    run backend now command

/-! ### Building -/

theorem forM {l : List β} {act : β → Action σ Unit}
    (h : ∀ b, Stepwise pre (act b) fun _ => pre) : Stepwise pre (l.forM act) fun _ => pre := by
  induction l with
  | nil => exact .pure fun _ => id
  | cons b l ih => exact (h b).bind fun _ => ih

theorem mapM {l : List β} {act : β → Action σ α}
    (h : ∀ b, Stepwise pre (act b) fun _ => pre) : Stepwise pre (l.mapM act) fun _ => pre := by
  induction l with
  | nil => exact .pure fun _ => id
  | cons b l ih =>
      rw [List.mapM_cons]
      exact (h b).bind fun _ => ih.bind fun _ => .pure fun _ => id

theorem buildSource (r : Registry σ) (backend : Backend σ) (now : Instant)
    (config : CatalogConfig) (schema : SchemaConfig) (root : NodeId) (name : String) :
    Stepwise (·.Selfless root) (r.buildSource backend now config schema root name)
      fun _ c => c.Selfless root := by
  unfold Registry.buildSource
  split
  · exact .throw _
  · rename_i conf _
    refine (ofSources (r.createSource conf)).bind fun source => ?_
    refine (createBeside root conf (some source)).bind fun child => ?_
    refine (refresh backend now child (· = child) (fun beside => beside.alone.covers)
      fun hstep beside => beside.sweep hstep).bind fun _ => ?_
    exact place root child (fun beside => ⟨beside.alone.unlinked, beside.clear⟩)
      fun beside attached => beside.attached attached

theorem buildSchema (r : Registry σ) (backend : Backend σ) (now : Instant)
    (config : CatalogConfig) (schema : SchemaConfig) :
    Stepwise (fun _ => True) (r.buildSchema backend now config schema) fun _ _ => True := by
  refine ((create schema.name none).mono fun _ _ fresh => fresh.selfless).bind fun root => ?_
  refine ((forM (buildSource r backend now config schema root)).mono fun _ _ _ => trivial).bind
    fun _ => ?_
  refine (refreshAny backend now root).bind fun _ => catalog.bind fun c => ?_
  split
  · refine (log ?_).bind fun _ => .pure fun _ _ => trivial
    unfold Registry.builtMessage
    simp [LogEntry.isAttachment, toString, List.isPrefixOf]
  · exact .pure fun _ _ => trivial

theorem buildSchemas (r : Registry σ) (backend : Backend σ) (now : Instant)
    (config : CatalogConfig) :
    Stepwise (fun _ => True) (r.buildSchemas backend now config) fun _ _ => True :=
  mapM (buildSchema r backend now config)

end Action.Stepwise

end SchemaCatalog
