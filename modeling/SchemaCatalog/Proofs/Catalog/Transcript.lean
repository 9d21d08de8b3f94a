import SchemaCatalog.Proofs.Catalog.Refresh

/-!
A record of what sources are asked and what they answer. Nothing else of a source shows in a
refresh, so sources that answer the same way leave the same catalog.
-/

namespace SchemaCatalog

variable {σ τ : Type}

/-- A question to a source and its answer. -/
inductive Exchange where
  | list (source : SourceId) (names : List String)
  | describe (source : SourceId) (name : String) (answer : Except CatalogError (Option Table))

/-- What sources answer while their answers do not change. -/
structure Answers where
  list : SourceId → List String
  describe : SourceId → String → Except CatalogError (Option Table)

namespace Answers

/-- The source has answered so. -/
def Fits (answers : Answers) : Exchange → Prop
  | .list source names => names = answers.list source
  | .describe source name answer => answer = answers.describe source name

/-- The same sources, made to answer so. -/
def imposedOn (answers : Answers) (backend : Backend σ) : Backend σ where
  list source world :=
    let (answer, world) := backend.list source world
    ({ answer with names := answers.list source }, world)
  describe source name world :=
    (answers.describe source name, (backend.describe source name world).2)
  openTable := backend.openTable

end Answers

namespace Backend

/-- The same sources with a record of what they are asked. -/
def recording (backend : Backend σ) : Backend (σ × List Exchange) where
  list source world :=
    let (answer, rest) := backend.list source world.1
    (answer, rest, world.2 ++ [.list source answer.names])
  describe source name world :=
    let (answer, rest) := backend.describe source name world.1
    (answer, rest, world.2 ++ [.describe source name answer])
  openTable source name world :=
    let (answer, rest) := backend.openTable source name world.1
    (answer, rest, world.2)

/-- The sources answer so in every state of their world. -/
structure Gives (backend : Backend σ) (answers : Answers) : Prop where
  list : ∀ source world, (backend.list source world).1.names = answers.list source
  describe : ∀ source name world,
    (backend.describe source name world).1 = answers.describe source name

/-- One source answers so while the world is `good`, and the world stays so. -/
structure GivesAt (backend : Backend σ) (answers : Answers) (source : SourceId)
    (good : σ → Prop) : Prop where
  list : ∀ world, good world → (backend.list source world).1.names = answers.list source ∧
    good (backend.list source world).2
  describe : ∀ name world, good world →
    (backend.describe source name world).1 = answers.describe source name ∧
      good (backend.describe source name world).2

theorem Gives.givesAt {backend : Backend σ} {answers : Answers} (h : backend.Gives answers)
    (source : SourceId) : backend.GivesAt answers source fun _ => True :=
  ⟨fun world _ => ⟨h.list source world, trivial⟩,
    fun name world _ => ⟨h.describe source name world, trivial⟩⟩

/-- Sources without a world that always answer so. -/
def always (answers : Answers) : Backend Unit where
  list source _ := ({ names := answers.list source }, ())
  describe source name _ := (answers.describe source name, ())
  openTable _ _ _ := (.ok none, ())

theorem gives_always (answers : Answers) : (always answers).Gives answers :=
  ⟨fun _ _ => rfl, fun _ _ _ => rfl⟩

theorem gives_imposedOn (answers : Answers) (backend : Backend σ) :
    (answers.imposedOn backend).Gives answers :=
  ⟨fun _ _ => rfl, fun _ _ _ => rfl⟩

theorem Gives.recording {backend : Backend σ} {answers : Answers} (h : backend.Gives answers) :
    backend.recording.Gives answers :=
  ⟨fun source world => h.list source world.1,
    fun source name world => h.describe source name world.1⟩

/-- Seen through `view`, the one answers as the other does. This need hold only where the other
comes to a world that is `good`; then it has come from one. -/
structure Mimics (copy : Backend τ) (backend : Backend σ) (view : σ → τ) (good : σ → Prop) :
    Prop where
  list : ∀ source world, good (backend.list source world).2 → good world ∧
    copy.list source (view world) =
      ((backend.list source world).1, view (backend.list source world).2)
  describe : ∀ source name world, good (backend.describe source name world).2 → good world ∧
    copy.describe source name (view world) =
      ((backend.describe source name world).1, view (backend.describe source name world).2)

theorem mimics_recording (backend : Backend σ) :
    backend.Mimics backend.recording Prod.fst fun _ => True :=
  ⟨fun _ _ _ => ⟨trivial, rfl⟩, fun _ _ _ _ => ⟨trivial, rfl⟩⟩

/-- Where all answers on record are these, nothing changes when the sources are made to give
them. -/
theorem mimics_imposedOn (answers : Answers) (backend : Backend σ) :
    (answers.imposedOn backend).recording.Mimics backend.recording id
      fun world => ∀ e ∈ world.2, answers.Fits e := by
  constructor
  · intro source world good
    have fits : (backend.list source world.1).1.names = answers.list source :=
      good (.list source _) (by simp [recording])
    refine ⟨fun e he => good e (List.mem_append_left _ he), ?_⟩
    simp [recording, Answers.imposedOn, ← fits]
  · intro source name world good
    have fits : (backend.describe source name world.1).1 = answers.describe source name :=
      good (.describe source name _) (by simp [recording])
    refine ⟨fun e he => good e (List.mem_append_left _ he), ?_⟩
    simp [recording, Answers.imposedOn, ← fits]

/-- A record of sources that answer so fits unless it has not fitted from the start on. -/
theorem mimics_unfit {backend : Backend σ} {answers : Answers} (gives : backend.Gives answers) :
    backend.recording.Mimics backend.recording (fun world => world)
      fun world => ¬ ∀ e ∈ world.2, answers.Fits e := by
  have longer {record : List Exchange} {last : Exchange} (fits : ∀ e ∈ record, answers.Fits e)
      (answered : answers.Fits last) : ∀ e ∈ record ++ [last], answers.Fits e :=
    List.forall_mem_append.mpr ⟨fits, List.forall_mem_singleton.mpr answered⟩
  constructor
  · intro source world unfit
    have answered : answers.Fits (.list source _) := gives.list source world.1
    exact ⟨fun fits => unfit (longer fits answered), rfl⟩
  · intro source name world unfit
    have answered : answers.Fits (.describe source name _) := gives.describe source name world.1
    exact ⟨fun fits => unfit (longer fits answered), rfl⟩

end Backend

namespace Federation

/-- What becomes of a federation when a source has described a table. -/
def settle (f : Federation σ) (n : Node) (listed : String)
    (answer : Except CatalogError (Option Table)) (sources : σ) :
    Except CatalogError Table × Federation σ :=
  match answer with
  | .error e => (.error e, { f with sources })
  | .ok none => (.error (.tableNotFound (Text.lowercase listed)), { f with sources })
  | .ok (some t) =>
    (.ok (n.adopt listed t),
      { f with sources }.modify n.id (·.register (Text.lowercase listed) n.id (n.adopt listed t)))

theorem loadListed_of_no_source (backend : Backend σ) (f : Federation σ) {n : Node}
    (hsource : n.source = none) (listed : String) : f.loadListed backend n listed =
      (.error (.sourceNotFound (Text.lowercase listed)), f) := by
  unfold loadListed
  rw [hsource]

theorem loadListed_eq (backend : Backend σ) (f : Federation σ) {n : Node} {source : SourceId}
    (hsource : n.source = some source) (listed : String) : f.loadListed backend n listed =
      f.settle n listed (backend.describe source listed f.sources).1
        (backend.describe source listed f.sources).2 := by
  unfold loadListed
  simp only [hsource]
  generalize backend.describe source listed f.sources = answer
  obtain ⟨⟨⟩ | ⟨_ | _⟩, _⟩ := answer <;> rfl

theorem sources_settle (f : Federation σ) (n : Node) (listed : String)
    (answer : Except CatalogError (Option Table)) (sources : σ) :
    (f.settle n listed answer sources).2.sources = sources := by
  unfold settle
  split <;> rfl

/-- The report of a table that is about to be loaded. -/
def announce (f : Federation σ) (n : Node) (listed : String) : Federation σ :=
  f.log .debug s!"schema {Text.quoted n.name} loading table {Text.quoted listed}"

/-- The report of a table that could not be loaded. -/
def report (n : Node) (listed : String) :
    Except CatalogError Table × Federation σ → Federation σ
  | (.ok _, f) => f
  | (.error e, f) =>
    f.log .error
      (s!"could not load table {Text.quoted listed} into schema {Text.quoted n.name}: " ++
        e.message)

section Equations

variable (backend : Backend σ) {f : Federation σ} {id : NodeId} {n : Node} {listed : String}

theorem loadNew_of_passed (h : ¬ ∃ n, f.catalog.node? id = some n ∧
      n.knows (Text.lowercase listed) = false ∧ n.allows (Text.lowercase listed) = true) :
    loadNew backend id f listed = f := by
  unfold loadNew
  split
  · rfl
  · rename_i n found
    simp only
    split
    · rfl
    · rename_i new
      exact absurd ⟨n, found, by simpa using new⟩ h

theorem loadNew_eq (found : f.catalog.node? id = some n)
    (unknown : n.knows (Text.lowercase listed) = false)
    (allowed : n.allows (Text.lowercase listed) = true) :
    loadNew backend id f listed =
      report n listed ((f.announce n listed).loadListed backend n listed) := by
  unfold loadNew
  simp only [found, unknown, allowed]
  rfl

theorem loadOwn_of_no_source (hsource : n.source = none) : f.loadOwn backend n = f := by
  unfold loadOwn
  rw [hsource]

theorem loadOwn_eq {source : SourceId} (hsource : n.source = some source) :
    f.loadOwn backend n =
      (f.listing backend source).1.foldl (loadNew backend n.id) (f.listing backend source).2 := by
  unfold loadOwn
  rw [hsource]

theorem visitChild_of_error {walk : Federation σ → NodeId → Option (Federation σ)}
    {entry : String × NodeId} {e : CatalogError} (dead : f.catalog.get entry.2 = .error e) :
    visitChild walk id n f entry = some (f.log .warn
      s!"skipping child {Text.quoted entry.1} of {Text.quoted n.name}: {e.message}") := by
  unfold visitChild
  rw [dead]

theorem visitChild_of_live {walk : Federation σ → NodeId → Option (Federation σ)}
    {entry : String × NodeId} {k : Node} (live : f.catalog.get entry.2 = .ok k) :
    visitChild walk id n f entry = (walk f entry.2).map (·.absorbChild id entry.2) := by
  unfold visitChild
  rw [live]
  cases walk f entry.2 <;> rfl

@[simp] theorem sources_absorbChild (f : Federation σ) (id child : NodeId) :
    (f.absorbChild id child).sources = f.sources := by
  unfold absorbChild
  split <;> rfl

end Equations

/-- The same catalog in a view of the world. -/
def map (view : σ → τ) (f : Federation σ) : Federation τ where
  catalog := f.catalog
  sources := view f.sources

theorem settle_map (view : σ → τ) (f : Federation σ) (n : Node) (listed : String)
    (answer : Except CatalogError (Option Table)) (sources : σ) :
    (f.map view).settle n listed answer (view sources) =
      ((f.settle n listed answer sources).1, (f.settle n listed answer sources).2.map view) := by
  unfold settle
  split <;> rfl

theorem absorbChild_map (view : σ → τ) (f : Federation σ) (id child : NodeId) :
    (f.map view).absorbChild id child = (f.absorbChild id child).map view := by
  have same : (f.map view).catalog.node? child = f.catalog.node? child := rfl
  unfold absorbChild
  rw [same]
  cases f.catalog.node? child <;> rfl

section Mimicry

variable {backend : Backend σ} {copy : Backend τ} {view : σ → τ} {good : σ → Prop}
  (mimics : copy.Mimics backend view good)

theorem visitChild_map {walk : Federation σ → NodeId → Option (Federation σ)}
    {walk' : Federation τ → NodeId → Option (Federation τ)}
    (walks : ∀ {f f' : Federation σ} {id : NodeId}, walk f id = some f' → good f'.sources →
      good f.sources ∧ walk' (f.map view) id = some (f'.map view))
    {id : NodeId} {n : Node} {f f' : Federation σ} {entry : String × NodeId}
    (h : visitChild walk id n f entry = some f') (after : good f'.sources) : good f.sources ∧
      visitChild walk' id n (f.map view) entry = some (f'.map view) := by
  cases live : f.catalog.get entry.2 with
  | error e =>
      rw [visitChild_of_error live] at h
      cases h
      exact ⟨after, visitChild_of_error (f := f.map view) live⟩
  | ok k =>
      rw [visitChild_of_live live] at h
      obtain ⟨g, hg, rfl⟩ := Option.map_eq_some_iff.mp h
      rw [sources_absorbChild] at after
      obtain ⟨before, same⟩ := walks hg after
      refine ⟨before, ?_⟩
      rw [visitChild_of_live (f := f.map view) live, same, Option.map_some, absorbChild_map]

theorem foldlM_map {α : Type} {step : Federation σ → α → Option (Federation σ)}
    {step' : Federation τ → α → Option (Federation τ)}
    (steps : ∀ {f f' : Federation σ} {a : α}, step f a = some f' → good f'.sources →
      good f.sources ∧ step' (f.map view) a = some (f'.map view))
    (l : List α) {f f' : Federation σ} (h : l.foldlM step f = some f') (after : good f'.sources) :
    good f.sources ∧ l.foldlM step' (f.map view) = some (f'.map view) := by
  induction l generalizing f with
  | nil =>
      cases h
      exact ⟨after, rfl⟩
  | cons a l ih =>
      rw [List.foldlM_cons] at h
      obtain ⟨g, hg, h⟩ := Option.bind_eq_some_iff.mp h
      obtain ⟨between, rest⟩ := ih h
      obtain ⟨before, same⟩ := steps hg between
      refine ⟨before, ?_⟩
      rw [List.foldlM_cons, same]
      exact rest

include mimics

theorem listing_map {f : Federation σ} {source : SourceId}
    (h : good (f.listing backend source).2.sources) : good f.sources ∧
      (f.map view).listing copy source =
        ((f.listing backend source).1, (f.listing backend source).2.map view) := by
  obtain ⟨before, same⟩ := mimics.list source f.sources h
  refine ⟨before, ?_⟩
  simp [listing, map, same]

theorem loadListed_map {f : Federation σ} {n : Node} {listed : String}
    (h : good (f.loadListed backend n listed).2.sources) : good f.sources ∧
      (f.map view).loadListed copy n listed =
        ((f.loadListed backend n listed).1, (f.loadListed backend n listed).2.map view) := by
  cases hsource : n.source with
  | none =>
      rw [loadListed_of_no_source _ _ hsource] at h ⊢
      rw [loadListed_of_no_source _ _ hsource]
      exact ⟨h, rfl⟩
  | some source =>
      rw [loadListed_eq _ _ hsource, sources_settle] at h
      obtain ⟨before, same⟩ := mimics.describe source listed f.sources h
      refine ⟨before, ?_⟩
      rw [loadListed_eq _ _ hsource, loadListed_eq _ _ hsource, ← settle_map]
      show (f.map view).settle n listed (copy.describe source listed (view f.sources)).1
        (copy.describe source listed (view f.sources)).2 = _
      rw [same]

theorem loadNew_map {f : Federation σ} {id : NodeId} {listed : String}
    (h : good (loadNew backend id f listed).sources) : good f.sources ∧
      loadNew copy id (f.map view) listed = (loadNew backend id f listed).map view := by
  by_cases new : ∃ n, f.catalog.node? id = some n ∧ n.knows (Text.lowercase listed) = false ∧
      n.allows (Text.lowercase listed) = true
  · obtain ⟨n, found, unknown, allowed⟩ := new
    have found' : (f.map view).catalog.node? id = some n := found
    rw [loadNew_eq backend found unknown allowed] at h ⊢
    rw [loadNew_eq copy found' unknown allowed]
    have asked : good ((f.announce n listed).loadListed backend n listed).2.sources := by
      generalize (f.announce n listed).loadListed backend n listed = answer at h
      obtain ⟨⟨⟩, _⟩ := answer <;> exact h
    obtain ⟨before, same⟩ := loadListed_map mimics asked
    refine ⟨before, ?_⟩
    show report n listed (((f.announce n listed).map view).loadListed copy n listed) = _
    rw [same]
    generalize (f.announce n listed).loadListed backend n listed = answer
    obtain ⟨⟨⟩, _⟩ := answer <;> rfl
  · rw [loadNew_of_passed backend new] at h ⊢
    exact ⟨h, loadNew_of_passed copy new⟩

theorem loadAll_map {id : NodeId} (names : List String) {f : Federation σ}
    (h : good (names.foldl (loadNew backend id) f).sources) : good f.sources ∧
      names.foldl (loadNew copy id) (f.map view) =
        (names.foldl (loadNew backend id) f).map view := by
  induction names generalizing f with
  | nil => exact ⟨h, rfl⟩
  | cons listed names ih =>
      rw [List.foldl_cons] at h
      obtain ⟨after, rest⟩ := ih h
      obtain ⟨before, same⟩ := loadNew_map mimics after
      exact ⟨before, by rw [List.foldl_cons, List.foldl_cons, same, rest]⟩

theorem loadOwn_map {f : Federation σ} {n : Node} (h : good (f.loadOwn backend n).sources) :
    good f.sources ∧ (f.map view).loadOwn copy n = (f.loadOwn backend n).map view := by
  cases hsource : n.source with
  | none =>
      rw [loadOwn_of_no_source backend hsource] at h ⊢
      exact ⟨h, loadOwn_of_no_source copy hsource⟩
  | some source =>
      rw [loadOwn_eq backend hsource] at h ⊢
      obtain ⟨listed, all⟩ := loadAll_map mimics _ h
      obtain ⟨before, same⟩ := listing_map mimics listed
      exact ⟨before, by rw [loadOwn_eq copy hsource, same, all]⟩

theorem refreshWithin_map {now : Instant} {depth : Nat} {held : List NodeId}
    {f f' : Federation σ} {id : NodeId}
    (h : refreshWithin backend now depth held f id = some f') (after : good f'.sources) :
    good f.sources ∧ refreshWithin copy now depth held (f.map view) id = some (f'.map view) := by
  induction depth generalizing held f f' id with
  | zero => cases h
  | succ depth ih =>
      rw [refreshWithin] at h ⊢
      split at h
      · cases h
      rename_i free
      have same : (f.map view).catalog.node? id = f.catalog.node? id := rfl
      rw [if_neg free, same]
      cases found : f.catalog.node? id with
      | none =>
          rw [found] at h
          cases h
          exact ⟨after, rfl⟩
      | some n =>
          rw [found] at h
          obtain ⟨g, hg, h⟩ := Option.bind_eq_some_iff.mp h
          cases h
          obtain ⟨loaded, children⟩ :=
            foldlM_map (visitChild_map fun hwalk => ih hwalk) n.children.entries hg after
          obtain ⟨before, own⟩ := loadOwn_map mimics loaded
          refine ⟨before, Option.bind_eq_some_iff.mpr ⟨g.map view, ?_, rfl⟩⟩
          rw [own, children]

/-- A refresh of the one is a refresh of the other in view. -/
theorem refresh_map {now : Instant} {f f' : Federation σ} {id : NodeId}
    {answer : Except CatalogError Unit} (h : f.refresh backend now id = some (answer, f'))
    (after : good f'.sources) : good f.sources ∧
      (f.map view).refresh copy now id = some (answer, f'.map view) := by
  have same : (f.map view).catalog.get id = f.catalog.get id := rfl
  unfold refresh at h ⊢
  rw [same]
  cases live : f.catalog.get id with
  | error e =>
      rw [live] at h
      cases h
      exact ⟨after, rfl⟩
  | ok n =>
      rw [live] at h
      obtain ⟨g, hg, heq⟩ := Option.map_eq_some_iff.mp h
      cases heq
      obtain ⟨before, same⟩ := refreshWithin_map mimics hg after
      exact ⟨before, Option.map_eq_some_iff.mpr ⟨f'.map view, same, rfl⟩⟩

end Mimicry

section Mimicry

variable {backend : Backend σ} {copy : Backend τ} {view : σ → τ}

theorem foldlM_of_map {α : Type} {step : Federation σ → α → Option (Federation σ)}
    {step' : Federation τ → α → Option (Federation τ)}
    (steps : ∀ {f : Federation σ} {g : Federation τ} {a : α}, step' (f.map view) a = some g →
      ∃ f', step f a = some f' ∧ f'.map view = g)
    (l : List α) {f : Federation σ} {g : Federation τ} (h : l.foldlM step' (f.map view) = some g) :
    ∃ f', l.foldlM step f = some f' ∧ f'.map view = g := by
  induction l generalizing f with
  | nil =>
      cases h
      exact ⟨f, rfl, rfl⟩
  | cons a l ih =>
      rw [List.foldlM_cons] at h
      obtain ⟨_, hstep, h⟩ := Option.bind_eq_some_iff.mp h
      obtain ⟨f₁, hf₁, rfl⟩ := steps hstep
      obtain ⟨f', hf', same⟩ := ih h
      exact ⟨f', by rw [List.foldlM_cons, hf₁]; exact hf', same⟩

theorem visitChild_of_map {walk : Federation σ → NodeId → Option (Federation σ)}
    {walk' : Federation τ → NodeId → Option (Federation τ)}
    (walks : ∀ {f : Federation σ} {g : Federation τ} {id : NodeId},
      walk' (f.map view) id = some g → ∃ f', walk f id = some f' ∧ f'.map view = g)
    {id : NodeId} {n : Node} {f : Federation σ} {g : Federation τ} {entry : String × NodeId}
    (h : visitChild walk' id n (f.map view) entry = some g) :
    ∃ f', visitChild walk id n f entry = some f' ∧ f'.map view = g := by
  cases live : f.catalog.get entry.2 with
  | error e =>
      rw [visitChild_of_error (f := f.map view) live] at h
      cases h
      exact ⟨_, visitChild_of_error live, rfl⟩
  | ok k =>
      rw [visitChild_of_live (f := f.map view) live] at h
      obtain ⟨_, hwalk, rfl⟩ := Option.map_eq_some_iff.mp h
      obtain ⟨f', hf', rfl⟩ := walks hwalk
      exact ⟨_, by rw [visitChild_of_live live, hf', Option.map_some],
        (absorbChild_map view f' id entry.2).symm⟩

variable (mimics : copy.Mimics backend view fun _ => True)

include mimics

theorem refreshWithin_of_map {now : Instant} {depth : Nat} {held : List NodeId}
    {f : Federation σ} {g : Federation τ} {id : NodeId}
    (h : refreshWithin copy now depth held (f.map view) id = some g) :
    ∃ f', refreshWithin backend now depth held f id = some f' ∧ f'.map view = g := by
  induction depth generalizing held f g id with
  | zero => cases h
  | succ depth ih =>
      have same : (f.map view).catalog.node? id = f.catalog.node? id := rfl
      rw [refreshWithin, same] at h
      rw [refreshWithin]
      split at h
      · cases h
      rename_i free
      rw [if_neg free]
      cases found : f.catalog.node? id with
      | none =>
          rw [found] at h
          cases h
          exact ⟨f, rfl, rfl⟩
      | some n =>
          rw [found] at h
          obtain ⟨g', hg', h⟩ := Option.bind_eq_some_iff.mp h
          cases h
          rw [(loadOwn_map mimics trivial).2] at hg'
          obtain ⟨f', hf', rfl⟩ := foldlM_of_map (visitChild_of_map ih) n.children.entries hg'
          exact ⟨_, Option.bind_eq_some_iff.mpr ⟨f', hf', rfl⟩, rfl⟩

theorem refresh_of_map {now : Instant} {f : Federation σ} {g : Federation τ} {id : NodeId}
    {answer : Except CatalogError Unit}
    (h : (f.map view).refresh copy now id = some (answer, g)) :
    ∃ f', f.refresh backend now id = some (answer, f') ∧ f'.map view = g := by
  have same : (f.map view).catalog.get id = f.catalog.get id := rfl
  unfold refresh at h ⊢
  rw [same] at h
  cases live : f.catalog.get id with
  | error e =>
      rw [live] at h
      cases h
      exact ⟨f, rfl, rfl⟩
  | ok n =>
      rw [live] at h
      obtain ⟨_, hg, heq⟩ := Option.map_eq_some_iff.mp h
      cases heq
      obtain ⟨f', hf', rfl⟩ := refreshWithin_of_map mimics hg
      exact ⟨f', Option.map_eq_some_iff.mpr ⟨f', hf', rfl⟩, rfl⟩

end Mimicry

/-! ### Records of a refresh -/

/-- With an empty record. -/
def recorded (f : Federation σ) : Federation (σ × List Exchange) :=
  f.map (·, [])

/-- What the sources are asked during a refresh, and what they answer, in order. -/
def transcript (backend : Backend σ) (now : Instant) (f : Federation σ) (id : NodeId) :
    Option (List Exchange) :=
  (f.recorded.refresh backend.recording now id).map (·.2.sources.2)

variable {backend : Backend σ} {now : Instant} {f : Federation σ} {id : NodeId}
  {answer : Except CatalogError Unit} {g : Federation (σ × List Exchange)}

theorem refresh_of_recorded (h : f.recorded.refresh backend.recording now id = some (answer, g)) :
    f.refresh backend now id = some (answer, g.map Prod.fst) ∧
      f.transcript backend now id = some g.sources.2 := by
  refine ⟨(refresh_map (Backend.mimics_recording backend) h trivial).2, ?_⟩
  rw [transcript, h, Option.map_some]

theorem exists_recorded {f' : Federation σ} (h : f.refresh backend now id = some (answer, f')) :
    ∃ g, f.recorded.refresh backend.recording now id = some (answer, g) ∧ g.map Prod.fst = f' :=
  refresh_of_map (Backend.mimics_recording backend) (f := f.recorded) h

/-- Where all answers on record are these, the refresh is one of sources that give them. -/
theorem refresh_imposed (h : f.recorded.refresh backend.recording now id = some (answer, g))
    {answers : Answers} (fits : ∀ e ∈ g.sources.2, answers.Fits e) :
    f.recorded.refresh (answers.imposedOn backend).recording now id = some (answer, g) :=
  (refresh_map (Backend.mimics_imposedOn answers backend) h fits).2

theorem fits_of_gives {answers : Answers} (gives : backend.Gives answers)
    (h : f.recorded.refresh backend.recording now id = some (answer, g)) :
    ∀ e ∈ g.sources.2, answers.Fits e := by
  by_contra unfit
  exact (refresh_map (Backend.mimics_unfit gives) h unfit).1 nofun

theorem fits_of_transcript {answers : Answers} (gives : backend.Gives answers)
    {record : List Exchange} (h : f.transcript backend now id = some record) :
    ∀ e ∈ record, answers.Fits e := by
  obtain ⟨⟨answer, g⟩, hg, rfl⟩ := Option.map_eq_some_iff.mp h
  exact fits_of_gives gives hg

end Federation

end SchemaCatalog
