import SchemaCatalog.Proofs.Catalog.Discovery

/-!
Refreshing twice. One refresh leaves nothing for the next to add, so the next asks each source for
its list once more, and for descriptions only of what is still not known at the node.
-/

namespace SchemaCatalog

open Relation (ReflTransGen)

/-! ### Questions to a source -/

namespace Answers

/-- What is asked for a node as it is: the list of its source, then each listed table that the node
lets in and does not know. -/
def inquiry (answers : Answers) (n : Node) : List Exchange :=
  match n.source with
  | none => []
  | some source =>
    let new := (answers.list source).filter fun listed =>
      !n.knows (Text.lowercase listed) && n.allows (Text.lowercase listed)
    .list source (answers.list source) ::
      new.map fun listed => .describe source listed (answers.describe source listed)

theorem inquiry_congr {answers : Answers} {n n' : Node} (hbare : n'.bare = n.bare)
    (knows : ∀ name, n'.knows name = n.knows name) : answers.inquiry n' = answers.inquiry n := by
  simp only [inquiry, Node.source_eq_of_bare hbare, Node.allows_eq_of_bare hbare, knows]

end Answers

namespace Catalog

variable {answers : Answers} {c d e : Catalog}

def inquiry (c : Catalog) (answers : Answers) (id : NodeId) : List Exchange :=
  ((c.node? id).map answers.inquiry).getD []

theorem inquiry_of_node? {id : NodeId} {n : Node} (found : c.node? id = some n) :
    c.inquiry answers id = answers.inquiry n := by
  rw [inquiry, found, Option.map_some, Option.getD_some]

/-- All nodes have the same entries. -/
def Alike (c d : Catalog) : Prop :=
  ∀ z name, d.lookup? z name = c.lookup? z name

theorem Alike.knows {id : NodeId} {n n' : Node} (h : Alike c d) (aligned : c.Aligned)
    (aligned' : d.Aligned) (found : c.node? id = some n) (found' : d.node? id = some n')
    (name : String) : n'.knows name = n.knows name := by
  rw [Bool.eq_iff_iff, Node.knows, Node.knows, (aligned' id n' found').knows_iff,
    (aligned id n found).knows_iff, ← lookup?_of_node? found', ← lookup?_of_node? found, h]

/-- Entries are only added, so those that are the same in the end were the same in between. -/
theorem Alike.between {within : NodeId → Prop} (h : Alike c e) (sound : c.Sound)
    (aligned : c.Aligned) (first : Sweeps within c d) (last : Sweeps within d e) : Alike c d := by
  intro z name
  cases held : c.lookup? z name with
  | some entry => exact first.lookup?_kept sound aligned held
  | none =>
      cases held' : d.lookup? z name with
      | none => rfl
      | some entry =>
          have kept := last.lookup?_kept (first.sound sound) (first.aligned aligned) held'
          rw [h, held] at kept
          cases kept

theorem Alike.inquiry (h : Alike c d) (bare : d.bareNodes = c.bareNodes) (aligned : c.Aligned)
    (aligned' : d.Aligned) : d.inquiry answers = c.inquiry answers := by
  funext id
  rcases node?_cases_of_bareNodes bare id with ⟨missing, missing'⟩ | ⟨n, n', found, found', hbare⟩
  · rw [Catalog.inquiry, Catalog.inquiry, missing, missing']
  · rw [inquiry_of_node? found, inquiry_of_node? found']
    exact Answers.inquiry_congr hbare (h.knows aligned aligned' found found')

end Catalog

/-! ### What a walk asks that adds nothing -/

namespace Federation

open Catalog (Sweeps Alike)

variable {σ : Type} {backend : Backend σ} {answers : Answers}

/-- What is on record after a walk from `id`: what was there before, and for each visit to a node
what is asked for the node as it was. -/
def Inquires (answers : Answers) (f f' : Federation (σ × List Exchange)) (id : NodeId) : Prop :=
  ∃ visits : List NodeId, (∀ z ∈ visits, ReflTransGen f.catalog.Lists id z) ∧
    f'.sources.2 = f.sources.2 ++ visits.flatMap (f.catalog.inquiry answers)

section Loading

variable (gives : backend.Gives answers) {f : Federation (σ × List Exchange)} {id : NodeId}
  {m n : Node} {source : SourceId}

include gives

theorem record_loadNew (found : f.catalog.node? id = some n) (hsource : n.source = some source)
    (listed : String) : (loadNew backend.recording id f listed).sources.2 = f.sources.2 ++
      if !n.knows (Text.lowercase listed) && n.allows (Text.lowercase listed) then
        [.describe source listed (answers.describe source listed)] else [] := by
  split
  · rename_i new
    obtain ⟨unknown, allowed⟩ : n.knows (Text.lowercase listed) = false ∧
        n.allows (Text.lowercase listed) = true := by
      simpa using new
    rw [loadNew_eq backend.recording found unknown allowed, sources_report,
      loadListed_eq _ _ hsource, sources_settle]
    show f.sources.2 ++ [.describe source listed (backend.describe source listed f.sources.1).1] = _
    rw [gives.describe]
  · rename_i old
    rw [loadNew_of_passed, List.append_nil]
    rintro ⟨k, hk, unknown, allowed⟩
    rw [found] at hk
    cases hk
    exact old (by rw [unknown, allowed]; rfl)

theorem record_loadAll (found : f.catalog.node? id = some m) (same : m.bare = n.bare)
    (knows : ∀ name, m.knows name = n.knows name) (hsource : n.source = some source)
    (sound : f.catalog.Sound) (aligned : f.catalog.Aligned) (names : List String)
    (alike : Alike f.catalog (names.foldl (loadNew backend.recording id) f).catalog) :
    (names.foldl (loadNew backend.recording id) f).sources.2 = f.sources.2 ++
      (names.filter fun listed =>
        !n.knows (Text.lowercase listed) && n.allows (Text.lowercase listed)).map
          fun listed => .describe source listed (answers.describe source listed) := by
  induction names generalizing f m with
  | nil => simp
  | cons listed names ih =>
      rw [List.foldl_cons] at alike ⊢
      have first : Sweeps (fun _ => True) f.catalog
          (loadNew backend.recording id f listed).catalog :=
        sweeps_loadNew backend.recording trivial f listed
      have between := alike.between sound aligned first
        (sweeps_loadAll backend.recording trivial names _)
      have later : Alike (loadNew backend.recording id f listed).catalog
          (names.foldl (loadNew backend.recording id) _).catalog :=
        fun z name => (alike z name).trans (between z name).symm
      obtain ⟨m', found', hbare⟩ := Catalog.node?_of_bareNodes first.touches.bareNodes.symm found
      have knows' := between.knows aligned (first.aligned aligned) found found'
      rw [ih found' (hbare.trans same) (fun name => (knows' name).trans (knows name))
          (first.sound sound) (first.aligned aligned) later,
        record_loadNew gives found ((Node.source_eq_of_bare same).trans hsource), knows,
        Node.allows_eq_of_bare same, List.filter_cons]
      split <;> simp

theorem record_loadOwn (found : f.catalog.node? id = some n) (own : n.id = id)
    (sound : f.catalog.Sound) (aligned : f.catalog.Aligned)
    (alike : Alike f.catalog (f.loadOwn backend.recording n).catalog) :
    (f.loadOwn backend.recording n).sources.2 = f.sources.2 ++ answers.inquiry n := by
  rw [Answers.inquiry]
  cases hsource : n.source with
  | none => rw [loadOwn_of_no_source _ hsource, List.append_nil]
  | some source =>
      have asked : Sweeps (fun _ => True) f.catalog
          (f.listing backend.recording source).2.catalog :=
        sweeps_listing backend.recording f source
      have found' : (f.listing backend.recording source).2.catalog.node? id = some n := by
        rw [Catalog.node?, nodes_listing]
        exact found
      rw [loadOwn_eq _ hsource, own] at alike ⊢
      have between := alike.between sound aligned asked
        (sweeps_loadAll backend.recording trivial _ _)
      rw [record_loadAll gives found' rfl (fun _ => rfl) hsource (asked.sound sound)
        (asked.aligned aligned) _ fun z name => (alike z name).trans (between z name).symm]
      have names : (f.listing backend.recording source).1 = answers.list source :=
        gives.list source f.sources.1
      have record : (f.listing backend.recording source).2.sources.2 =
          f.sources.2 ++ [.list source (answers.list source)] := by
        rw [← names]
        rfl
      rw [record, names, List.append_assoc]
      rfl

end Loading

/-! ### Walks that add nothing -/

section Walks

variable {f f' g g' : Federation (σ × List Exchange)} {id : NodeId} {n : Node} {now : Instant}

theorem Inquires.visited {child : NodeId} (h : Inquires answers f g id)
    (walked : Inquires answers g g' child) (listed : f.catalog.Lists id child)
    (bare : g.catalog.bareNodes = f.catalog.bareNodes)
    (same : g.catalog.inquiry answers = f.catalog.inquiry answers) : Inquires answers f g' id := by
  obtain ⟨visits, below, record⟩ := h
  obtain ⟨visits', below', record'⟩ := walked
  rw [Catalog.lists_of_bareNodes bare] at below'
  refine ⟨visits ++ visits', fun z hz => ?_, ?_⟩
  · rcases List.mem_append.mp hz with hz | hz
    · exact below z hz
    · exact .head listed (below' z hz)
  · rw [record', record, same, List.flatMap_append, List.append_assoc]

theorem inquires_visitChild
    {walk : Federation (σ × List Exchange) → NodeId → Option (Federation (σ × List Exchange))}
    {entry : String × NodeId} (sound : f.catalog.Sound) (aligned : f.catalog.Aligned)
    (found : f.catalog.node? id = some n) (hentry : entry ∈ n.children.entries)
    (walks : ∀ {g₂}, walk g entry.2 = some g₂ → Sweeps (fun _ => True) g.catalog g₂.catalog ∧
      (Alike g.catalog g₂.catalog → Inquires answers g g₂ entry.2))
    (sofar : Sweeps (fun _ => True) f.catalog g.catalog)
    (earlier : Alike f.catalog g.catalog → Inquires answers f g id)
    (h : visitChild walk id n g entry = some g') (alike : Alike f.catalog g'.catalog) :
    Inquires answers f g' id := by
  cases live : g.catalog.get entry.2 with
  | error e =>
      rw [visitChild_of_error live] at h
      cases h
      exact earlier alike
  | ok k =>
      rw [visitChild_of_live live] at h
      obtain ⟨g₂, hg₂, rfl⟩ := Option.map_eq_some_iff.mp h
      obtain ⟨swept, inquires⟩ := walks hg₂
      have walked : Sweeps (fun _ => True) f.catalog g₂.catalog := sofar.trans swept
      obtain ⟨m, hm, listed⟩ := walked.touches.listed found hentry
      have alike₂ := alike.between sound aligned walked
        (sweeps_absorbChild g₂ trivial hm listed)
      have between := alike₂.between sound aligned sofar swept
      have bare := sofar.touches.bareNodes
      have visited := (earlier between).visited
        (inquires fun z name => (alike₂ z name).trans (between z name).symm)
        ⟨n, entry.1, found, NameMap.get?_eq_some_iff.mpr hentry⟩ bare
        (between.inquiry bare aligned (sofar.aligned aligned))
      rwa [Inquires, sources_absorbChild]

/-- A walk that adds nothing asks at every visit to a node what is asked for it as it was. -/
theorem inquires_refreshWithin (gives : backend.Gives answers) {depth : Nat} {held : List NodeId}
    (sound : f.catalog.Sound) (aligned : f.catalog.Aligned)
    (h : refreshWithin backend.recording now depth held f id = some f')
    (alike : Alike f.catalog f'.catalog) : Inquires answers f f' id := by
  refine refreshWithin_induction (P := fun f f' id => f.catalog.Sound → f.catalog.Aligned →
    Alike f.catalog f'.catalog → Inquires answers f f' id) ?_ ?_ h sound aligned alike
  · intro f id _ _ _ _
    exact ⟨[], nofun, (List.append_nil _).symm⟩
  · intro walk f id n g walks found hg sound aligned alike
    obtain ⟨-, inquires⟩ := children_induction (fun _ _ _ hwalk => (walks _ _ _ hwalk).1) found
      (P := fun _ g => Alike f.catalog g.catalog → Inquires answers f g id)
      (fun alike => by
        refine ⟨[id], fun z hz => List.mem_singleton.mp hz ▸ .refl, ?_⟩
        rw [record_loadOwn gives found (sound.ids id n found) sound aligned alike,
          List.flatMap_singleton, Catalog.inquiry_of_node? found])
      (fun done entry g g' hprefix sofar earlier hvisit _ alike => by
        have hentry : entry ∈ n.children.entries := hprefix.subset (by simp)
        exact inquires_visitChild sound aligned found hentry (fun hwalk => ⟨(walks _ _ _ hwalk).1,
          (walks _ _ _ hwalk).2 (sofar.sound sound) (sofar.aligned aligned)⟩) sofar earlier hvisit
          alike) hg
    exact inquires fun z name => (lookup?_stamp g id now z name).symm.trans (alike z name)

theorem inquires_refresh (gives : backend.Gives answers) {answer : Except CatalogError Unit}
    (sound : f.catalog.Sound) (aligned : f.catalog.Aligned)
    (h : f.refresh backend.recording now id = some (answer, f'))
    (alike : Alike f.catalog f'.catalog) : Inquires answers f f' id := by
  unfold refresh at h
  split at h
  · cases h
    exact ⟨[], nofun, (List.append_nil _).symm⟩
  · obtain ⟨g, hg, heq⟩ := Option.map_eq_some_iff.mp h
    cases heq
    exact inquires_refreshWithin gives sound aligned hg alike

end Walks

end Federation

/-! ### The second of two refreshes -/

namespace Catalog

variable {answers : Answers} {c d e : Catalog} {x : NodeId}

theorem Filled.alike {taken taken' : NodeId → List NodeId}
    (first : Filled answers (fun _ => False) c d [x] taken) (whole : c.Whole [x] taken)
    (acyclic : c.AcyclicBelow x) (second : Filled answers (fun _ => False) d e [x] taken') :
    Alike d e := by
  intro z name
  by_cases below : Reached taken [x] z
  · exact first.settled whole (fun _ _ => not_false) (by simpa using acyclic) second z below name
  · refine second.outside z (fun again => below ?_) not_false name
    obtain ⟨p, hp, hway⟩ := again.below fun a => (second.initial a).subset
    rw [lists_of_bareNodes first.bare] at hway
    exact whole.reached (.root hp) hway

/-- What a refresh from `x` that has nothing to add does: all nodes keep their directories, and
sources are asked at each visit for what the node does not know. -/
structure Unchanged (answers : Answers) (c d : Catalog) (x : NodeId) (record : List Exchange) :
    Prop where
  kept : ∀ z n, c.node? z = some n → ∃ n', d.node? z = some n' ∧ n'.directory = n.directory
  asked : ∃ visits : List NodeId, (∀ z ∈ visits, ReflTransGen c.Lists x z) ∧
    record = visits.flatMap (c.inquiry answers)

theorem Alike.kept (h : Alike c d) (bare : d.bareNodes = c.bareNodes) (aligned : c.Aligned)
    (aligned' : d.Aligned) {z : NodeId} {n : Node} (found : c.node? z = some n) :
    ∃ n', d.node? z = some n' ∧ n'.directory = n.directory := by
  obtain ⟨n', found', -⟩ := node?_of_bareNodes bare.symm found
  exact ⟨n', found', directory_eq_of_lookup? aligned aligned' found found' (h z)⟩

end Catalog

namespace Federation

open Catalog (Alike Unchanged)

variable {σ : Type} {backend : Backend σ} {answers : Answers} {now later : Instant}
  {f : Federation σ} {id : NodeId} {answer : Except CatalogError Unit}
  {g h : Federation (σ × List Exchange)}

/-- A node that is still live after the first refresh has been filled in with all that is below it,
and else the second is refused. -/
theorem alike_of_recorded (sound : f.catalog.Sound) (aligned : f.catalog.Aligned)
    (acyclic : f.catalog.AcyclicBelow id)
    (first : f.recorded.refresh backend.recording now id = some (.ok (), g))
    (second : (g.map Prod.fst).recorded.refresh backend.recording later id = some (answer, h))
    (fits : ∀ e ∈ g.sources.2, answers.Fits e) (fits' : ∀ e ∈ h.sources.2, answers.Fits e) :
    Alike g.catalog h.catalog := by
  cases answer with
  | error e =>
      rw [refresh_of_error later second]
      exact fun _ _ => rfl
  | ok =>
      have touches := touches_refresh backend.recording now first
      have live : g.catalog.isLive id :=
        isLive_of_refresh (f := g.map Prod.fst) (refresh_of_recorded second).1
      obtain ⟨taken, filled, whole⟩ := fills_of_recorded sound aligned acyclic first fits
      obtain ⟨taken', filled', -⟩ := fills_of_recorded (f := g.map Prod.fst)
        (touches.steps.keep Catalog.Step.sound sound)
        (touches.steps.keep Catalog.Step.aligned aligned)
        (acyclic.of_bareNodes touches.bareNodes) second fits'
      exact filled.alike (whole live) acyclic filled'

theorem unchanged_of_recorded (sound : f.catalog.Sound) (aligned : f.catalog.Aligned)
    (refreshed : f.recorded.refresh backend.recording now id = some (answer, g))
    (fits : ∀ e ∈ g.sources.2, answers.Fits e) (alike : Alike f.catalog g.catalog) :
    Unchanged answers f.catalog g.catalog id g.sources.2 := by
  have touches := touches_refresh backend.recording now refreshed
  have aligned' : g.catalog.Aligned := touches.steps.keep Catalog.Step.aligned aligned
  obtain ⟨visits, below, record⟩ := inquires_refresh (Backend.gives_imposedOn answers backend)
    (f := f.recorded) sound aligned (refresh_imposed refreshed fits) alike
  exact ⟨fun z n found => alike.kept touches.bareNodes aligned aligned' found, visits, below,
    record⟩

end Federation

namespace Run

variable {σ : Type} {r : Run σ} {f : Federation σ} {x : NodeId}

/-- Of two refreshes of a live node that leads to no cycle the second adds nothing, if what is on
record of the sources' answers does not change. No table is described that the node knows. -/
theorem refresh_idempotent (visited : r.Visits f) (live : f.catalog.isLive x)
    (acyclic : f.catalog.AcyclicBelow x) (backend : Backend σ) (now later : Instant) :
    ∃ f₁ record₁ answer f₂ record₂, f.refresh backend now x = some (.ok (), f₁) ∧
      f.transcript backend now x = some record₁ ∧
      f₁.refresh backend later x = some (answer, f₂) ∧
      f₁.transcript backend later x = some record₂ ∧
      ∀ answers : Answers, (∀ e ∈ record₁ ++ record₂, answers.Fits e) →
        Catalog.Unchanged answers f₁.catalog f₂.catalog x record₂ := by
  have sound := Run.sound visited
  have aligned := Run.aligned visited
  obtain ⟨answer, g, hg⟩ :=
    Federation.exists_refresh backend.recording now (f := f.recorded) acyclic
  obtain rfl := Federation.answer_of_live (f := f.recorded) live hg
  have touches := Federation.touches_refresh backend.recording now hg
  have acyclic' : g.catalog.AcyclicBelow x := acyclic.of_bareNodes touches.bareNodes
  obtain ⟨answer, h, hh⟩ := Federation.exists_refresh backend.recording later
    (f := (g.map Prod.fst).recorded) acyclic'
  obtain ⟨first, record₁⟩ := Federation.refresh_of_recorded hg
  obtain ⟨second, record₂⟩ := Federation.refresh_of_recorded hh
  refine ⟨_, _, _, _, _, first, record₁, second, record₂, fun answers fits => ?_⟩
  obtain ⟨fits₁, fits₂⟩ := List.forall_mem_append.mp fits
  exact Federation.unchanged_of_recorded (f := g.map Prod.fst)
    (touches.steps.keep Catalog.Step.sound sound) (touches.steps.keep Catalog.Step.aligned aligned)
    hh fits₂ (Federation.alike_of_recorded sound aligned acyclic hg hh fits₁ fits₂)

/-- Of what was not described before only the table that is not known is asked for again. -/
theorem refresh_idempotent_mixed : ∃ f f₁ f₂ record, mixed.Visits f ∧ f.catalog.isLive ⟨0⟩ ∧
    f.catalog.AcyclicBelow ⟨0⟩ ∧ f.refresh mixed.backend ⟨0, 0⟩ ⟨0⟩ = some (.ok (), f₁) ∧
    f₁.refresh mixed.backend ⟨1, 0⟩ ⟨0⟩ = some (.ok (), f₂) ∧
    f₁.transcript mixed.backend ⟨1, 0⟩ ⟨0⟩ = some record ∧
    Catalog.Unchanged mixedAnswers f₁.catalog f₂.catalog ⟨0⟩ record ∧ record.length = 4 := by
  obtain ⟨f, hf, live, acyclic⟩ := mixed_ends
  have visited : mixed.Visits f := ⟨_, List.prefix_rfl, hf⟩
  have computed : ((mixed.after mixed.operations).bind fun f =>
      (f.refresh mixed.backend ⟨0, 0⟩ ⟨0⟩).map fun answer =>
        (answer.2.catalog.isLive ⟨0⟩,
          (answer.2.transcript mixed.backend ⟨1, 0⟩ ⟨0⟩).map List.length)) =
      some (true, some 4) := by
    decide +kernel
  obtain ⟨f₁, record₁, answer, f₂, record₂, first, recorded₁, second, recorded₂, unchanged⟩ :=
    refresh_idempotent visited live acyclic mixed.backend ⟨0, 0⟩ ⟨1, 0⟩
  have gives := Backend.gives_always mixedAnswers
  have fits : ∀ e ∈ record₁ ++ record₂, mixedAnswers.Fits e :=
    List.forall_mem_append.mpr ⟨Federation.fits_of_transcript gives recorded₁,
      Federation.fits_of_transcript gives recorded₂⟩
  rw [hf, Option.bind_some, first, Option.map_some, recorded₂] at computed
  obtain ⟨live₁, length⟩ := Prod.mk.injEq .. ▸ Option.some.inj computed
  obtain rfl := Federation.answer_of_live live₁ second
  exact ⟨f, f₁, f₂, record₂, visited, live, acyclic, first, second, recorded₂, unchanged _ fits,
    Option.some.inj length⟩

end Run

end SchemaCatalog
