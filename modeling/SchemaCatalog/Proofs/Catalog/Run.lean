import Mathlib.Data.List.Induction
import SchemaCatalog.Catalog.Open
import SchemaCatalog.Proofs.Catalog.Action

/-!
Runs of a catalog: any operations in any order, with sources that may answer differently each time
they are asked. What every step keeps and every attachment keeps holds in all states of all runs.
-/

namespace SchemaCatalog

open Catalog (Step Steps Attached)

variable {σ : Type}

theorem exists_ok_of_toOption {ε α β : Type} {x : Except ε α} {g : α → β} {b : β}
    (h : x.toOption.map g = some b) : ∃ a, x = .ok a ∧ g a = b := by
  cases x with
  | error e => cases h
  | ok a => exact ⟨a, rfl, Option.some.inj h⟩

/-! ### Operations -/

/-- What a caller can ask of a catalog. The world of the sources may also change by itself. -/
inductive Operation (σ : Type) where
  | create (name : String) (source : Option SourceId)
  | createWithConfig (config : SourceConfig) (source : Option SourceId)
  | attach (parent child : NodeId)
  | addTable (id : NodeId) (t : Table)
  | loadTable (id : NodeId) (name : String)
  | refresh (now : Instant) (id : NodeId)
  | drop (id : NodeId) (name : String)
  | build (registry : Registry σ) (now : Instant) (config : CatalogConfig)
  | apply (now : Instant) (command : Command)
  | schemaForTable (id : NodeId) (name : String)
  | openTable (id : NodeId) (name : String)
  | shutdown
  | change (world : σ → σ)

namespace Operation

/-- What an operation leaves behind, whatever it answers; `none` if it waits for ever. -/
def perform (backend : Backend σ) (f : Federation σ) : Operation σ → Option (Federation σ)
  | create name source => some { f with catalog := (f.catalog.create name source).2 }
  | createWithConfig config source =>
    some { f with catalog := (f.catalog.createWithConfig config source).2 }
  | attach parent child => some { f with catalog := (f.catalog.attach parent child).2 }
  | addTable id t => some { f with catalog := f.catalog.addTable id t }
  | loadTable id name => some (f.loadTable backend id name).2
  | refresh now id => (f.refresh backend now id).map (·.2)
  | drop id name => some { f with catalog := (f.catalog.drop id name).2 }
  | build registry now config => (registry.buildSchemas backend now config f).map (·.2)
  | apply now command => (command.apply backend now f).map (·.2)
  | schemaForTable id name => some { f with catalog := (f.catalog.schemaForTable id name).2 }
  | openTable id name => some (f.openTable backend id name).2
  | shutdown => some { f with catalog := f.catalog.shutdown }
  | change world => some { f with sources := world f.sources }

/-- The operation is an attachment, and the catalog carries it out. -/
def Attaches (op : Operation σ) (c : Catalog) (parent child : NodeId) : Prop :=
  op = .attach parent child ∧ (c.attach parent child).1 = .ok ()

theorem steps_schemaForTable (c : Catalog) (id : NodeId) (name : String) :
    Steps c (c.schemaForTable id name).2 := by
  unfold Catalog.schemaForTable
  simp only
  split
  · exact .refl
  · split
    · exact .refl
    · split
      · exact .refl
      · exact .single (.touch
          (.log (by simp [LogEntry.isAttachment, toString, List.isPrefixOf])))

theorem catalog_openTable (backend : Backend σ) (f : Federation σ) (id : NodeId) (name : String) :
    (f.openTable backend id name).2.catalog = f.catalog := by
  unfold Federation.openTable
  simp only
  split
  · rfl
  · split <;> rfl

theorem steps_of_perform {backend : Backend σ} {f f' : Federation σ} {op : Operation σ}
    (other : ∀ parent child, op ≠ .attach parent child) (h : op.perform backend f = some f') :
    Steps f.catalog f'.catalog := by
  cases op with
  | attach parent child => exact absurd rfl (other parent child)
  | create name source =>
      cases h
      exact .single (.create name none source)
  | createWithConfig config source =>
      cases h
      exact .single (.create config.name (some config) source)
  | addTable id t =>
      cases h
      exact .single (.touch (.addTable id t))
  | loadTable id name =>
      cases h
      exact (Federation.touches_loadTable backend f id name).steps
  | refresh now id =>
      obtain ⟨answer, hanswer, rfl⟩ := Option.map_eq_some_iff.mp h
      exact (Federation.touches_refresh backend now hanswer).steps
  | drop id name =>
      cases h
      exact .single (.touch (.drop id name))
  | build registry now config =>
      obtain ⟨answer, hanswer, rfl⟩ := Option.map_eq_some_iff.mp h
      exact (Action.Stepwise.buildSchemas registry backend now config).steps trivial hanswer
  | apply now command =>
      obtain ⟨answer, hanswer, rfl⟩ := Option.map_eq_some_iff.mp h
      exact (Action.Stepwise.apply backend now command).steps trivial hanswer
  | schemaForTable id name =>
      cases h
      exact steps_schemaForTable f.catalog id name
  | openTable id name =>
      cases h
      rw [catalog_openTable]
  | shutdown =>
      cases h
      exact .single (.touch .shutdown)
  | change world =>
      cases h
      exact .refl

/-- An operation carries out an attachment, or it takes steps. -/
theorem perform_cases {backend : Backend σ} {f f' : Federation σ} {op : Operation σ}
    (h : op.perform backend f = some f') :
    (∃ parent child m n, op.Attaches f.catalog parent child ∧
      Attached f.catalog parent child m n f'.catalog) ∨
    Steps f.catalog f'.catalog ∧ ∀ parent child, ¬ op.Attaches f.catalog parent child := by
  by_cases hop : ∃ parent child, op = .attach parent child
  · obtain ⟨parent, child, rfl⟩ := hop
    cases h
    by_cases accepted : (f.catalog.attach parent child).1 = .ok ()
    · obtain ⟨m, n, attached⟩ := Catalog.attached_of_ok accepted
      exact .inl ⟨parent, child, m, n, ⟨rfl, accepted⟩, attached⟩
    · refine .inr ⟨?_, ?_⟩
      · rw [Catalog.attach_of_error accepted]
      · rintro p q ⟨heq, haccepted⟩
        cases heq
        exact accepted haccepted
  · have other : ∀ parent child, op ≠ .attach parent child :=
      fun parent child heq => hop ⟨parent, child, heq⟩
    exact .inr ⟨steps_of_perform other h, fun parent child hattaches => other _ _ hattaches.1⟩

/-- Only a cycle of child links makes an operation wait for ever. -/
theorem exists_perform (op : Operation σ) (backend : Backend σ) {f : Federation σ}
    (acyclic : f.catalog.Acyclic) : ∃ f', op.perform backend f = some f' := by
  cases op with
  | refresh now id =>
      obtain ⟨r, f', h⟩ := Federation.exists_refresh backend now (acyclic.below id)
      exact ⟨f', by rw [perform, h]; rfl⟩
  | build registry now config =>
      obtain ⟨r, f', h⟩ :=
        (Action.Stepwise.buildSchemas registry backend now config).ends trivial acyclic
      exact ⟨f', by rw [perform, h]; rfl⟩
  | apply now command =>
      obtain ⟨r, f', h⟩ := (Action.Stepwise.apply backend now command).ends trivial acyclic
      exact ⟨f', by rw [perform, h]; rfl⟩
  | _ => exact ⟨_, rfl⟩

end Operation

/-! ### Runs -/

/-- A run of operations on an empty catalog. -/
structure Run (σ : Type) where
  backend : Backend σ
  window : Millis := defaultWindow
  sources : σ
  operations : List (Operation σ)

namespace Run

/-- Sources that list nothing. -/
def silent : Backend Unit where
  list _ _ := ({ names := [] }, ())
  describe _ _ _ := (.ok none, ())
  openTable _ _ _ := (.ok none, ())

variable (r : Run σ)

def start : Federation σ where
  catalog := { window := r.window }
  sources := r.sources

/-- The state after some operations; `none` once one of them waits for ever. -/
def after (operations : List (Operation σ)) : Option (Federation σ) :=
  operations.foldlM (Operation.perform r.backend) r.start

/-- The run passes through a state between two operations, or starts or ends there. -/
def Visits (f : Federation σ) : Prop :=
  ∃ done, done <+: r.operations ∧ r.after done = some f

/-- The run comes to a state and performs an operation there. -/
def Performs (f : Federation σ) (op : Operation σ) : Prop :=
  ∃ done, done ++ [op] <+: r.operations ∧ r.after done = some f

variable {r}

theorem after_concat {done : List (Operation σ)} {op : Operation σ} {f : Federation σ} :
    r.after (done ++ [op]) = some f ↔
      ∃ g, r.after done = some g ∧ op.perform r.backend g = some f := by
  simp [after, List.foldlM_append, Option.bind_eq_some_iff]

theorem Performs.visits {f : Federation σ} {op : Operation σ} (h : r.Performs f op) :
    r.Visits f := by
  obtain ⟨done, hprefix, hdone⟩ := h
  exact ⟨done, (List.prefix_append done [op]).trans hprefix, hdone⟩

theorem Performs.visits_next {f f' : Federation σ} {op : Operation σ} (h : r.Performs f op)
    (hop : op.perform r.backend f = some f') : r.Visits f' := by
  obtain ⟨done, hprefix, hdone⟩ := h
  exact ⟨done ++ [op], hprefix, after_concat.mpr ⟨f, hdone, hop⟩⟩

theorem Performs.place {f : Federation σ} {op : Operation σ} (h : r.Performs f op) :
    ∃ i, r.operations[i]? = some op ∧ r.after (r.operations.take i) = some f := by
  obtain ⟨done, ⟨rest, heq⟩, hdone⟩ := h
  refine ⟨done.length, ?_, ?_⟩
  · rw [← heq, List.append_assoc, List.getElem?_append_right (Nat.le_refl _), Nat.sub_self]
    rfl
  · rw [← heq, List.append_assoc, List.take_left]
    exact hdone

theorem visits_induction {P : Federation σ → Prop} (start : P r.start)
    (next : ∀ f op f', r.Performs f op → op.perform r.backend f = some f' → P f → P f')
    {f : Federation σ} (h : r.Visits f) : P f := by
  obtain ⟨done, hprefix, hdone⟩ := h
  induction done using List.reverseRecOn generalizing f with
  | nil =>
      cases hdone
      exact start
  | append_singleton done op ih =>
      obtain ⟨g, hg, hop⟩ := after_concat.mp hdone
      exact next g op f ⟨done, hprefix, hg⟩ hop
        (ih ((List.prefix_append done [op]).trans hprefix) hg)

/-- What an empty catalog satisfies and every step and attachment keeps holds throughout. -/
theorem invariant {I : Catalog → Prop} (empty : ∀ window, I { window })
    (step : ∀ {c d : Catalog}, Step c d → I c → I d)
    (attach : ∀ {c d : Catalog} {p q : NodeId} {m n : Node}, Attached c p q m n d → I c → I d)
    {f : Federation σ} (h : r.Visits f) : I f.catalog := by
  refine visits_induction (P := fun f => I f.catalog) (empty r.window) ?_ h
  intro f op f' _ hop hf
  rcases Operation.perform_cases hop with ⟨p, q, m, n, -, attached⟩ | ⟨hsteps, -⟩
  · exact attach attached hf
  · exact hsteps.keep step hf

end Run

end SchemaCatalog
