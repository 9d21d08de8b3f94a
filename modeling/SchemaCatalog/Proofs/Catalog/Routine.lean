import SchemaCatalog.Proofs.Catalog.Outcome
import SchemaCatalog.Proofs.Catalog.Run
import SchemaCatalog.Proofs.Catalog.Transcript
import SchemaCatalog.Proofs.Resolution

/-!
Where tables enter a catalog. A caller may register one under any name; everything else that a
catalog goes through names the tables itself, and an invariant that only the callers can break is
kept by every other operation.
-/

namespace SchemaCatalog

open Catalog (Sweeps Attached)

variable {σ : Type} {I : Catalog → Prop}

/-! ### What operations are made of -/

/-- Kept by all that happens to a catalog besides tables that are added by hand. A table that a node
loads is one that its source describes. -/
structure Catalog.Routine (backend : Backend σ) (I : Catalog → Prop) : Prop where
  log : ∀ {c : Catalog} {level : Level} {message : String},
    (LogEntry.mk level message).isAttachment = false → I c → I (c.log level message)
  shutdown : ∀ {c : Catalog}, I c → I c.shutdown
  describe : ∀ {c : Catalog} {id : NodeId} {n : Node} {source : SourceId} {listed : String}
    {t : Table} {world : σ}, c.node? id = some n → n.source = some source →
      n.allows (Text.lowercase listed) →
      (backend.describe source listed world).1 = .ok (some t) → I c →
        I (c.modify n.id (·.register (Text.lowercase listed) n.id (n.adopt listed t)))
  absorb : ∀ {c : Catalog} {id child : NodeId} {m n : Node} {name : String},
    c.node? id = some m → m.children.get? name = some child → c.node? child = some n → I c →
      I (c.modify id (·.absorb n))
  stamp : ∀ {c : Catalog} (id : NodeId) (now : Instant), I c → I (c.modify id (·.stamp now))
  drop : ∀ {c : Catalog} (id : NodeId) (name : String), I c → I (c.drop id name).2
  create : ∀ {c : Catalog} (name : String) (config : Option SourceConfig)
    (source : Option SourceId), I c → I (c.insertNode name config source).2
  attach : ∀ {c d : Catalog} {p q : NodeId} {m n : Node}, Attached c p q m n d → I c → I d

namespace Catalog.Routine

open Federation (visitChild refreshWithin)

variable {backend : Backend σ} (keeps : Routine backend I) {f f' : Federation σ} {id : NodeId}
  {n : Node} {listed : String}

include keeps

theorem attach_any {c : Catalog} (parent child : NodeId) (hc : I c) :
    I (c.attach parent child).2 := by
  by_cases accepted : (c.attach parent child).1 = .ok ()
  · obtain ⟨m, n, attached⟩ := attached_of_ok accepted
    exact keeps.attach attached hc
  · rw [attach_of_error accepted]
    exact hc

/-! A refresh keeps what its parts keep. -/

theorem listing (source : SourceId) (hf : I f.catalog) :
    I (f.listing backend source).2.catalog := by
  simp only [Federation.listing]
  split
  · exact keeps.shutdown hf
  · exact hf

theorem loadListed (found : f.catalog.node? id = some n)
    (allowed : n.allows (Text.lowercase listed)) (hf : I f.catalog) :
    I (f.loadListed backend n listed).2.catalog := by
  cases hsource : n.source with
  | none =>
      rw [Federation.loadListed_of_no_source backend f hsource]
      exact hf
  | some source =>
      rw [Federation.loadListed_eq backend f hsource]
      cases answer : (backend.describe source listed f.sources).1 with
      | error e => exact hf
      | ok described =>
          cases described with
          | none => exact hf
          | some t => exact keeps.describe found hsource allowed answer hf

theorem loadNew (listed : String) (hf : I f.catalog) :
    I (Federation.loadNew backend id f listed).catalog := by
  by_cases new : ∃ n, f.catalog.node? id = some n ∧ n.knows (Text.lowercase listed) = false ∧
      n.allows (Text.lowercase listed) = true
  · obtain ⟨n, found, unknown, allowed⟩ := new
    have announced : I (f.announce n listed).catalog :=
      keeps.log (by simp [LogEntry.isAttachment, toString, List.isPrefixOf]) hf
    have loaded := keeps.loadListed (f := f.announce n listed) found allowed announced
    rw [Federation.loadNew_eq backend found unknown allowed]
    generalize (f.announce n listed).loadListed backend n listed = answer at loaded
    obtain ⟨⟨⟩, _⟩ := answer
    · exact keeps.log (by simp [LogEntry.isAttachment, toString, List.isPrefixOf]) loaded
    · exact loaded
  · rw [Federation.loadNew_of_passed backend new]
    exact hf

theorem loadOwn (n : Node) (hf : I f.catalog) : I (f.loadOwn backend n).catalog := by
  cases hsource : n.source with
  | none =>
      rw [Federation.loadOwn_of_no_source backend hsource]
      exact hf
  | some source =>
      rw [Federation.loadOwn_eq backend hsource]
      exact List.foldlRecOn (motive := fun g : Federation σ => I g.catalog) _ _
        (keeps.listing source hf) fun _ hg listed _ => keeps.loadNew listed hg

theorem visitChild {walk : Federation σ → NodeId → Option (Federation σ)}
    (walks : ∀ {g g' : Federation σ} {child : NodeId}, walk g child = some g' →
      Sweeps (fun _ => True) g.catalog g'.catalog ∧ (I g.catalog → I g'.catalog))
    {entry : String × NodeId} {m : Node} (found : f.catalog.node? id = some m)
    (listed : entry ∈ m.children.entries) (h : visitChild walk id n f entry = some f')
    (hf : I f.catalog) : I f'.catalog := by
  cases live : f.catalog.get entry.2 with
  | error e =>
      rw [Federation.visitChild_of_error live] at h
      cases h
      exact keeps.log (by simp [LogEntry.isAttachment, toString, List.isPrefixOf]) hf
  | ok k =>
      rw [Federation.visitChild_of_live live] at h
      obtain ⟨g, hwalk, rfl⟩ := Option.map_eq_some_iff.mp h
      obtain ⟨sweeps, kept⟩ := walks hwalk
      obtain ⟨m', hm', hlisted⟩ := sweeps.touches.listed found listed
      unfold Federation.absorbChild
      split
      · rename_i below
        exact keeps.absorb hm' hlisted below (kept hf)
      · exact kept hf

theorem refreshWithin {now : Instant} {depth : Nat} {held : List NodeId}
    (h : refreshWithin backend now depth held f id = some f') (hf : I f.catalog) :
    I f'.catalog := by
  refine Federation.refreshWithin_induction (P := fun f f' _ => I f.catalog → I f'.catalog)
    (fun _ _ _ => fun hf => hf) ?_ h hf
  intro walk f id n g walks found hg hf
  refine keeps.stamp id now (Federation.children_induction (P := fun _ g => I g.catalog)
    (fun g g' child hwalk => (walks g g' child hwalk).1) found (keeps.loadOwn n hf) ?_ hg).2
  intro done entry g g' hprefix sofar hkept hvisit _
  have hentry : entry ∈ n.children.entries := hprefix.subset (by simp)
  obtain ⟨m, hm, hlisted⟩ := sofar.touches.listed found hentry
  exact keeps.visitChild (fun hwalk => walks _ _ _ hwalk) hm
    (NameMap.get?_eq_some_iff.mp hlisted) hvisit hkept

theorem refresh {now : Instant} {answer : Except CatalogError Unit}
    (h : f.refresh backend now id = some (answer, f')) (hf : I f.catalog) : I f'.catalog := by
  unfold Federation.refresh at h
  split at h
  · cases h
    exact hf
  · obtain ⟨g, hg, heq⟩ := Option.map_eq_some_iff.mp h
    cases heq
    exact keeps.refreshWithin hg hf

theorem loadTable (id : NodeId) (name : String) (hf : I f.catalog) :
    I (f.loadTable backend id name).2.catalog := by
  unfold Federation.loadTable
  split
  · exact hf
  rename_i n found
  split
  · exact hf
  simp only
  split
  · rename_i allowed
    obtain ⟨-, same, spelled⟩ := Federation.listedName_spec backend f n (Node.plainName name)
    have listed : I (f.listedName backend n (Node.plainName name)).2.catalog := by
      unfold Federation.listedName
      split
      · exact hf
      · exact keeps.listing _ hf
    have found' : (f.listedName backend n (Node.plainName name)).2.catalog.node? id = some n := by
      rw [Catalog.node?, same]
      exact found
    rw [← Node.lowercase_spelled spelled] at allowed
    exact keeps.loadListed found' allowed listed
  · exact hf

end Catalog.Routine

/-! ### Builds and commands -/

namespace Action.Leaves

open Catalog (Routine)

variable {backend : Backend σ} (keeps : Routine backend I)

include keeps

theorem createAny (name : String) (config : Option SourceConfig) (source : Option SourceId) :
    Leaves I (Action.ofCatalog fun c => (.ok (c.insertNode name config source).1,
      (c.insertNode name config source).2) : Action σ NodeId) (fun _ => I) I :=
  ofChange fun _ hc => keeps.create name config source hc

theorem attachAny (parent child : NodeId) :
    Leaves I (Action.attach parent child : Action σ Unit) (fun _ => I) I :=
  ofCatalog (fun _ _ hc _ => keeps.attach_any parent child hc)
    fun _ _ hc _ => keeps.attach_any parent child hc

theorem refreshAny (now : Instant) (id : NodeId) :
    Leaves I (Action.refresh backend now id) (fun _ => I) I where
  holds hc h := keeps.refresh h hc
  fails hc h := keeps.refresh h hc

theorem dropAny (id : NodeId) (name : String) :
    Leaves I (Action.drop id name : Action σ Table) (fun _ => I) I :=
  ofCatalog (fun _ _ hc _ => keeps.drop id name hc) fun _ _ hc _ => keeps.drop id name hc

theorem buildSource_maintains (r : Registry σ) (now : Instant) (config : CatalogConfig)
    (schema : SchemaConfig) (root : NodeId) (name : String) :
    Leaves I (r.buildSource backend now config schema root name) (fun _ => I) I := by
  unfold Registry.buildSource
  split
  · exact .throw _ fun _ => id
  · rename_i conf _
    refine (ofSources (r.createSource conf) fun _ => id).bind fun source => ?_
    refine (createAny keeps conf.name (some conf) (some source)).bind fun child => ?_
    exact (refreshAny keeps now child).bind fun _ => attachAny keeps root child

theorem buildSchema_maintains {pre : Catalog → Prop} (r : Registry σ) (now : Instant)
    (config : CatalogConfig) (schema : SchemaConfig)
    (creates : ∀ c, pre c → I (c.insertNode schema.name none none).2) :
    Leaves pre (r.buildSchema backend now config schema) (fun _ => I) I := by
  have created : Leaves pre (Action.create schema.name none : Action σ NodeId) (fun _ => I) I :=
    ofChange creates
  refine created.bind fun root => ?_
  refine (forM (buildSource_maintains keeps r now config schema root)).bind fun _ => ?_
  refine (refreshAny keeps now root).bind fun _ => catalog.bind fun c => ?_
  split
  · refine (log fun d hd => keeps.log ?_ hd.2).bind fun _ => .pure fun _ => id
    unfold Registry.builtMessage
    simp [LogEntry.isAttachment, toString, List.isPrefixOf]
  · exact .pure fun _ hd => hd.2

theorem buildSchemas_maintains (r : Registry σ) (now : Instant) (config : CatalogConfig) :
    Leaves I (r.buildSchemas backend now config) (fun _ => I) I :=
  mapM fun schema => buildSchema_maintains keeps r now config schema
    fun _ hc => keeps.create schema.name none none hc

theorem run_maintains (now : Instant) (command : Command) :
    Leaves (fun c => I c ∧ ∀ schema t, command = .addTable schema t → c.byName? schema = none)
      (command.run backend now) (fun _ => I) I := by
  cases command with
  | createSchema name parent =>
      refine catalog.bind fun c => ?_
      split
      · exact throw (.schemaExists (Text.lowercase name)) fun d hd => hd.2.1
      · refine ((resolveParent parent fun _ => id).mono (fun d hd => hd.2.1) fun _ _ => id).bind
          fun above => (createAny keeps name none none).bind fun child => ?_
        cases above with
        | some above => exact attachAny keeps above child
        | none => exact .pure fun _ => id
  | addTable schema t =>
      refine (resolve schema fun d hd => hd.1).bind fun id => ⟨?_, ?_⟩
      · rintro f f' a ⟨⟨-, missing⟩, n, found, -⟩
        rw [missing schema t rfl] at found
        cases found
      · rintro f f' e ⟨⟨-, missing⟩, n, found, -⟩
        rw [missing schema t rfl] at found
        cases found
  | dropTable schema name =>
      refine (resolve schema fun d hd => hd.1).bind fun id => ?_
      exact ((dropAny keeps id name).map).mono (fun d hd => hd.1.1) fun _ _ h => h
  | refresh schema =>
      refine (resolve schema fun d hd => hd.1).bind fun id => ?_
      exact (refreshAny keeps now id).mono (fun d hd => hd.1.1) fun _ _ h => h

theorem apply_maintains (now : Instant) (command : Command) :
    Leaves (fun c => I c ∧ ∀ schema t, command = .addTable schema t → c.byName? schema = none)
      (command.apply backend now) (fun _ => I) I := by
  refine (log ?_).bind fun _ => run_maintains keeps now command
  rintro c ⟨hc, missing⟩
  exact ⟨keeps.log (by simp [LogEntry.isAttachment, toString, List.isPrefixOf]) hc, missing⟩

end Action.Leaves

/-! ### Operations -/

namespace Operation

/-- The operation registers a table at a node, under the name that the table carries. -/
inductive Adds : Operation σ → Catalog → NodeId → Table → Prop where
  | directly {c : Catalog} {id : NodeId} {n : Node} {t : Table} (found : c.node? id = some n) :
      Adds (.addTable id t) c id t
  | byName {c : Catalog} {now : Instant} {schema : String} {n : Node} {t : Table}
      (found : c.byName? schema = some n) : Adds (.apply now (.addTable schema t)) c n.id t

/-- An operation that registers no table by hand keeps what the other ways of tables keep. -/
theorem maintains {backend : Backend σ} (keeps : Catalog.Routine backend I)
    {f f' : Federation σ} {op : Operation σ} (unaided : ∀ id t, ¬ op.Adds f.catalog id t)
    (h : op.perform backend f = some f') (hf : I f.catalog) : I f'.catalog := by
  cases op with
  | create name source =>
      cases h
      exact keeps.create name none source hf
  | createWithConfig config source =>
      cases h
      exact keeps.create config.name (some config) source hf
  | attach parent child =>
      cases h
      exact keeps.attach_any parent child hf
  | addTable id t =>
      cases h
      have missing : f.catalog.node? id = none := by
        cases found : f.catalog.node? id with
        | none => rfl
        | some n => exact absurd (.directly found) (unaided id t)
      show I (f.catalog.addTable id t)
      rw [Catalog.addTable, missing]
      exact hf
  | loadTable id name =>
      cases h
      exact keeps.loadTable id name hf
  | refresh now id =>
      obtain ⟨answer, hanswer, rfl⟩ := Option.map_eq_some_iff.mp h
      exact keeps.refresh hanswer hf
  | drop id name =>
      cases h
      exact keeps.drop id name hf
  | build registry now config =>
      obtain ⟨answer, hanswer, rfl⟩ := Option.map_eq_some_iff.mp h
      exact (Action.Leaves.buildSchemas_maintains keeps registry now config).always
        (fun _ _ h => h) (fun _ h => h) hf hanswer
  | apply now command =>
      obtain ⟨answer, hanswer, rfl⟩ := Option.map_eq_some_iff.mp h
      refine (Action.Leaves.apply_maintains keeps now command).always (fun _ _ h => h)
        (fun _ h => h) ⟨hf, ?_⟩ hanswer
      rintro schema t rfl
      cases found : f.catalog.byName? schema with
      | none => rfl
      | some n => exact absurd (.byName found) (unaided n.id t)
  | schemaForTable id name =>
      cases h
      unfold Catalog.schemaForTable
      simp only
      split
      · exact hf
      · split
        · exact hf
        · split
          · exact hf
          · exact keeps.log (by simp [LogEntry.isAttachment, toString, List.isPrefixOf]) hf
  | openTable id name =>
      cases h
      rw [catalog_openTable]
      exact hf
  | shutdown =>
      cases h
      exact keeps.shutdown hf
  | change world =>
      cases h
      exact hf

end Operation

end SchemaCatalog
