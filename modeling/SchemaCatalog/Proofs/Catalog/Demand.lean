import SchemaCatalog.Proofs.Catalog.Later
import SchemaCatalog.Proofs.Catalog.Supply
import SchemaCatalog.Proofs.Resolution

/-!
Loading on demand. A name that a node does not resolve is described by the node's own source, under
the spelling that the source lists if it differs in the case of ASCII letters only. What is
described is indexed under the name that was asked for without its schema, so that the name resolves
from then on and the source is not asked again.
-/

namespace SchemaCatalog

/-! ### Spellings -/

/-- How a source that has listed some names is asked for a name. -/
def listedSpelling (names : List String) (name : String) : String :=
  (names.find? (Text.sameAsciiCase · name)).getD name

section Spelling

variable {names : List String} {name : String}

theorem listedSpelling_cases (names : List String) (name : String) :
    (listedSpelling names name ∈ names ∧ Text.sameAsciiCase (listedSpelling names name) name) ∨
      listedSpelling names name = name ∧ ∀ listed ∈ names, ¬ Text.sameAsciiCase listed name := by
  unfold listedSpelling
  cases found : names.find? (Text.sameAsciiCase · name) with
  | some listed =>
      have same := List.find?_some found
      exact .inl ⟨List.mem_of_find?_eq_some found, same⟩
  | none => exact .inr ⟨rfl, fun listed mem => List.find?_eq_none.mp found listed mem⟩

theorem lowercase_listedSpelling (lower : Text.lowercase name = name) :
    Text.lowercase (listedSpelling names name) = name := by
  rcases listedSpelling_cases names name with ⟨-, same⟩ | ⟨heq, -⟩
  · exact ((Text.sameAsciiCase_iff_lowercase_eq lower).mp same).1
  · rw [heq, lower]

/-- A source is asked by a spelling of its own when lowercasing one of those that it lists for the
name changes ASCII letters alone. -/
theorem listedSpelling_mem_iff (lower : Text.lowercase name = name) :
    listedSpelling names name ∈ names ↔
      ∃ listed ∈ names, Text.lowercase listed = name ∧ Text.AsciiCased listed := by
  have meets {listed : String} := Text.sameAsciiCase_iff_lowercase_eq (s := listed) lower
  constructor
  · intro mem
    rcases listedSpelling_cases names name with ⟨-, same⟩ | ⟨heq, -⟩
    · exact ⟨_, mem, meets.mp same⟩
    · rw [heq] at mem
      exact ⟨name, mem, meets.mp (Text.sameAsciiCase_refl name)⟩
  · rintro ⟨listed, mem, spelled⟩
    rcases listedSpelling_cases names name with ⟨mem', -⟩ | ⟨-, absent⟩
    · exact mem'
    · exact absurd (meets.mpr spelled) (absent listed mem)

end Spelling

/-- The source describes the spellings that it lists and no others. -/
def Answers.DescribesListed (answers : Answers) (source : SourceId) : Prop :=
  ∀ spelling, (∃ t, answers.describe source spelling = .ok (some t)) ↔
    spelling ∈ answers.list source

/-! ### One node -/

namespace Node

variable {n : Node} {name : String}

/-- What a node can do about a name that it is asked to load. -/
inductive Access (n : Node) (name : String) : Prop where
  | resolved {t : Table} (found : n.table name = .ok t)
  | barred {e : CatalogError} (missed : n.table name = .error e)
      (barred : n.allows (plainName name) = false)
  | unsourced {e : CatalogError} (missed : n.table name = .error e)
      (allowed : n.allows (plainName name) = true) (hsource : n.source = none)
  | asked {e : CatalogError} (missed : n.table name = .error e)
      (allowed : n.allows (plainName name) = true) (source : SourceId)
      (hsource : n.source = some source)

theorem access (n : Node) (name : String) : n.Access name := by
  cases missed : n.table name with
  | ok t => exact .resolved missed
  | error e =>
      cases allowed : n.allows (plainName name) with
      | false => exact .barred missed allowed
      | true =>
          cases hsource : n.source with
          | none => exact .unsourced missed allowed hsource
          | some source => exact .asked missed allowed source hsource

/-- What a node makes of its source's answer to a spelling. -/
def take (n : Node) (listed : String) :
    Except CatalogError (Option Table) → Except CatalogError Table
  | .error e => .error e
  | .ok none => .error (.tableNotFound (Text.lowercase listed))
  | .ok (some t) => .ok (n.adopt listed t)

/-- The node after a name has been loaded on demand: a table that it did not resolve is its own
now. -/
def keep (n : Node) (name : String) (answer : Except CatalogError Table) : Node :=
  match n.table name, answer with
  | .error _, .ok t => n.register (plainName name) n.id t
  | _, _ => n

/-- What is on record when a name is loaded on demand, and the answer to the caller. -/
inductive Demand (n : Node) (name : String) :
    List Exchange → Except CatalogError Table → Prop where
  | resolved {t : Table} (found : n.table name = .ok t) : Demand n name [] (.ok t)
  | barred {e : CatalogError} (missed : n.table name = .error e)
      (barred : n.allows (plainName name) = false) :
      Demand n name [] (.error (.tableNotFound (plainName name)))
  | unsourced {e : CatalogError} (missed : n.table name = .error e)
      (allowed : n.allows (plainName name) = true) (hsource : n.source = none) :
      Demand n name [] (.error (.sourceNotFound (plainName name)))
  | asked {e : CatalogError} {source : SourceId} (missed : n.table name = .error e)
      (allowed : n.allows (plainName name) = true) (hsource : n.source = some source)
      (names : List String) (described : Except CatalogError (Option Table))
      {answer : Except CatalogError Table}
      (taken : n.take (listedSpelling names (plainName name)) described = answer) :
      Demand n name
        [.list source names, .describe source (listedSpelling names (plainName name)) described]
        answer

theorem keep_of_resolved {t : Table} (h : n.table name = .ok t)
    (answer : Except CatalogError Table) : n.keep name answer = n := by
  unfold keep
  rw [h]

theorem keep_of_error (e : CatalogError) : n.keep name (.error e) = n := by
  unfold keep
  cases n.table name <;> rfl

theorem keep_of_missed {e : CatalogError} (h : n.table name = .error e) (t : Table) :
    n.keep name (.ok t) = n.register (plainName name) n.id t := by
  unfold keep
  rw [h]

theorem take_eq_ok_iff {listed : String} {described : Except CatalogError (Option Table)} :
    (∃ t, n.take listed described = .ok t) ↔ ∃ t, described = .ok (some t) := by
  rcases described with e | _ | t <;> simp [take]

theorem table_keep {record : List Exchange} {t : Table} (h : n.Demand name record (.ok t)) :
    (n.keep name (.ok t)).table name = .ok t := by
  cases missed : n.table name with
  | ok t' =>
      rw [keep_of_resolved missed, missed]
      cases h with
      | resolved found => exact missed.symm.trans found
      | asked missed' =>
          rw [missed] at missed'
          cases missed'
  | error e =>
      obtain ⟨absent, -⟩ := not_indexed_of_error missed
      rw [keep_of_missed missed, table_eq_ok_iff]
      by_cases plain : Text.lowercase name = plainName name
      · refine .given ?_
        rw [plain]
        exact NameMap.get?_insert_self ..
      · refine .plain ?_ (NameMap.get?_insert_self ..)
        exact (NameMap.get?_insert_ne _ _ plain).trans absent

/-- How a node is after a name has been loaded on demand and a table has come out. It has resolved
the name before, or it has one entry more, which is its own. -/
structure Cached (n n' : Node) (name : String) (t : Table) : Prop where
  entry : n.table name = .ok t ∧ n' = n ∨
    n.knows (plainName name) = false ∧ n' = n.register (plainName name) n.id t
  others : ∀ key, key ≠ plainName name → n'.directory.lookup? key = n.directory.lookup? key
  resolves : n'.table name = .ok t

theorem cached_keep {record : List Exchange} {t : Table} (h : n.Demand name record (.ok t)) :
    n.Cached (n.keep name (.ok t)) name t := by
  have resolves := table_keep h
  cases missed : n.table name with
  | ok t' =>
      rw [keep_of_resolved missed] at resolves ⊢
      exact ⟨.inl ⟨resolves, rfl⟩, fun _ _ => rfl, resolves⟩
  | error e =>
      obtain ⟨-, absent⟩ := not_indexed_of_error missed
      rw [keep_of_missed missed] at resolves ⊢
      refine ⟨.inr ⟨?_, rfl⟩, fun key other => ?_, resolves⟩
      · rw [knows, Directory.knows, NameMap.contains, absent, Option.isSome_none]
      · rw [register, Directory.lookup?_register, if_neg other]

theorem Demand.answer_of_failed {record : List Exchange} {answer : Except CatalogError Table}
    (h : n.Demand name record answer) {source : SourceId} {spelling : String} {e : CatalogError}
    (failed : .describe source spelling (.error e) ∈ record) : answer = .error e := by
  cases h with
  | resolved | barred | unsourced => cases failed
  | asked missed allowed hsource names described taken =>
      simp only [List.mem_cons, List.not_mem_nil, or_false, reduceCtorEq, false_or,
        Exchange.describe.injEq] at failed
      rw [← taken, ← failed.2.2]
      rfl

end Node

/-! ### What loading on demand does -/

theorem Catalog.node?_eq_ite {c : Catalog} {id : NodeId} {n : Node} (found : c.node? id = some n)
    (x : NodeId) : c.node? x = if x = id then some n else c.node? x := by
  split
  · rename_i same
    rw [same, found]
  · rfl

namespace Federation

variable {σ : Type} {f : Federation σ} {id : NodeId} {n : Node} {name : String}

theorem settle_answer (f : Federation σ) (n : Node) (listed : String)
    (described : Except CatalogError (Option Table)) (sources : σ) :
    (f.settle n listed described sources).1 = n.take listed described := by
  rcases described with e | _ | t <;> rfl

theorem node?_settle (found : f.catalog.node? id = some n) (own : n.id = id) (listed : String)
    (described : Except CatalogError (Option Table)) (sources : σ) (x : NodeId) :
    (f.settle n listed described sources).2.catalog.node? x =
      if x = id then
        match n.take listed described with
        | .ok t => some (n.register (Text.lowercase listed) n.id t)
        | .error _ => some n
      else f.catalog.node? x := by
  rcases described with e | _ | t
  · exact Catalog.node?_eq_ite found x
  · exact Catalog.node?_eq_ite found x
  · show (f.catalog.modify n.id _).node? x = _
    by_cases same : x = id
    · rw [same, if_pos rfl, own, Catalog.node?_modify_self, found]
      rfl
    · rw [if_neg same, own, Catalog.node?_modify_of_ne same]

section Equations

variable (found : f.catalog.node? id = some n) (backend : Backend σ)

include found

theorem loadTable_of_resolved {t : Table} (resolved : n.table name = .ok t) :
    f.loadTable backend id name = (.ok t, f) := by
  simp only [loadTable, found, resolved]

variable {e : CatalogError} (missed : n.table name = .error e)

include missed

theorem loadTable_of_barred (barred : n.allows (Node.plainName name) = false) :
    f.loadTable backend id name = (.error (.tableNotFound (Node.plainName name)), f) := by
  simp only [loadTable, found, missed, barred]
  rfl

variable (allowed : n.allows (Node.plainName name) = true)

include allowed

theorem loadTable_of_unsourced (hsource : n.source = none) :
    f.loadTable backend id name = (.error (.sourceNotFound (Node.plainName name)), f) := by
  simp only [loadTable, found, missed, allowed, listedName, hsource, if_true]
  rw [loadListed_of_no_source backend f hsource, Node.lowercase_plainName]

theorem loadTable_eq {source : SourceId} (hsource : n.source = some source) :
    f.loadTable backend id name =
      let (names, f') := f.listing backend source
      let spelling := listedSpelling names (Node.plainName name)
      f'.settle n spelling (backend.describe source spelling f'.sources).1
        (backend.describe source spelling f'.sources).2 := by
  simp only [loadTable, found, missed, allowed, listedName, hsource, if_true]
  exact loadListed_eq backend _ hsource _

end Equations

/-- What the source of a node is asked while a name is loaded on demand, and what it answers, in
order. -/
def demandRecord (backend : Backend σ) (f : Federation σ) (id : NodeId) (name : String) :
    List Exchange :=
  (f.recorded.loadTable backend.recording id name).2.sources.2

/-- What a node that is asked to load a name puts on record, and what it answers. -/
theorem demand_loadTable (found : f.catalog.node? id = some n) (backend : Backend σ)
    (name : String) :
    n.Demand name (f.demandRecord backend id name) (f.loadTable backend id name).1 := by
  have found' : f.recorded.catalog.node? id = some n := found
  unfold demandRecord
  cases n.access name with
  | resolved resolved =>
      rw [loadTable_of_resolved found backend resolved,
        loadTable_of_resolved found' backend.recording resolved]
      exact .resolved resolved
  | barred missed barred =>
      rw [loadTable_of_barred found backend missed barred,
        loadTable_of_barred found' backend.recording missed barred]
      exact .barred missed barred
  | unsourced missed allowed hsource =>
      rw [loadTable_of_unsourced found backend missed allowed hsource,
        loadTable_of_unsourced found' backend.recording missed allowed hsource]
      exact .unsourced missed allowed hsource
  | asked missed allowed source hsource =>
      rw [loadTable_eq found backend missed allowed hsource,
        loadTable_eq found' backend.recording missed allowed hsource]
      simp only [settle_answer, sources_settle]
      exact .asked missed allowed hsource _ _ rfl

/-- Loading on demand changes no other node, and the node that is asked keeps what it gets. -/
theorem node?_loadTable (found : f.catalog.node? id = some n) (own : n.id = id)
    (backend : Backend σ) (name : String) (x : NodeId) :
    (f.loadTable backend id name).2.catalog.node? x =
      if x = id then some (n.keep name (f.loadTable backend id name).1)
      else f.catalog.node? x := by
  cases n.access name with
  | resolved resolved =>
      rw [loadTable_of_resolved found backend resolved, Node.keep_of_resolved resolved]
      exact Catalog.node?_eq_ite found x
  | barred missed barred =>
      rw [loadTable_of_barred found backend missed barred, Node.keep_of_error]
      exact Catalog.node?_eq_ite found x
  | unsourced missed allowed hsource =>
      rw [loadTable_of_unsourced found backend missed allowed hsource, Node.keep_of_error]
      exact Catalog.node?_eq_ite found x
  | asked missed allowed source hsource =>
      have nodes := nodes_listing backend f source
      have listed : (f.listing backend source).2.catalog.node? id = some n := by
        rw [Catalog.node?, nodes]
        exact found
      rw [loadTable_eq found backend missed allowed hsource]
      simp only [settle_answer]
      rw [node?_settle listed own, lowercase_listedSpelling (Node.lowercase_plainName name)]
      cases taken : n.take _ _ with
      | error e => rw [Node.keep_of_error, Catalog.node?, nodes, Catalog.node?]
      | ok t => rw [Node.keep_of_missed missed, Catalog.node?, nodes, Catalog.node?]

theorem demand_of_gives {backend : Backend σ} {answers : Answers} {good : σ → Prop}
    {source : SourceId} (found : f.catalog.node? id = some n) (hsource : n.source = some source)
    (gives : backend.GivesAt answers source good) (start : good f.sources)
    (allowed : n.allows (Node.plainName name) = true) {e : CatalogError}
    (missed : n.table name = .error e) {spelling : String}
    (asks : listedSpelling (answers.list source) (Node.plainName name) = spelling) :
    f.demandRecord backend id name = [.list source (answers.list source),
        .describe source spelling (answers.describe source spelling)] ∧
      (f.loadTable backend id name).1 = n.take spelling (answers.describe source spelling) := by
  have found' : f.recorded.catalog.node? id = some n := found
  obtain ⟨names, asked⟩ := gives.list f.sources start
  have names' : (f.listing backend source).1 = answers.list source := names
  have described := (gives.describe spelling (f.listing backend source).2.sources asked).1
  constructor
  · rw [demandRecord, loadTable_eq found' backend.recording missed allowed hsource]
    simp only [sources_settle]
    show [Exchange.list source (f.listing backend source).1, .describe source
      (listedSpelling (f.listing backend source).1 (Node.plainName name))
      (backend.describe source (listedSpelling (f.listing backend source).1 (Node.plainName name))
        (f.listing backend source).2.sources).1] = _
    rw [names', asks, described]
  · rw [loadTable_eq found backend missed allowed hsource]
    simp only [settle_answer]
    rw [names', asks, described]

/-- Loading a name on demand leaves a node that answers the same from then on. An entry that comes
in is owned by the node and is in the way of no other; as long as the index stays so, the table is
the answer in all later states, and no source is asked again. -/
structure Coheres (backend : Backend σ) (f : Federation σ) (id : NodeId) (name : String)
    (n n' : Node) : Prop where
  found : (f.loadTable backend id name).2.catalog.node? id = some n'
  alone : ∀ other, other ≠ id →
    (f.loadTable backend id name).2.catalog.node? other = f.catalog.node? other
  cached : ∀ t, (f.loadTable backend id name).1 = .ok t → n.Cached n' name t
  later : ∀ t, (f.loadTable backend id name).1 = .ok t → ∀ {τ : Type} (g : Federation τ)
    (backend' : Backend τ) (m : Node),
    Catalog.Later (f.loadTable backend id name).2.catalog g.catalog →
    g.catalog.node? id = some m → m.directory = n'.directory →
      m.table name = .ok t ∧ g.loadTable backend' id name = (.ok t, g) ∧
        g.demandRecord backend' id name = []
  failed : ∀ e, (f.loadTable backend id name).1 = .error e → n' = n
  verbatim : ∀ source spelling e,
    .describe source spelling (.error e) ∈ f.demandRecord backend id name →
      (f.loadTable backend id name).1 = .error e

theorem demandRecord_of_resolved (found : f.catalog.node? id = some n) (backend : Backend σ)
    {t : Table} (resolved : n.table name = .ok t) : f.demandRecord backend id name = [] := by
  have found' : f.recorded.catalog.node? id = some n := found
  rw [demandRecord, loadTable_of_resolved found' backend.recording resolved]
  rfl

/-- The index of a node is a coherent cache of what the node has loaded on demand, whatever the
sources answer. -/
theorem loadTable_coheres (found : f.catalog.node? id = some n) (own : n.id = id)
    (backend : Backend σ) (name : String) : ∃ n', Coheres backend f id name n n' := by
  have demand := demand_loadTable found backend name
  have nodes := node?_loadTable found own backend name
  have after := nodes id
  rw [if_pos rfl] at after
  refine ⟨_, after, fun other apart => ?_, fun t answer => ?_, fun t answer τ g backend' m later
    found' same => ?_, fun e answer => ?_, fun source spelling e => demand.answer_of_failed⟩
  · rw [nodes, if_neg apart]
  · rw [answer] at demand ⊢
    exact Node.cached_keep demand
  · obtain ⟨m', found'', origin⟩ := later.kept id _ after
    rw [found'] at found''
    cases found''
    have resolved : m.table name = .ok t := by
      rw [answer] at demand same origin
      rw [Node.table_congr (Node.config_eq_of_origin origin) same, Node.table_keep demand]
    exact ⟨resolved, loadTable_of_resolved found' backend' resolved,
      demandRecord_of_resolved found' backend' resolved⟩
  · rw [answer, Node.keep_of_error]

/-- While its answers do not change, a source is asked for a name without a dot by a spelling that
it lists exactly when lowercasing one of those that it lists for the name changes ASCII letters
alone. A source that describes only what it lists describes the table in this case and in no
other. -/
theorem asked_as_listed_iff {backend : Backend σ} {answers : Answers} {good : σ → Prop}
    {source : SourceId} (found : f.catalog.node? id = some n) (hsource : n.source = some source)
    (gives : backend.GivesAt answers source good) (start : good f.sources) {given : String}
    (undivided : '.' ∉ given.toList) (allowed : n.allows (Text.lowercase given) = true)
    (same : Text.lowercase name = Text.lowercase given) {e : CatalogError}
    (missed : n.table name = .error e) :
    ∃ spelling, Text.lowercase spelling = Text.lowercase name ∧
      f.demandRecord backend id name = [.list source (answers.list source),
        .describe source spelling (answers.describe source spelling)] ∧
      (spelling ∈ answers.list source ↔ ∃ listed ∈ answers.list source,
        Text.lowercase listed = Text.lowercase name ∧ Text.AsciiCased listed) ∧
      (answers.DescribesListed source →
        ((∃ t, (f.loadTable backend id name).1 = .ok t) ↔ ∃ listed ∈ answers.list source,
          Text.lowercase listed = Text.lowercase name ∧ Text.AsciiCased listed)) := by
  have plain : Node.plainName name = Text.lowercase name := by
    rw [Node.plainName_congr same, Node.plainName_of_no_dot undivided, same]
  have lower := Text.lowercase_lowercase name
  have allowed' : n.allows (Node.plainName name) = true := by rwa [plain, same]
  have spelled : listedSpelling (answers.list source) (Text.lowercase name) ∈
      answers.list source ↔ _ := listedSpelling_mem_iff lower
  obtain ⟨record, answer⟩ := demand_of_gives found hsource gives start allowed' missed rfl
  rw [plain] at record answer
  refine ⟨_, lowercase_listedSpelling lower, record, spelled, fun exact_source => ?_⟩
  rw [← spelled, ← exact_source, answer, Node.take_eq_ok_iff]

end Federation

namespace Run

/-- A source that describes the spellings that it lists and no others. -/
def listedAnswers (names : List String) : Answers where
  list _ := names
  describe _ name := if name ∈ names then .ok (some (.new name)) else .ok none

theorem listedAnswers_describesListed (names : List String) (source : SourceId) :
    (listedAnswers names).DescribesListed source := by
  intro spelling
  simp only [listedAnswers]
  by_cases listed : spelling ∈ names <;> simp [listed]

/-- A node with such a source. -/
def counter (names : List String) : Run Unit where
  backend := .always (listedAnswers names)
  sources := ()
  operations := [.create "sales" (some ⟨0⟩)]

/-- The spellings by which the sources have been asked to describe a table. -/
def spellings (record : List Exchange) : List String :=
  record.filterMap fun
    | .list _ _ => none
    | .describe _ spelling _ => some spelling

theorem loadTable_coheres_orders : ∃ f n n' t, (counter ["Orders"]).Visits f ∧
    f.catalog.node? ⟨0⟩ = some n ∧ n.id = ⟨0⟩ ∧
    (f.loadTable (counter ["Orders"]).backend ⟨0⟩ "Sales.ORDERS").1 = .ok t ∧
    t.originalName = "Orders" ∧ n.tables = [] ∧ n'.tables = ["orders"] ∧
    f.Coheres (counter ["Orders"]).backend ⟨0⟩ "Sales.ORDERS" n n' := by
  have computed : ((counter ["Orders"]).after (counter ["Orders"]).operations).bind (fun f =>
      (f.catalog.node? ⟨0⟩).map fun n =>
        let loaded := f.loadTable (counter ["Orders"]).backend ⟨0⟩ "Sales.ORDERS"
        (n.id, n.tables, loaded.1.toOption.map (·.originalName),
          (loaded.2.catalog.node? ⟨0⟩).map (·.tables))) =
      some (⟨0⟩, [], some "Orders", some ["orders"]) := by
    decide +kernel
  obtain ⟨f, hf, hfound⟩ := Option.bind_eq_some_iff.mp computed
  obtain ⟨n, found, hparts⟩ := Option.map_eq_some_iff.mp hfound
  simp only [Prod.mk.injEq] at hparts
  obtain ⟨own, before, answer, after⟩ := hparts
  obtain ⟨t, loaded, original⟩ := exists_ok_of_toOption answer
  obtain ⟨n', coheres⟩ := Federation.loadTable_coheres found own
    (counter ["Orders"]).backend "Sales.ORDERS"
  rw [coheres.found, Option.map_some, Option.some.injEq] at after
  exact ⟨f, n, n', t, ⟨_, List.prefix_rfl, hf⟩, found, own, loaded, original, before, after,
    coheres⟩

theorem counter_unasked (names : List String) (name : String) : ∃ f n e,
    (counter names).Visits f ∧ f.catalog.node? ⟨0⟩ = some n ∧ n.source = some ⟨0⟩ ∧
      n.allows (Text.lowercase name) = true ∧ n.table name = .error e :=
  ⟨_, _, _, ⟨_, List.prefix_rfl, rfl⟩, rfl, rfl, rfl, rfl⟩

theorem asked_as_listed_iff_orders : ∃ f n e, (counter ["Orders"]).Visits f ∧
    f.catalog.node? ⟨0⟩ = some n ∧ n.source = some ⟨0⟩ ∧ '.' ∉ "Orders".toList ∧
    n.allows (Text.lowercase "Orders") = true ∧
    Text.lowercase "ORDERS" = Text.lowercase "Orders" ∧ n.table "ORDERS" = .error e ∧
    ∃ t, (f.loadTable (counter ["Orders"]).backend ⟨0⟩ "ORDERS").1 = .ok t := by
  obtain ⟨f, n, e, visited, found, source, allowed, missed⟩ := counter_unasked ["Orders"] "ORDERS"
  have same : Text.lowercase "ORDERS" = Text.lowercase "Orders" := by decide +kernel
  have undivided : '.' ∉ "Orders".toList := by decide +kernel
  have cased : Text.AsciiCased "Orders" := by decide +kernel
  rw [same] at allowed
  obtain ⟨spelling, -, -, -, answers⟩ := Federation.asked_as_listed_iff found source
    ((Backend.gives_always (listedAnswers ["Orders"])).givesAt ⟨0⟩) trivial undivided allowed same
    missed
  have loaded := (answers (listedAnswers_describesListed _ _)).mpr
    ⟨"Orders", List.mem_singleton_self _, same.symm, cased⟩
  exact ⟨f, n, e, visited, found, source, undivided, allowed, same, missed, loaded⟩

/-- A capital letter beyond ASCII. Asked for its own spelling, the node asks the source for another,
which the source does not list. -/
theorem counter_asks_otherwise : ∃ f n e, (counter ["É"]).Visits f ∧
    f.catalog.node? ⟨0⟩ = some n ∧ n.source = some ⟨0⟩ ∧ '.' ∉ "É".toList ∧
    n.allows (Text.lowercase "É") = true ∧ n.table "É" = .error e ∧
    spellings (f.demandRecord (counter ["É"]).backend ⟨0⟩ "É") = ["é"] ∧ "é" ∉ ["É"] ∧
    (f.loadTable (counter ["É"]).backend ⟨0⟩ "É").1 = .error (.tableNotFound "é") := by
  obtain ⟨f, n, e, visited, found, source, allowed, missed⟩ := counter_unasked ["É"] "É"
  have plain : Text.lowercase "É" = Node.plainName "É" := by decide +kernel
  have settled : Text.lowercase "é" = "é" := by decide +kernel
  have asks : listedSpelling ["É"] (Node.plainName "É") = "é" := by decide +kernel
  have unlisted : "é" ∉ ["É"] := by decide +kernel
  have unknown : (listedAnswers ["É"]).describe ⟨0⟩ "é" = .ok none := by
    simp only [listedAnswers, if_neg unlisted]
  obtain ⟨record, answer⟩ := Federation.demand_of_gives found source
    ((Backend.gives_always (listedAnswers ["É"])).givesAt ⟨0⟩) trivial (plain ▸ allowed) missed asks
  refine ⟨f, n, e, visited, found, source, by decide +kernel, allowed, missed, ?_, unlisted, ?_⟩
  · rw [counter, record]
    rfl
  · rw [counter, answer, unknown, Node.take, settled]

end Run

end SchemaCatalog
