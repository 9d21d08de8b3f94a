import SchemaCatalog.Proofs.Catalog.Building

/-!
Which of the tables that a node sees can be opened, and how its source is asked for it. A table is
also found without its schema and by an alias, its owner only by the name as given. The owner then
spells the name as it sees the table itself, which need not be how the caller sees it.
-/

namespace SchemaCatalog

/-- How a source is asked for a table that has been looked up by a name. -/
def Table.spelling (t : Table) (name : String) : String :=
  if t.originalName = "" then name else t.originalName

namespace Directory

variable {d : Directory} {name : String}

theorem Aligned.owner_eq_none (h : d.Aligned) (absent : name ∉ d.names) :
    d.owners.get? name = none := by
  rw [h.owned, NameMap.contains] at absent
  simpa using absent

theorem Aligned.exists_table (h : d.Aligned) (listed : name ∈ d.names) :
    ∃ t, d.tables.get? name = some t :=
  Option.isSome_iff_exists.mp ((h.defined name).mp listed)

theorem Signed.owner_eq (h : d.Signed) {t : Table} (holds : d.tables.get? name = some t) :
    d.owners.get? name = t.schema := by
  obtain ⟨owner, recorded, signed⟩ := h name t holds
  rw [recorded, signed.schema]

end Directory

namespace Catalog

variable {c : Catalog} {id : NodeId} {n m : Node} {name : String}

theorem live?_eq_some_iff : c.live? id = some n ↔ c.get id = .ok n := by
  unfold get
  cases c.live? id <;> simp

theorem liveOwner?_eq_some_iff : c.liveOwner? n name = some m ↔
    ∃ o, n.ownerOf name = some o ∧ c.get o = .ok m ∧ m.hasSource := by
  simp [liveOwner?, Option.bind_eq_some_iff, Option.filter_eq_some_iff, live?_eq_some_iff]

theorem liveOwner?_of_unlisted (aligned : n.directory.Aligned)
    (absent : Text.lowercase name ∉ n.directory.names) :
    c.liveOwner? n (Text.lowercase name) = none := by
  simp [liveOwner?, aligned.owner_eq_none absent]

/-- The owner of a listed table is the one that the table names, as far as it is live and has a
source. -/
theorem liveOwner?_of_holds (signed : n.directory.Signed) {t : Table}
    (holds : n.directory.tables.get? (Text.lowercase name) = some t) :
    c.liveOwner? n (Text.lowercase name) = some m ↔
      ∃ o, t.schema = some o ∧ c.get o = .ok m ∧ m.hasSource := by
  rw [liveOwner?_eq_some_iff, Node.ownerOf_lowercase, signed.owner_eq holds]

theorem table_of_holds (live : c.get id = .ok n) {t : Table}
    (holds : n.directory.tables.get? (Text.lowercase name) = some t) : c.table id name = .ok t := by
  rw [table, live]
  exact Node.table_of_holds holds

/-- The source that an opening asks, and the spelling that it asks for. -/
def openRoute (c : Catalog) (id : NodeId) (name : String) :
    Except CatalogError (SourceId × String) := do
  let n ← c.get id
  match c.liveOwner? n name with
  | none => throw (.sourceNotFound name)
  | some owner =>
    match owner.source with
    | none => throw (.sourceNotFound name)
    | some source => pure (source, Federation.openName owner name)

theorem openRoute_of_no_owner (live : c.get id = .ok n) (none_found : c.liveOwner? n name = none) :
    c.openRoute id name = .error (.sourceNotFound name) := by
  rw [openRoute, live]
  simp only [bind, Except.bind, none_found]
  rfl

theorem openRoute_eq_ok_iff (live : c.get id = .ok n) {source : SourceId} {spelling : String} :
    c.openRoute id name = .ok (source, spelling) ↔ ∃ m, c.liveOwner? n name = some m ∧
      m.source = some source ∧ spelling = Federation.openName m name := by
  rw [openRoute, live]
  simp only [bind, Except.bind]
  cases c.liveOwner? n name with
  | none => simp [throw, throwThe, MonadExceptOf.throw]
  | some m =>
      cases hsource : m.source with
      | none => simp [hsource, throw, throwThe, MonadExceptOf.throw]
      | some s => simp [hsource, pure, Except.pure, eq_comm]

theorem schemaForTable_of_no_owner (live : c.get id = .ok n) (ordinary : n.name ≠ Node.systemName)
    (none_found : c.liveOwner? n (Text.lowercase name) = none) :
    (c.schemaForTable id name).1 = .error (.sourceNotFound (Text.lowercase name)) := by
  simp only [schemaForTable, live, if_neg ordinary, none_found]

theorem schemaForTable_eq_ok_iff (live : c.get id = .ok n) (ordinary : n.name ≠ Node.systemName) :
    (c.schemaForTable id name).1 = .ok m ↔ c.liveOwner? n (Text.lowercase name) = some m := by
  simp only [schemaForTable, live, if_neg ordinary]
  cases c.liveOwner? n (Text.lowercase name) <;> simp

end Catalog

namespace Federation

variable {σ : Type} {f : Federation σ} {id : NodeId} {name : String}

/-- What the caller gets from the answer of the source that was asked. -/
def answered (f : Federation σ) (name : String)
    (answer : Except CatalogError (Option Connection) × σ) :
    Except CatalogError Connection × Federation σ :=
  match answer with
  | (.error e, sources) => (.error e, { f with sources })
  | (.ok none, sources) => (.error (.nilConnection name), { f with sources })
  | (.ok (some connection), sources) => (.ok connection, { f with sources })

theorem openTable_eq (backend : Backend σ) (f : Federation σ) (id : NodeId) (name : String) :
    f.openTable backend id name =
      match f.catalog.openRoute id (Text.lowercase name) with
      | .error e => (.error e, f)
      | .ok (source, spelling) =>
        f.answered (Text.lowercase name) (backend.openTable source spelling f.sources) :=
  rfl

theorem openTable_of_error {e : CatalogError}
    (h : f.catalog.openRoute id (Text.lowercase name) = .error e) (backend : Backend σ) :
    f.openTable backend id name = (.error e, f) := by
  rw [openTable_eq, h]

/-- Opening a table asks a source for a spelling: the caller gets what this source answers to it,
whatever the sources are. -/
def Asks (f : Federation σ) (id : NodeId) (name : String) (source : SourceId) (spelling : String) :
    Prop :=
  ∀ backend : Backend σ, f.openTable backend id name =
    f.answered (Text.lowercase name) (backend.openTable source spelling f.sources)

/-- Sources that answer to a spelling as they are told. -/
def answering (answer : SourceId → String → Option Connection) : Backend σ where
  list _ world := ({ names := [] }, world)
  describe _ _ world := (.ok none, world)
  openTable source spelling world := (.ok (answer source spelling), world)

/-- An opening asks for what its route says, and for nothing if it has none. Sources that connect to
all else than what the route asks for tell the two apart. -/
theorem asks_iff {source : SourceId} {spelling : String} : f.Asks id name source spelling ↔
    f.catalog.openRoute id (Text.lowercase name) = .ok (source, spelling) := by
  constructor
  · intro asks
    cases route : f.catalog.openRoute id (Text.lowercase name) with
    | error e =>
        have connects := asks (answering fun _ given => some ⟨"", given⟩)
        rw [openTable_of_error route] at connects
        cases congrArg Prod.fst connects
    | ok asked =>
        have refuses := asks (answering fun s given =>
          if (s, given) = asked then none else some ⟨"", given⟩)
        simp only [openTable_eq, route, answering, if_pos] at refuses
        split at refuses
        · rename_i same
          rw [same]
        · cases congrArg Prod.fst refuses
  · intro route backend
    rw [openTable_eq, route]

theorem asks_iff_of_live {n : Node} (live : f.catalog.get id = .ok n) {source : SourceId}
    {spelling : String} : f.Asks id name source spelling ↔
      ∃ m, f.catalog.liveOwner? n (Text.lowercase name) = some m ∧ m.source = some source ∧
        spelling = openName m (Text.lowercase name) := by
  rw [asks_iff, Catalog.openRoute_eq_ok_iff live]

/-- An owner is asked for a name as it spells the table that it sees under it. -/
theorem openName_eq_iff {m : Node} {spelling : String} : openName m name = spelling ↔
    (∃ own, m.table name = .ok own ∧ own.spelling name = spelling) ∨
      (∃ e, m.table name = .error e) ∧ name = spelling := by
  unfold openName Table.spelling
  cases m.table name <;> simp

end Federation

namespace Run

variable {σ : Type} {r : Run σ} {f : Federation σ}

/-- A table that resolves and has a live owner with a source is found and opened there exactly when
it is listed under the very name, in lowercase. A name that only resolves without its schema or as
an alias is answered by the catalog itself, which asks no source. -/
theorem resolved_opens_iff (visited : r.Visits f) {id o : NodeId} {n m : Node} {name : String}
    {t : Table} {source : SourceId} (live : f.catalog.get id = .ok n)
    (ordinary : n.name ≠ Node.systemName) (resolved : f.catalog.table id name = .ok t)
    (signed : t.schema = some o) (owner : f.catalog.get o = .ok m)
    (sourced : m.source = some source) :
    (((f.catalog.schemaForTable id name).1 = .ok m ∧ ∃ spelling, f.Asks id name source spelling) ↔
      Text.lowercase name ∈ n.directory.names) ∧
    (Text.lowercase name ∉ n.directory.names →
      (f.catalog.schemaForTable id name).1 = .error (.sourceNotFound (Text.lowercase name)) ∧
      ∀ backend : Backend σ, f.openTable backend id name =
        (.error (.sourceNotFound (Text.lowercase name)), f)) := by
  have found := Catalog.node?_of_get live
  have aligned : n.directory.Aligned := Run.aligned visited id n found
  have missed (absent : Text.lowercase name ∉ n.directory.names) :
      f.catalog.liveOwner? n (Text.lowercase name) = none :=
    Catalog.liveOwner?_of_unlisted aligned absent
  refine ⟨⟨?_, ?_⟩, ?_⟩
  · rintro ⟨answer, -⟩
    by_contra absent
    rw [Catalog.schemaForTable_eq_ok_iff live ordinary, missed absent] at answer
    cases answer
  · intro listed
    obtain ⟨t', holds⟩ := aligned.exists_table listed
    have same : t' = t := Except.ok.inj ((Catalog.table_of_holds live holds).symm.trans resolved)
    have answers : f.catalog.liveOwner? n (Text.lowercase name) = some m := by
      refine (Catalog.liveOwner?_of_holds (Run.signed visited id n found) holds).mpr ?_
      exact ⟨o, same ▸ signed, owner, by rw [Node.hasSource, sourced]; rfl⟩
    exact ⟨(Catalog.schemaForTable_eq_ok_iff live ordinary).mpr answers, _,
      (Federation.asks_iff_of_live live).mpr ⟨m, answers, sourced, rfl⟩⟩
  · intro absent
    exact ⟨Catalog.schemaForTable_of_no_owner live ordinary (missed absent),
      Federation.openTable_of_error (Catalog.openRoute_of_no_owner live (missed absent))⟩

/-- A table of a node with a source, which its parent sees too. -/
def branch : Run Unit where
  backend := silent
  sources := ()
  operations := [.create "main" none, .create "sales" (some ⟨0⟩), .addTable ⟨1⟩ (.new "Orders"),
    .attach ⟨0⟩ ⟨1⟩]

theorem branch_computed : ∃ f n m, branch.Visits f ∧ f.catalog.get ⟨0⟩ = .ok n ∧
    n.name ≠ Node.systemName ∧ n.directory.names = ["orders"] ∧ f.catalog.get ⟨1⟩ = .ok m ∧
    m.source = some ⟨0⟩ ∧
    (∃ t, f.catalog.table ⟨0⟩ "ORDERS" = .ok t ∧ t.schema = some ⟨1⟩) ∧
    ∃ t, f.catalog.table ⟨0⟩ "sales.orders" = .ok t ∧ t.schema = some ⟨1⟩ := by
  have computed : ((branch.after branch.operations).map fun f =>
      ((f.catalog.get ⟨0⟩).toOption.map fun n => (n.name, n.directory.names),
        (f.catalog.get ⟨1⟩).toOption.map (·.source))) =
      some (some ("main", ["orders"]), some (some ⟨0⟩)) := by
    decide +kernel
  have resolved : ((branch.after branch.operations).map fun f =>
      ((f.catalog.table ⟨0⟩ "ORDERS").toOption.map (·.schema),
        (f.catalog.table ⟨0⟩ "sales.orders").toOption.map (·.schema))) =
      some (some (some ⟨1⟩), some (some ⟨1⟩)) := by
    decide +kernel
  obtain ⟨f, hf, hfound⟩ := Option.map_eq_some_iff.mp computed
  rw [hf, Option.map_some] at resolved
  simp only [Prod.mk.injEq, Option.some.injEq] at hfound resolved
  obtain ⟨hmain, hsales⟩ := hfound
  obtain ⟨hplain, hqualified⟩ := resolved
  obtain ⟨n, hn, hmain⟩ := exists_ok_of_toOption hmain
  obtain ⟨hname, hnames⟩ := Prod.mk.injEq .. ▸ hmain
  obtain ⟨m, hm, hsource⟩ := exists_ok_of_toOption hsales
  have ordinary : n.name ≠ Node.systemName := by
    rw [hname]
    decide
  exact ⟨f, n, m, ⟨_, List.prefix_rfl, hf⟩, hn, ordinary, hnames, hm, hsource,
    exists_ok_of_toOption hplain, exists_ok_of_toOption hqualified⟩

theorem resolved_opens_iff_branch : ∃ f n m t, branch.Visits f ∧ f.catalog.get ⟨0⟩ = .ok n ∧
    n.name ≠ Node.systemName ∧ f.catalog.table ⟨0⟩ "ORDERS" = .ok t ∧ t.schema = some ⟨1⟩ ∧
    f.catalog.get ⟨1⟩ = .ok m ∧ m.source = some ⟨0⟩ ∧
    (((f.catalog.schemaForTable ⟨0⟩ "ORDERS").1 = .ok m ∧
        ∃ spelling, f.Asks ⟨0⟩ "ORDERS" ⟨0⟩ spelling) ↔
      Text.lowercase "ORDERS" ∈ n.directory.names) ∧
    (Text.lowercase "ORDERS" ∉ n.directory.names →
      (f.catalog.schemaForTable ⟨0⟩ "ORDERS").1 =
        .error (.sourceNotFound (Text.lowercase "ORDERS")) ∧
      ∀ backend : Backend Unit, f.openTable backend ⟨0⟩ "ORDERS" =
        (.error (.sourceNotFound (Text.lowercase "ORDERS")), f)) := by
  obtain ⟨f, n, m, visited, live, ordinary, -, owner, sourced, ⟨t, resolved, signed⟩, -⟩ :=
    branch_computed
  exact ⟨f, n, m, t, visited, live, ordinary, resolved, signed, owner, sourced,
    resolved_opens_iff visited live ordinary resolved signed owner sourced⟩

/-- With its schema the same table resolves, and neither its owner nor a connection is found. -/
theorem qualified_resolves_unopened : ∃ f n m t, branch.Visits f ∧ f.catalog.get ⟨0⟩ = .ok n ∧
    n.name ≠ Node.systemName ∧ f.catalog.table ⟨0⟩ "sales.orders" = .ok t ∧
    t.schema = some ⟨1⟩ ∧ f.catalog.get ⟨1⟩ = .ok m ∧ m.source = some ⟨0⟩ ∧
    (f.catalog.schemaForTable ⟨0⟩ "sales.orders").1 = .error (.sourceNotFound "sales.orders") ∧
    ∀ backend : Backend Unit, f.openTable backend ⟨0⟩ "sales.orders" =
      (.error (.sourceNotFound "sales.orders"), f) := by
  obtain ⟨f, n, m, visited, live, ordinary, hnames, owner, sourced, -, t, resolved, signed⟩ :=
    branch_computed
  have lower : Text.lowercase "sales.orders" = "sales.orders" := by decide +kernel
  have aligned : n.directory.Aligned := Run.aligned visited ⟨0⟩ n (Catalog.node?_of_get live)
  have missed : f.catalog.liveOwner? n (Text.lowercase "sales.orders") = none := by
    refine Catalog.liveOwner?_of_unlisted aligned ?_
    rw [hnames, lower]
    decide
  have answer := Catalog.schemaForTable_of_no_owner live ordinary missed
  have route := Catalog.openRoute_of_no_owner live missed
  have opened := Federation.openTable_of_error route
  rw [lower] at answer opened
  exact ⟨f, n, m, t, visited, live, ordinary, resolved, signed, owner, sourced, answer, opened⟩

/-- Opening a table that a live node lists asks the source of the node that the table names as its
owner, and no other. A caller that is the owner opens what it sees, and where attachments are made
by the builders only, what is asked for is a table that the owner has as its own. Else the caller
opens what it sees exactly when the owner itself resolves the name to a table of the same spelling,
or to none while the table that the caller sees is spelled like the name. -/
theorem opened_as_seen_iff (visited : r.Visits f) {id : NodeId} {n : Node} {name : String}
    {t : Table} (live : f.catalog.get id = .ok n)
    (holds : n.directory.tables.get? (Text.lowercase name) = some t) :
    f.catalog.table id name = .ok t ∧ ∀ source spelling, f.Asks id name source spelling →
      ∃ o m, t.schema = some o ∧ f.catalog.get o = .ok m ∧ m.source = some source ∧
        (o = id → spelling = t.spelling (Text.lowercase name)) ∧
        (r.Building → ∃ own, m.directory.tables.get? (Text.lowercase name) = some own ∧
          own.schema = some o ∧ spelling = own.spelling (Text.lowercase name)) ∧
        (spelling = t.spelling (Text.lowercase name) ↔
          (∃ own, m.table (Text.lowercase name) = .ok own ∧
            own.spelling (Text.lowercase name) = t.spelling (Text.lowercase name)) ∨
          (∃ e, m.table (Text.lowercase name) = .error e) ∧
            Text.lowercase name = t.spelling (Text.lowercase name)) := by
  refine ⟨Catalog.table_of_holds live holds, fun source spelling asks => ?_⟩
  obtain ⟨m, answers, sourced, rfl⟩ := (Federation.asks_iff_of_live live).mp asks
  have found := Catalog.node?_of_get live
  have signed := Run.signed visited id n found
  obtain ⟨o, schema, owner, -⟩ := (Catalog.liveOwner?_of_holds signed holds).mp answers
  have spelled {own : Table} (held : m.directory.tables.get? (Text.lowercase name) = some own) :
      Federation.openName m (Text.lowercase name) = own.spelling (Text.lowercase name) := by
    have resolved : m.table (Text.lowercase name) = .ok own :=
      Node.table_of_holds (by rw [Text.lowercase_lowercase, held])
    exact Federation.openName_eq_iff.mpr (.inl ⟨own, resolved, rfl⟩)
  refine ⟨o, m, schema, owner, sourced, ?_, ?_, Federation.openName_eq_iff⟩
  · rintro rfl
    cases Except.ok.inj (live.symm.trans owner)
    exact spelled holds
  · intro building
    have grown := building.grown visited
    have recorded : f.catalog.Records id (Text.lowercase name) o :=
      ⟨n, found, by rw [signed.owner_eq holds, schema]⟩
    obtain ⟨m', hm', own⟩ := grown.housed.own _ _ _ recorded
    rw [Catalog.node?_of_get owner] at hm'
    cases hm'
    obtain ⟨t', held⟩ := (grown.aligned o m (Catalog.node?_of_get owner)).defined_of_owner own
    have signed' := Run.signed visited o m (Catalog.node?_of_get owner)
    exact ⟨t', held, (signed'.owner_eq held).symm.trans own, spelled held⟩

/-- A source that knows one table by one spelling. -/
def cased : Backend Unit where
  list _ _ := ({ names := ["Orders"] }, ())
  describe _ name _ := (.ok (if name = "Orders" then some (.new "Orders") else none), ())
  openTable _ name _ := (.ok (if name = "Orders" then some ⟨"o", name⟩ else none), ())

/-- The owner of a table that its parent sees loses it to a table of the node below it. -/
def respelled : Run Unit where
  backend := cased
  sources := ()
  operations := [.create "p" none, .create "o" (some ⟨0⟩), .refresh ⟨0, 0⟩ ⟨1⟩, .attach ⟨0⟩ ⟨1⟩,
    .create "d" none, .addTable ⟨2⟩ (.new "ORDERS"), .attach ⟨1⟩ ⟨2⟩]

theorem respelled_computed : ∃ f n m t own, respelled.Visits f ∧ f.catalog.get ⟨0⟩ = .ok n ∧
    n.directory.tables.get? (Text.lowercase "orders") = some t ∧ t.schema = some ⟨1⟩ ∧
    t.originalName = "Orders" ∧ f.catalog.get ⟨1⟩ = .ok m ∧ m.source = some ⟨0⟩ ∧
    m.table "orders" = .ok own ∧ own.schema = some ⟨2⟩ ∧ own.originalName = "ORDERS" ∧
    f.catalog.openRoute ⟨0⟩ (Text.lowercase "orders") = .ok (⟨0⟩, "ORDERS") := by
  have computed : ((respelled.after respelled.operations).map fun f =>
      ((f.catalog.get ⟨0⟩).toOption.map fun n =>
          (n.directory.tables.get? (Text.lowercase "orders")).map fun t =>
            (t.schema, t.originalName),
        (f.catalog.openRoute ⟨0⟩ (Text.lowercase "orders")).toOption)) =
      some (some (some (some ⟨1⟩, "Orders")), some (⟨0⟩, "ORDERS")) := by
    decide +kernel
  have owned : ((respelled.after respelled.operations).map fun f =>
      (f.catalog.get ⟨1⟩).toOption.map fun m =>
        (m.source, (m.table "orders").toOption.map fun own => (own.schema, own.originalName))) =
      some (some (some ⟨0⟩, some (some ⟨2⟩, "ORDERS"))) := by
    decide +kernel
  obtain ⟨f, hf, hfound⟩ := Option.map_eq_some_iff.mp computed
  rw [hf, Option.map_some] at owned
  obtain ⟨hseen, hroute⟩ := Prod.mk.injEq .. ▸ hfound
  have howner := Option.some.inj owned
  obtain ⟨n, hn, hseen⟩ := exists_ok_of_toOption hseen
  obtain ⟨t, holds, hsigned⟩ := Option.map_eq_some_iff.mp hseen
  obtain ⟨hschema, hspelled⟩ := Prod.mk.injEq .. ▸ hsigned
  obtain ⟨m, hm, howner⟩ := exists_ok_of_toOption howner
  obtain ⟨hsource, hown⟩ := Prod.mk.injEq .. ▸ howner
  obtain ⟨own, hresolved, hown⟩ := exists_ok_of_toOption hown
  obtain ⟨hother, hrespelled⟩ := Prod.mk.injEq .. ▸ hown
  obtain ⟨route, hroute, rfl⟩ := exists_ok_of_toOption (g := id) (by simpa using hroute)
  exact ⟨f, n, m, t, own, ⟨_, List.prefix_rfl, hf⟩, hn, holds, hschema, hspelled, hm, hsource,
    hresolved, hother, hrespelled, hroute⟩

theorem opened_as_seen_iff_respelled : ∃ f n t, respelled.Visits f ∧
    f.catalog.get ⟨0⟩ = .ok n ∧ n.directory.tables.get? (Text.lowercase "orders") = some t ∧
    f.Asks ⟨0⟩ "orders" ⟨0⟩ "ORDERS" ∧
    f.catalog.table ⟨0⟩ "orders" = .ok t ∧ ∀ source spelling, f.Asks ⟨0⟩ "orders" source spelling →
      ∃ o m, t.schema = some o ∧ f.catalog.get o = .ok m ∧ m.source = some source ∧
        (o = ⟨0⟩ → spelling = t.spelling (Text.lowercase "orders")) ∧
        (respelled.Building → ∃ own, m.directory.tables.get? (Text.lowercase "orders") = some own ∧
          own.schema = some o ∧ spelling = own.spelling (Text.lowercase "orders")) ∧
        (spelling = t.spelling (Text.lowercase "orders") ↔
          (∃ own, m.table (Text.lowercase "orders") = .ok own ∧
            own.spelling (Text.lowercase "orders") = t.spelling (Text.lowercase "orders")) ∨
          (∃ e, m.table (Text.lowercase "orders") = .error e) ∧
            Text.lowercase "orders" = t.spelling (Text.lowercase "orders")) := by
  obtain ⟨f, n, m, t, own, visited, live, holds, -, -, -, -, -, -, -, route⟩ := respelled_computed
  exact ⟨f, n, t, visited, live, holds, Federation.asks_iff.mpr route,
    opened_as_seen_iff visited live holds⟩

/-- The parent still sees the table that the source lists, and the source is asked for the other,
to which it does not connect. -/
theorem respelled_asks_other : ∃ f n m t own, respelled.Visits f ∧ f.catalog.get ⟨0⟩ = .ok n ∧
    n.directory.tables.get? (Text.lowercase "orders") = some t ∧ t.schema = some ⟨1⟩ ∧
    t.originalName = "Orders" ∧ f.catalog.get ⟨1⟩ = .ok m ∧ m.source = some ⟨0⟩ ∧
    m.table "orders" = .ok own ∧ own.schema = some ⟨2⟩ ∧ own.originalName = "ORDERS" ∧
    f.Asks ⟨0⟩ "orders" ⟨0⟩ "ORDERS" ∧
    (f.openTable cased ⟨0⟩ "orders").1 = .error (.nilConnection (Text.lowercase "orders")) := by
  obtain ⟨f, n, m, t, own, visited, live, holds, signed, spelled, owner, sourced, resolved, other,
    respelled, route⟩ := respelled_computed
  have asks : f.Asks ⟨0⟩ "orders" ⟨0⟩ "ORDERS" := Federation.asks_iff.mpr route
  refine ⟨f, n, m, t, own, visited, live, holds, signed, spelled, owner, sourced, resolved, other,
    respelled, asks, ?_⟩
  rw [asks cased]
  rfl

end Run

end SchemaCatalog
