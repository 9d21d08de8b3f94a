import SchemaCatalog.Proofs.Catalog.Vouched

/-!
Partitions and partition counts. A node puts a partition on record together with the number of its
parts. Tables that are added by hand come to a configured node with their own partition or with one
that the configuration has for them; to tables that a source describes nothing is done but for the
configuration's, and so they keep the count with which they were described.
-/

namespace SchemaCatalog

open Catalog (Vouches)

namespace Table

/-- If the table has a partition of its own, the count is the number of the parts. -/
def CountFits (t : Table) : Prop :=
  ∀ p, t.ownPartition? = some p → t.partitionCount = p.partitions.length

theorem countFits_setPartition (t : Table) (p : TablePartition) : (t.setPartition p).CountFits := by
  intro q own
  obtain ⟨held, -⟩ := Option.filter_eq_some_iff.mp own
  cases held
  rfl

theorem countFits_of_none {t : Table} (h : t.ownPartition? = none) : t.CountFits := by
  intro p own
  rw [h] at own
  cases own

end Table

namespace Node

variable {n : Node} {t : Table} {listed : String}

/-- The partition that the configuration has for a listed table. -/
def configured? (n : Node) (listed : String) : Option TablePartition :=
  n.config.bind (·.partitionFor? (Text.lowercase listed))

/-- A configured node counts the parts of what is added to it; any other leaves the count alone. -/
theorem countFits_claim_iff : (n.claim t).CountFits ↔ n.config.isSome ∨ t.CountFits := by
  have same : (n.claim t).CountFits ↔ (n.partitioned t.assignId).CountFits := Iff.rfl
  rw [same, partitioned]
  cases n.config with
  | none => exact (or_iff_right Bool.false_ne_true).symm
  | some conf =>
      refine iff_of_true ?_ (.inl rfl)
      simp only
      split
      · exact Table.countFits_setPartition _ _
      · rename_i missing
        simp only [Option.orElse_eq_orElse, Option.orElse_eq_or, Option.or_eq_none_iff] at missing
        have unowned : t.assignId.ownPartition? = none := missing.1
        split
        · exact Table.countFits_of_none unowned
        · exact Table.countFits_of_none unowned

/-- A described table keeps its count unless the configuration has a partition for it. -/
theorem countFits_adopt_iff : (n.adopt listed t).CountFits ↔ (n.configured? listed).isSome ∨
    ({ t with name := Text.lowercase t.name } : Table).CountFits := by
  unfold adopt configured?
  simp only
  split
  · rename_i p hconf
    rw [hconf]
    exact iff_of_true (Table.countFits_setPartition _ _) (.inl rfl)
  · rename_i hconf
    rw [hconf]
    exact (or_iff_right Bool.false_ne_true).symm

end Node

/-! ### Where tables come from -/

variable {σ : Type}

/-- The source of the node describes the table so under the spelling, in some state of its world. -/
def Backend.Describes (backend : Backend σ) (k : Node) (listed : String) (given : Table) : Prop :=
  ∃ source world, k.source = some source ∧
    (backend.describe source listed world).1 = .ok (some given)

/-- How a node has come to a table of its own: it was added by hand, or described by the node's
source. -/
inductive Node.Receives (backend : Backend σ) (added : NodeId → Table → Prop) (k : Node) :
    Table → Prop where
  | byHand {given : Table} (h : added k.id given) : Receives backend added k (k.claim given)
  | described {listed : String} {given : Table} (h : backend.Describes k listed given) :
      Receives backend added k (k.adopt listed given)

/-- Nothing that a node gains later shows in the tables that it takes. -/
theorem Node.Receives.of_origin {backend : Backend σ} {added : NodeId → Table → Prop} {k k' : Node}
    {t : Table} (h : k.Receives backend added t) (same : k'.origin = k.origin) :
    k'.Receives backend added t := by
  have hid : k'.id = k.id := congrArg (·.id) same
  have claims (given : Table) : k'.claim given = k.claim given :=
    congrArg (·.claim given) same
  have adopts (listed : String) (given : Table) : k'.adopt listed given = k.adopt listed given :=
    congrArg (·.adopt listed given) same
  cases h with
  | @byHand given h => exact claims given ▸ .byHand (hid ▸ h)
  | @described listed given h =>
      obtain ⟨source, world, hsource, answer⟩ := h
      exact adopts listed given ▸
        .described ⟨source, world, (source_eq_of_origin same).trans hsource, answer⟩

namespace Run

variable {r : Run σ} {f : Federation σ}

/-- A caller adds the table to the node at some time of the run. -/
def AddsTo (r : Run σ) (o : NodeId) (given : Table) : Prop :=
  ∃ g op, r.Performs g op ∧ op.Adds g.catalog o given

theorem received_throughout (visited : r.Visits f) :
    f.catalog.Vouched fun c _ owner t =>
      ∃ k, c.node? owner = some k ∧ k.id = owner ∧ k.Receives r.backend r.AddsTo t := by
  refine vouched ⟨?_, ?_⟩ ?_ visited
  · rintro c d name owner t later ⟨k, found, own, receives⟩
    obtain ⟨k', found', same⟩ := later.kept owner k found
    exact ⟨k', found', (congrArg (·.id) same).trans own, receives.of_origin same⟩
  · intro c k source listed t world found hsource _ answer
    exact ⟨k, found, rfl, .described ⟨source, world, hsource, answer⟩⟩
  · intro g op id n t hop adds found
    have own : n.id = id := (Run.sound hop.visits).ids id n found
    exact ⟨n, found, own, .byHand (own.symm ▸ ⟨g, op, hop, adds⟩)⟩

/-- Every table in every index comes from the node that is recorded for it, which has put its
partition on record as it was when the table came. A configured node to which the table is added
counts the parts. What a source describes is counted if the configuration has a partition for it,
and otherwise the count fits just when it did in what the source described. -/
theorem partitions_counted (visited : r.Visits f) {n : Node} (created : n ∈ f.catalog.nodes)
    {name : String} {t : Table} (seen : n.directory.tables.get? name = some t) :
    ∃ k given, f.catalog.node? k.id = some k ∧ n.directory.owners.get? name = some k.id ∧
      (r.AddsTo k.id given ∧ t = k.claim given ∧ (k.config.isSome → t.CountFits) ∨
        ∃ listed, r.backend.Describes k listed given ∧ t = k.adopt listed given ∧
          (t.CountFits ↔ (k.configured? listed).isSome ∨
            ({ given with name := Text.lowercase given.name } : Table).CountFits)) := by
  obtain ⟨i, hi⟩ := List.mem_iff_getElem?.mp created
  obtain ⟨owner, recorded, k, found, rfl, receives⟩ :=
    (received_throughout visited).of_table hi seen
  cases receives with
  | @byHand given h =>
      exact ⟨k, given, found, recorded,
        .inl ⟨h, rfl, fun configured => Node.countFits_claim_iff.mpr (.inl configured)⟩⟩
  | @described listed given h =>
      exact ⟨k, given, found, recorded, .inr ⟨listed, h, rfl, Node.countFits_adopt_iff⟩⟩

/-- Every table that is described has two parts that are not counted. -/
def uncounted (names : List String) : Answers where
  list _ := names
  describe _ name := .ok (some { Table.new name with
    partition := some { table := name, partitions := [{ id := "a" }, { id := "b" }] } })

/-- A node whose configuration has a partition for one of the tables that its source describes. A
third table is added to it by hand. The node above sees all three. -/
def ledgers : Run Unit where
  backend := .always (uncounted ["Users", "Events"])
  sources := ()
  operations := [
    .createWithConfig { name := "kv", partitions := [{ table := "users", partitions := [{}] }] }
      (some ⟨0⟩),
    .addTable ⟨0⟩ { Table.new "Orders" with
      partition := some { table := "orders", partitions := [{}, {}, {}] } },
    .refresh ⟨0, 0⟩ ⟨0⟩, .create "main" none, .attach ⟨1⟩ ⟨0⟩]

/-- The parts and the count of a table that the node above sees. -/
def ledgersCount (name : String) : Option (Nat × Nat) := do
  let f ← ledgers.after ledgers.operations
  let n ← f.catalog.node? ⟨1⟩
  let t ← n.directory.tables.get? name
  let p ← t.ownPartition?
  pure (p.partitions.length, t.partitionCount)

theorem exists_of_ledgersCount {name : String} {parts count : Nat}
    (h : ledgersCount name = some (parts, count)) : ∃ f n t p, ledgers.Visits f ∧
      n ∈ f.catalog.nodes ∧ n.directory.tables.get? name = some t ∧ t.ownPartition? = some p ∧
      p.partitions.length = parts ∧ t.partitionCount = count := by
  unfold ledgersCount at h
  simp only [Option.bind_eq_bind, Option.bind_eq_some_iff, Option.pure_def, Option.some.injEq,
    Prod.mk.injEq] at h
  obtain ⟨f, hf, n, hn, t, seen, p, own, rfl, rfl⟩ := h
  exact ⟨f, n, t, p, ⟨_, List.prefix_rfl, hf⟩, List.mem_of_getElem? hn, seen, own, rfl, rfl⟩

theorem partitions_counted_ledgers : ∃ f n t p, ledgers.Visits f ∧ n ∈ f.catalog.nodes ∧
    n.directory.tables.get? "orders" = some t ∧ t.ownPartition? = some p ∧
    p.partitions.length = 3 ∧ t.partitionCount = 3 ∧
    ∃ k given, f.catalog.node? k.id = some k ∧ n.directory.owners.get? "orders" = some k.id ∧
      (ledgers.AddsTo k.id given ∧ t = k.claim given ∧ (k.config.isSome → t.CountFits) ∨
        ∃ listed, ledgers.backend.Describes k listed given ∧ t = k.adopt listed given ∧
          (t.CountFits ↔ (k.configured? listed).isSome ∨
            ({ given with name := Text.lowercase given.name } : Table).CountFits)) := by
  obtain ⟨f, n, t, p, visited, created, seen, own, parts, count⟩ :=
    exists_of_ledgersCount (show ledgersCount "orders" = some (3, 3) by decide +kernel)
  exact ⟨f, n, t, p, visited, created, seen, own, parts, count,
    partitions_counted visited created seen⟩

/-- The parts of a table for which the configuration has no partition are not counted. -/
theorem described_parts_uncounted : ∃ f n t p, ledgers.Visits f ∧ n ∈ f.catalog.nodes ∧
    n.directory.tables.get? "events" = some t ∧ t.ownPartition? = some p ∧
    p.partitions.length = 2 ∧ t.partitionCount = 0 :=
  exists_of_ledgersCount (by decide +kernel)

end Run

end SchemaCatalog
