import SchemaCatalog.Proofs.Catalog.Later

/-!
What a failed build leaves. The root of a schema is created before anything is looked up for it, and
no failure takes it back: it stays in the catalog, empty or with some of its children, and answers
for the name of the schema from then on.
-/

namespace SchemaCatalog

namespace Catalog

variable {c d e : Catalog} {name : String}

/-! ### Nodes by name -/

theorem exists_byName? {id : NodeId} {n : Node} (live : c.get id = .ok n)
    (named : n.name = Text.lowercase name) :
    ∃ first m, c.byName? name = some m ∧ c.get first = .ok m ∧ first.index ≤ id.index := by
  obtain ⟨hlive, found⟩ := get_eq_ok_iff.mp live
  obtain ⟨reached, old⟩ := isLive_iff_lt.mp hlive
  have place : c.liveNodes[id.index - c.released]? = some n := by
    rw [liveNodes, List.getElem?_drop, Nat.add_sub_cancel' reached]
    exact found
  have isSome : (c.byName? name).isSome := by
    refine List.find?_isSome.mpr ⟨n, List.mem_of_getElem? place, ?_⟩
    simp [named]
  obtain ⟨m, hm⟩ := Option.isSome_iff_exists.mp isSome
  obtain ⟨-, i, hi, rfl, before⟩ := List.find?_eq_some_iff_getElem.mp hm
  have within : i ≤ id.index - c.released := by
    by_contra beyond
    obtain ⟨hlt, heq⟩ := List.getElem?_eq_some_iff.mp place
    have missed := before _ (Nat.lt_of_not_le beyond)
    simp [heq, named] at missed
  refine ⟨⟨c.released + i⟩, _, hm, get_of_isLive ?_ ?_, ?_⟩
  · exact isLive_iff_lt.mpr ⟨Nat.le_add_right _ _, show c.released + i < _ by omega⟩
  · show c.nodes[c.released + i]? = _
    rw [← List.getElem?_drop]
    exact List.getElem?_eq_getElem hi
  · show c.released + i ≤ id.index
    omega

theorem live_of_byName? {m : Node} (h : c.byName? name = some m) :
    ∃ id, c.get id = .ok m ∧ m.name = Text.lowercase name := by
  have named : m.name = Text.lowercase name := by simpa using List.find?_some h
  obtain ⟨i, hi⟩ := List.mem_iff_getElem?.mp (List.mem_of_find?_eq_some h)
  rw [liveNodes, List.getElem?_drop] at hi
  have found : c.node? ⟨c.released + i⟩ = some m := hi
  have live : c.isLive ⟨c.released + i⟩ :=
    isLive_iff_lt.mpr ⟨Nat.le_add_right _ _, index_lt_of_node? found⟩
  exact ⟨_, get_of_isLive live found, named⟩

/-! ### Roots that stay -/

/-- A live node without a source that has the name and that an earlier state does not have. -/
structure RootOf (c d : Catalog) (name : String) (root : NodeId) (n : Node) : Prop where
  new : c.nodes.length ≤ root.index
  live : d.get root = .ok n
  named : n.name = Text.lowercase name
  bound : n.source = none

/-- Since an earlier state all of its nodes have been released, or there is a new node of the
name. -/
def Leftover (c : Catalog) (name : String) (d : Catalog) : Prop :=
  Later c d ∧ (c.nodes.length ≤ d.released ∨ ∃ root n, RootOf c d name root n)

theorem Leftover.later (h : Leftover c name d) (next : Later d e) : Leftover c name e := by
  obtain ⟨past, left⟩ := h
  refine ⟨past.trans next, ?_⟩
  rcases next.released with same | all
  · rw [same]
    refine left.imp_right ?_
    rintro ⟨root, n, h⟩
    obtain ⟨hlive, found⟩ := get_eq_ok_iff.mp h.live
    obtain ⟨n', found', origin⟩ := next.kept root n found
    refine ⟨root, n', h.new, get_of_isLive (next.isLive_of_released_eq same hlive) found', ?_, ?_⟩
    · rw [Node.name_eq_of_origin origin]
      exact h.named
    · rw [Node.source_eq_of_origin origin]
      exact h.bound
  · exact .inl (past.length.trans all)

theorem Leftover.since {b : Catalog} (h : Leftover c name d) (past : Later b c) :
    Leftover b name d := by
  refine ⟨past.trans h.1, ?_⟩
  rcases h.2 with all | ⟨root, n, left⟩
  · exact .inl (past.length.trans all)
  · exact .inr ⟨root, n, past.length.trans left.new, left.live, left.named, left.bound⟩

theorem leftover_insertNode (c : Catalog) (name : String) :
    Leftover c name (c.insertNode name none none).2 := by
  refine ⟨.insertNode c name none none, ?_⟩
  by_cases outside : c.nodes.length ≤ c.released
  · exact .inl outside
  · have live : (c.insertNode name none none).2.isLive ⟨c.nodes.length⟩ := by
      rw [isLive_iff_lt, length_insertNode, released_insertNode]
      exact ⟨(Nat.lt_of_not_le outside).le, Nat.lt_succ_self _⟩
    exact .inr ⟨⟨c.nodes.length⟩, _, Nat.le_refl _, get_of_isLive live List.getElem?_concat_length,
      rfl, rfl⟩

/-- Where no node answered for the name, one of the nodes in between answers for it as long as the
root is live. -/
theorem RootOf.shadows {root : NodeId} {n : Node} (h : RootOf c d name root n) (past : Later c d)
    (unnamed : c.byName? name = none) (next : Later d e) (live : e.isLive root) :
    ∃ first m, e.byName? name = some m ∧ e.get first = .ok m ∧
      c.nodes.length ≤ first.index ∧ first.index < d.nodes.length := by
  have found := node?_of_get h.live
  obtain ⟨n', found', origin⟩ := next.kept root n found
  have named : n'.name = Text.lowercase name := by
    rw [Node.name_eq_of_origin origin]
    exact h.named
  obtain ⟨first, m, hm, hlive, before⟩ := exists_byName? (get_of_isLive live found') named
  refine ⟨first, m, hm, hlive, ?_, before.trans_lt (index_lt_of_node? found)⟩
  by_contra old
  have old := Nat.lt_of_not_le old
  obtain ⟨hfirst, hnode⟩ := get_eq_ok_iff.mp hlive
  have was := (past.trans next).isLive_of_isLive old hfirst
  obtain ⟨k, hk⟩ := isLive_iff.mp was
  obtain ⟨k', hk', same⟩ := (past.trans next).kept first k (node?_of_get hk)
  rw [hnode] at hk'
  cases hk'
  obtain ⟨-, -, hnamed⟩ := live_of_byName? hm
  have was_named : k.name = Text.lowercase name :=
    (Node.name_eq_of_origin same).symm.trans hnamed
  obtain ⟨_, _, answered, -⟩ := exists_byName? hk was_named
  rw [unnamed] at answered
  cases answered

/-- The same nodes are live, and every name finds the same one. -/
structure Undone (c d : Catalog) : Prop where
  live : ∀ id, d.isLive id = c.isLive id
  named : ∀ name, (d.byName? name).map (·.id) = (c.byName? name).map (·.id)

theorem Leftover.undone_iff (h : Leftover c name d) :
    Undone c d ↔ (∀ id, ¬ c.isLive id) ∧ ∀ id, ¬ d.isLive id := by
  constructor
  · intro undone
    rcases h.2 with all | ⟨root, n, left⟩
    · have before (id : NodeId) : ¬ c.isLive id := by
        intro live
        have after := undone.live id
        rw [live, isLive_iff_lt] at after
        have old := (isLive_iff_lt.mp live).2
        omega
      refine ⟨before, fun id => ?_⟩
      rw [undone.live]
      exact before id
    · have live := isLive_of_get left.live
      rw [undone.live] at live
      have old := (isLive_iff_lt.mp live).2
      have new := left.new
      omega
  · rintro ⟨before, after⟩
    have unnamed {c : Catalog} (none_live : ∀ id, ¬ c.isLive id) (name : String) :
        c.byName? name = none := by
      cases found : c.byName? name with
      | none => rfl
      | some m =>
          obtain ⟨id, live, -⟩ := live_of_byName? found
          exact absurd (isLive_of_get live) (none_live id)
    refine ⟨fun id => ?_, fun name => ?_⟩
    · rw [Bool.eq_false_iff.mpr (before id), Bool.eq_false_iff.mpr (after id)]
    · rw [unnamed before, unnamed after]

end Catalog

/-! ### Builds -/

namespace Registry

open Catalog (Later Leftover RootOf Undone Routine)

variable {σ : Type} {r : Registry σ} {backend : Backend σ} {now : Instant}
  {config : CatalogConfig} {f f' : Federation σ} {e : CatalogError}

/-- However the build of one schema ends, its root stays unless all nodes have been released. -/
theorem leftover_buildSchema {schema : SchemaConfig} {answer : Except CatalogError NodeId}
    (h : r.buildSchema backend now config schema f = some (answer, f')) :
    Leftover f.catalog schema.name f'.catalog := by
  have keeps : Routine backend (Leftover f.catalog schema.name) :=
    .of_later backend fun next left => left.later next
  have built : Action.Leaves (· = f.catalog) (r.buildSchema backend now config schema)
      (fun _ => Leftover f.catalog schema.name) (Leftover f.catalog schema.name) := by
    refine Action.Leaves.buildSchema_maintains keeps r now config schema ?_
    rintro c rfl
    exact Catalog.leftover_insertNode _ schema.name
  exact built.always (fun _ _ h => h) (fun _ h => h) rfl h

/-- A build fails in one of its schemas, after those before it have been built. -/
theorem leftover_mapM {schemas : List SchemaConfig}
    (h : schemas.mapM (r.buildSchema backend now config) f = some (.error e, f')) :
    ∃ built schema rest, schemas = built ++ schema :: rest ∧
      ∀ s ∈ built ++ [schema], Leftover f.catalog s.name f'.catalog := by
  induction schemas generalizing f with
  | nil => cases h
  | cons schema rest ih =>
      rw [List.mapM_cons] at h
      obtain ⟨⟨answer, g⟩, hanswer, hrest⟩ := Option.bind_eq_some_iff.mp h
      have left := leftover_buildSchema hanswer
      cases answer with
      | error e' =>
          cases hrest
          exact ⟨[], schema, rest, rfl, by simpa using left⟩
      | ok root =>
          obtain ⟨⟨later, g'⟩, hlater, hend⟩ := Option.bind_eq_some_iff.mp hrest
          cases later with
          | ok roots => cases hend
          | error e' =>
              cases hend
              obtain ⟨built, failed, more, rfl, leftover⟩ := ih hlater
              have steps : Catalog.Steps g.catalog f'.catalog :=
                (Action.Stepwise.mapM (Action.Stepwise.buildSchema r backend now config)).steps
                  trivial hlater
              refine ⟨schema :: built, failed, more, rfl, fun s mem => ?_⟩
              rw [List.cons_append] at mem
              rcases List.mem_cons.mp mem with rfl | mem
              · exact left.later steps.later
              · exact (leftover s mem).since left.1

/-- A failed build is undone only where nothing was live before and nothing is live after it.
Otherwise the roots of the schema that failed and of all schemas before it have stayed, if no source
has shut the catalog down; and where no node answered for the name of such a schema, it is one of
the nodes of the failed build that answers for it as long as that root is live, whatever is built
later. -/
theorem failed_build_undone_iff (failed : r.buildSchemas backend now config f = some (.error e, f')) :
    (Undone f.catalog f'.catalog ↔
      (∀ id, ¬ f.catalog.isLive id) ∧ ∀ id, ¬ f'.catalog.isLive id) ∧
    ∃ built schema rest, config.schemas = built ++ schema :: rest ∧
      ∀ s ∈ built ++ [schema], f.catalog.nodes.length ≤ f'.catalog.released ∨
        ∃ root n, RootOf f.catalog f'.catalog s.name root n ∧
          (f.catalog.byName? s.name = none → ∀ d, Later f'.catalog d → d.isLive root →
            ∃ first m, d.byName? s.name = some m ∧ d.get first = .ok m ∧
              f.catalog.nodes.length ≤ first.index ∧
              first.index < f'.catalog.nodes.length) := by
  obtain ⟨built, schema, rest, split, leftover⟩ := leftover_mapM failed
  refine ⟨(leftover schema (by simp)).undone_iff, built, schema, rest, split, fun s mem => ?_⟩
  obtain ⟨past, left⟩ := leftover s mem
  refine left.imp_right ?_
  rintro ⟨root, n, h⟩
  exact ⟨root, n, h, fun unnamed d next live => h.shadows past unnamed next live⟩

/-- One source held in memory, and one that is missing. -/
def halfDeclared : CatalogConfig where
  schemas := [{ name := "Main", sources := ["shop"] }, { name := "Other", sources := ["ghost"] }]
  sources := [{ name := "shop", type := "memory" }]

/-- Both schemas have roots after the failure. -/
theorem failed_build_undone_iff_halfDeclared :
    ∃ (e : CatalogError) (f f' : Federation (SourcePool MemorySource)),
      (registerBuiltin id {}).2.buildSchemas (SourcePool.backend MemorySource.kind) ⟨0, 0⟩
        halfDeclared f = some (.error e, f') ∧ f'.catalog.released = 0 ∧
      (Undone f.catalog f'.catalog ↔
        (∀ id, ¬ f.catalog.isLive id) ∧ ∀ id, ¬ f'.catalog.isLive id) ∧
      ∃ built schema rest, halfDeclared.schemas = built ++ schema :: rest ∧
        ∀ s ∈ built ++ [schema], f.catalog.nodes.length ≤ f'.catalog.released ∨
          ∃ root n, RootOf f.catalog f'.catalog s.name root n ∧
            (f.catalog.byName? s.name = none → ∀ d, Later f'.catalog d → d.isLive root →
              ∃ first m, d.byName? s.name = some m ∧ d.get first = .ok m ∧
                f.catalog.nodes.length ≤ first.index ∧
                first.index < f'.catalog.nodes.length) := by
  have computed : (((registerBuiltin id {}).2.buildSchemas (SourcePool.backend MemorySource.kind)
      ⟨0, 0⟩ halfDeclared { catalog := (Catalog.create {} "first" none).2, sources := {} }).map
      fun p => (p.1.toOption.isNone, p.2.catalog.released)) = some (true, 0) := by
    decide +kernel
  obtain ⟨⟨answer, f'⟩, h, hparts⟩ := Option.map_eq_some_iff.mp computed
  simp only [Prod.mk.injEq] at hparts
  obtain ⟨hanswer, hreleased⟩ := hparts
  cases answer with
  | ok roots => cases hanswer
  | error e => exact ⟨e, _, f', h, hreleased, failed_build_undone_iff h⟩

/-- A schema without its source, and the same with it. -/
def undeclared : CatalogConfig where
  schemas := [{ name := "main", sources := ["shop"] }]

def declared : CatalogConfig where
  schemas := undeclared.schemas
  sources := [{
    name := "shop"
    type := "memory"
    settings := .ofList [("tables", .array [.object [("name", .string "Orders")]])] }]

/-- The failed build of an empty catalog is not undone, and after the build that succeeds it is the
empty root of the failed one that answers for the name. -/
theorem undeclared_not_undone :
    ∃ (e : CatalogError) (f f' f'' : Federation (SourcePool MemorySource)) (n : Node),
      (registerBuiltin id {}).2.buildSchemas (SourcePool.backend MemorySource.kind) ⟨0, 0⟩
        undeclared f = some (.error e, f') ∧ f.catalog.nodes = [] ∧
      ¬ Undone f.catalog f'.catalog ∧
      (registerBuiltin id {}).2.buildSchemas (SourcePool.backend MemorySource.kind) ⟨0, 0⟩
        declared f' = some (.ok [⟨1⟩], f'') ∧ f''.catalog.get ⟨1⟩ = .ok n ∧
      n.tables = ["orders"] ∧
      (f''.catalog.byName? "main").map (fun m => (m.id, m.tables)) = some (⟨0⟩, []) := by
  have computed : (((registerBuiltin id {}).2.buildSchemas (SourcePool.backend MemorySource.kind)
      ⟨0, 0⟩ undeclared { sources := {} }).bind fun p =>
        ((registerBuiltin id {}).2.buildSchemas (SourcePool.backend MemorySource.kind) ⟨0, 0⟩
          declared p.2).map fun q =>
            (p.1.toOption.isNone && p.2.catalog.isLive ⟨0⟩ && q.1.toOption == some [⟨1⟩],
              (q.2.catalog.get ⟨1⟩).toOption.map (·.tables),
              (q.2.catalog.byName? "main").map fun m => (m.id, m.tables))) =
      some (true, some ["orders"], some (⟨0⟩, [])) := by
    decide +kernel
  obtain ⟨⟨answer, f'⟩, h, hnext⟩ := Option.bind_eq_some_iff.mp computed
  obtain ⟨⟨retried, f''⟩, h', hparts⟩ := Option.map_eq_some_iff.mp hnext
  simp only [Prod.mk.injEq, Bool.and_eq_true, beq_iff_eq] at hparts
  obtain ⟨⟨⟨hanswer, left⟩, hretried⟩, hroot, named⟩ := hparts
  obtain ⟨n, live, tables⟩ := exists_ok_of_toOption hroot
  cases answer with
  | ok roots => cases hanswer
  | error e =>
      cases retried with
      | error e' => cases hretried
      | ok roots =>
          cases hretried
          refine ⟨e, _, f', f'', n, h, rfl, fun undone => ?_, h', live, tables, named⟩
          have before := undone.live ⟨0⟩
          rw [left] at before
          cases before

end Registry

end SchemaCatalog
