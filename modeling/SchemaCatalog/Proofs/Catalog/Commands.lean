import SchemaCatalog.Proofs.Catalog.Building
import SchemaCatalog.Proofs.Registry.FailedBuild

/-!
Catalogs that are only given commands. Every live schema has a name of its own, and a command that
fails leaves all nodes as they were: each command makes all its checks before its first change, and
what it does after that cannot fail in such a catalog.
-/

namespace SchemaCatalog

open Relation (ReflTransGen)

namespace Catalog

variable {c d e : Catalog} {name : String}

/-! ### Names of live nodes -/

/-- No two live nodes have the same name. -/
def DistinctNames (c : Catalog) : Prop :=
  (c.liveNodes.map (·.name)).Nodup

theorem DistinctNames.byName?_eq_some_iff (h : c.DistinctNames) {n : Node} :
    c.byName? name = some n ↔ n ∈ c.liveNodes ∧ n.name = Text.lowercase name := by
  constructor
  · intro found
    exact ⟨List.mem_of_find?_eq_some found, by simpa using List.find?_some found⟩
  · rintro ⟨mem, named⟩
    have isSome : (c.byName? name).isSome := List.find?_isSome.mpr ⟨n, mem, by simp [named]⟩
    obtain ⟨m, found⟩ := Option.isSome_iff_exists.mp isSome
    have named' : m.name = Text.lowercase name := by simpa using List.find?_some found
    rw [found, List.inj_on_of_nodup_map h (List.mem_of_find?_eq_some found) mem
      (named'.trans named.symm)]

theorem names_eq_of_bareNodes (same : d.bareNodes = c.bareNodes) :
    d.nodes.map (·.name) = c.nodes.map (·.name) := by
  have names (c : Catalog) : c.nodes.map (·.name) = c.bareNodes.map (·.name) := by
    simp [bareNodes, Node.bare, Function.comp_def]
  rw [names, names, same]

/-- The names of live nodes stay, or there are none. -/
theorem DistinctNames.of_names (h : c.DistinctNames)
    (same : d.nodes.map (·.name) = c.nodes.map (·.name))
    (released : d.released = c.released ∨ d.released = c.nodes.length) : d.DistinctNames := by
  have length : d.nodes.length = c.nodes.length := by simpa using congrArg List.length same
  rw [DistinctNames, liveNodes, List.map_drop, same]
  rcases released with kept | all
  · rw [kept, ← List.map_drop]
    exact h
  · rw [List.drop_of_length_le (by rw [List.length_map, all])]
    exact .nil

theorem DistinctNames.touches (h : c.DistinctNames) (way : Touches c d) : d.DistinctNames := by
  induction way with
  | refl => exact h
  | tail _ hstep ih => exact ih.of_names (names_eq_of_bareNodes hstep.bareNodes) hstep.released

theorem DistinctNames.insertNode (h : c.DistinctNames) (free : c.byName? name = none)
    (config : Option SourceConfig) (source : Option SourceId) :
    (c.insertNode name config source).2.DistinctNames := by
  have distinct : (c.liveNodes.map (·.name) ++ [Text.lowercase name]).Nodup := by
    refine List.nodup_append.mpr ⟨h, List.nodup_singleton _, ?_⟩
    rintro a ha b hb rfl
    obtain ⟨n, mem, named⟩ := List.mem_map.mp ha
    have found := h.byName?_eq_some_iff.mpr ⟨mem, named.trans (List.mem_singleton.mp hb)⟩
    rw [free] at found
    cases found
  refine distinct.sublist ?_
  rw [liveNodes, nodes_insertNode, released_insertNode, List.drop_append, List.map_append]
  exact (List.Sublist.refl _).append ((List.drop_sublist _ _).map _)

theorem DistinctNames.attach (h : c.DistinctNames) (parent child : NodeId) :
    (c.attach parent child).2.DistinctNames := by
  by_cases accepted : (c.attach parent child).1 = .ok ()
  · obtain ⟨m, n, attached⟩ := attached_of_ok accepted
    refine h.of_names (List.ext_getElem? fun i => ?_) (.inl attached.released)
    rw [List.getElem?_map, List.getElem?_map]
    show ((c.attach parent child).2.node? ⟨i⟩).map _ = (c.node? ⟨i⟩).map _
    cases found : (c.attach parent child).2.node? ⟨i⟩ with
    | some k' =>
        obtain ⟨k, hk, relinked⟩ := attached.of_relinked found
        rw [hk, Option.map_some, Option.map_some, relinked.name_eq]
    | none =>
        have outside := List.getElem?_eq_none_iff.mp found
        rw [attached.length] at outside
        rw [node?, List.getElem?_eq_none outside]
  · rw [attach_of_error accepted]
    exact h

/-! ### Commands that fail -/

/-- The nodes are the same, and the same of them are live. -/
structure Untouched (c d : Catalog) : Prop where
  nodes : d.nodes = c.nodes
  released : d.released = c.released

theorem Untouched.byName? (h : Untouched c d) (name : String) :
    d.byName? name = c.byName? name := by
  simp only [Catalog.byName?, liveNodes, h.nodes, h.released]

theorem Grown.drop_cases (h : c.Grown) {id : NodeId} {n : Node} (live : c.get id = .ok n)
    (name : String) :
    Text.lowercase name ∈ n.directory.names ∧ (∃ t, (c.drop id name).1 = .ok t) ∨
      Text.lowercase name ∉ n.directory.names ∧
        c.drop id name = (.error (.tableNotFound (Text.lowercase name)), c) := by
  by_cases listed : Text.lowercase name ∈ n.directory.names
  · obtain ⟨_, t, -, answer, -⟩ := h.drop live listed
    exact .inl ⟨listed, t, answer⟩
  · have unowned : n.ownerOf (Text.lowercase name) = none := by
      rw [(h.aligned id n (node?_of_get live)).owned] at listed
      rw [Node.ownerOf_lowercase]
      simpa [NameMap.contains] using listed
    refine .inr ⟨listed, ?_⟩
    unfold Catalog.drop
    simp [live, unowned, bind, Except.bind, throw, throwThe, MonadExceptOf.throw]

/-- A node that has just been created can be attached under any that was there. -/
theorem Sound.attach_insertNode (h : c.Sound) {parent : NodeId} {m : Node}
    (live : c.get parent = .ok m) (name : String) (config : Option SourceConfig)
    (source : Option SourceId) :
    ((c.insertNode name config source).2.attach parent
      (c.insertNode name config source).1).1 = .ok () := by
  obtain ⟨above, habove⟩ := h.exists_ancestors (isLive_of_get live)
  have apart : ¬ ReflTransGen c.Under parent (c.insertNode name config source).1 := by
    rw [← mem_ancestors_iff habove]
    intro mem
    obtain ⟨k, hk⟩ := live_of_ancestors habove _ (List.mem_reverse.mpr mem)
    exact Nat.lt_irrefl _ (index_lt_of_node? (node?_of_get hk))
  have parent_live : (c.insertNode name config source).2.isLive parent :=
    isLive_insertNode (isLive_of_get live)
  obtain ⟨p, hp⟩ := isLive_iff.mp parent_live
  have created :
      (c.insertNode name config source).2.isLive (c.insertNode name config source).1 := by
    have reached := isLive_iff_lt.mp (isLive_of_get live)
    rw [isLive_iff_lt, length_insertNode, released_insertNode]
    exact ⟨(reached.1.trans reached.2.le), Nat.lt_succ_self _⟩
  obtain ⟨k, hk⟩ := isLive_iff.mp created
  refine ((h.insertNode name config source).attach_answer hp hk).2 ?_
  rw [under_insertNode]
  exact apart

end Catalog

/-- What a command needs to succeed: a free name and a schema to be put under if one is given, or a
schema of the name, and for a drop a table that the schema lists. -/
def Command.Applies (c : Catalog) : Command → Prop
  | createSchema name parent =>
      c.byName? name = none ∧ ∀ above, parent = some above → ∃ n, c.byName? above = some n
  | addTable schema _ => ∃ n, c.byName? schema = some n
  | dropTable schema table =>
      ∃ n, c.byName? schema = some n ∧ Text.lowercase table ∈ n.directory.names
  | refresh schema => ∃ n, c.byName? schema = some n

/-! ### What commands leave -/

namespace Action.Leaves

open Catalog (DistinctNames Untouched Grown)

variable {σ α : Type} {pre failed : Catalog → Prop}

theorem run_distinctNames (backend : Backend σ) (now : Instant) (command : Command) :
    Leaves DistinctNames (command.run backend now) (fun _ => DistinctNames) DistinctNames := by
  cases command with
  | createSchema name parent =>
      refine catalog.bind fun c => ?_
      split
      · exact throw (.schemaExists (Text.lowercase name)) fun d hd => hd.2
      · rename_i free
        have unnamed : c.byName? name = none := by simpa using free
        refine (resolveParent parent fun d hd => hd.2).bind fun above => ?_
        have created : Leaves (fun d => c = d ∧ d.DistinctNames)
            (Action.create name none : Action σ NodeId) (fun _ => DistinctNames) DistinctNames :=
          ofChange fun d hd => hd.2.insertNode (hd.1 ▸ unnamed) none none
        refine created.bind fun child => ?_
        cases above with
        | some above =>
            exact ofCatalog (fun d _ hd _ => hd.attach above child)
              fun d _ hd _ => hd.attach above child
        | none => exact .pure fun _ => id
  | addTable schema t =>
      refine (resolve schema fun d hd => hd).bind fun id => ofChange fun d hd => ?_
      exact hd.1.touches (.single (.addTable id t))
  | dropTable schema name =>
      refine (resolve schema fun d hd => hd).bind fun id => map (ofCatalog ?_ ?_)
      · exact fun d t hd _ => hd.1.touches (.single (.drop id name))
      · exact fun d e hd _ => hd.1.touches (.single (.drop id name))
  | refresh schema =>
      refine (resolve schema fun d hd => hd).bind fun id => ⟨?_, ?_⟩
      · exact fun hf h => hf.1.touches (Federation.touches_refresh backend now h)
      · exact fun hf h => hf.1.touches (Federation.touches_refresh backend now h)

theorem apply_distinctNames (backend : Backend σ) (now : Instant) (command : Command) :
    Leaves DistinctNames (command.apply backend now) (fun _ => DistinctNames) DistinctNames :=
  (log fun _ hc => hc).bind fun _ => run_distinctNames backend now command

theorem resolves (name : String) (h : ∀ c, pre c → c.byName? name = none → failed c) :
    Leaves pre (Command.resolve name : Action σ NodeId)
      (fun id c => pre c ∧ ∃ n, c.byName? name = some n ∧ n.id = id) failed := by
  refine catalog.bind fun c => ?_
  split
  · rename_i n found
    refine .pure ?_
    rintro d ⟨rfl, hpre⟩
    exact ⟨hpre, n, found, rfl⟩
  · rename_i missing
    refine throw _ ?_
    rintro d ⟨rfl, hpre⟩
    exact h _ hpre missing

end Action.Leaves

namespace Catalog

/-- Where a command begins that is given to `c`: the nodes are those of `c`. -/
structure Begun (c d : Catalog) : Prop where
  same : Untouched c d
  grown : d.Grown

/-- Where a command has failed that was given to `c`. -/
structure Refused (command : Command) (c d : Catalog) : Prop where
  same : Untouched c d
  inapplicable : ¬ command.Applies c

namespace Begun

variable {c d : Catalog} {name : String} (h : Begun c d)

include h

theorem found {n : Node} (found : d.byName? name = some n) : c.byName? name = some n :=
  (h.same.byName? name).symm.trans found

theorem missing (missing : d.byName? name = none) : ¬ ∃ n, c.byName? name = some n := by
  rintro ⟨n, found⟩
  rw [h.same.byName?, found] at missing
  cases missing

theorem get {n : Node} (found : d.byName? name = some n) : d.get n.id = .ok n := by
  obtain ⟨id, live, -⟩ := live_of_byName? found
  rw [h.grown.sound.ids id n (node?_of_get live)]
  exact live

end Begun

end Catalog

namespace Action.Leaves

open Catalog (Begun Refused Untouched)

variable {σ : Type} {c : Catalog}

theorem run_createSchema (backend : Backend σ) (now : Instant) (name : String)
    (parent : Option String) :
    Leaves (Begun c) ((Command.createSchema name parent).run backend now)
      (fun _ _ => (Command.createSchema name parent).Applies c)
      (Refused (.createSchema name parent) c) := by
  refine catalog.bind fun c' => ?_
  split
  · rename_i taken
    refine throw (.schemaExists (Text.lowercase name)) ?_
    rintro d ⟨rfl, hd⟩
    refine ⟨hd.same, fun applies => ?_⟩
    rw [hd.same.byName?, applies.1] at taken
    cases taken
  · rename_i free
    have looked : Leaves (fun d => c' = d ∧ Begun c d)
        (parent.mapM Command.resolve : Action σ (Option NodeId))
        (fun above d => Begun c d ∧ (Command.createSchema name parent).Applies c ∧
          ∀ id, above = some id → ∃ m, d.get id = .ok m)
        (Refused (.createSchema name parent) c) := by
      have unnamed (d : Catalog) (hd : c' = d ∧ Begun c d) : c.byName? name = none := by
        have missing : d.byName? name = none := by simpa [hd.1] using free
        rw [← hd.2.same.byName?, missing]
      cases parent with
      | none => exact .pure fun d hd => ⟨hd.2, ⟨unnamed d hd, nofun⟩, nofun⟩
      | some p =>
          show Leaves _ (some <$> Command.resolve p) _ _
          refine map ((resolves p ?_).mono (fun _ => id) ?_)
          · exact fun d hd missing => ⟨hd.2.same, fun applies =>
              hd.2.missing missing (applies.2 p rfl)⟩
          · rintro id d ⟨hd, n, found, rfl⟩
            refine ⟨hd.2, ⟨unnamed d hd, ?_⟩, ?_⟩
            · rintro above ⟨⟩
              exact ⟨n, hd.2.found found⟩
            · rintro id ⟨⟩
              exact ⟨n, hd.2.get found⟩
    refine looked.bind fun above => ?_
    have created : Leaves (fun d => Begun c d ∧ (Command.createSchema name parent).Applies c ∧
          ∀ id, above = some id → ∃ m, d.get id = .ok m)
        (Action.create name none : Action σ NodeId)
        (fun child d => (Command.createSchema name parent).Applies c ∧
          ∀ id, above = some id → (d.attach id child).1 = .ok ())
        (Refused (.createSchema name parent) c) := by
      refine ofChange fun d hd => ⟨hd.2.1, fun id habove => ?_⟩
      obtain ⟨m, live⟩ := hd.2.2 id habove
      exact hd.1.grown.sound.attach_insertNode live name none none
    refine created.bind fun child => ?_
    cases above with
    | none => exact .pure fun d hd => hd.1
    | some id =>
        refine ofCatalog (fun d _ hd _ => hd.1) fun d e hd failed => ?_
        rw [hd.2 id rfl] at failed
        cases failed

theorem run_addTable (backend : Backend σ) (now : Instant) (schema : String) (t : Table) :
    Leaves (Begun c) ((Command.addTable schema t).run backend now)
      (fun _ _ => (Command.addTable schema t).Applies c) (Refused (.addTable schema t) c) := by
  refine (resolves schema fun d hd missing => ⟨hd.same, hd.missing missing⟩).bind fun id => ?_
  refine ofChange ?_
  rintro d ⟨hd, n, found, -⟩
  exact ⟨n, hd.found found⟩

theorem run_dropTable (backend : Backend σ) (now : Instant) (schema name : String) :
    Leaves (Begun c) ((Command.dropTable schema name).run backend now)
      (fun _ _ => (Command.dropTable schema name).Applies c)
      (Refused (.dropTable schema name) c) := by
  have unfound (d : Catalog) (hd : Begun c d) (missing : d.byName? schema = none) :
      Refused (.dropTable schema name) c d :=
    ⟨hd.same, fun ⟨n, found, _⟩ => hd.missing missing ⟨n, found⟩⟩
  refine (resolves schema unfound).bind fun id => map (ofCatalog ?_ ?_)
  · rintro d t ⟨hd, n, found, rfl⟩ dropped
    rcases hd.grown.drop_cases (hd.get found) name with ⟨listed, -⟩ | ⟨-, refused⟩
    · exact ⟨n, hd.found found, listed⟩
    · rw [refused] at dropped
      cases dropped
  · rintro d e ⟨hd, n, found, rfl⟩ failed
    rcases hd.grown.drop_cases (hd.get found) name with ⟨-, t, dropped⟩ | ⟨unlisted, refused⟩
    · rw [dropped] at failed
      cases failed
    · rw [refused]
      refine ⟨hd.same, ?_⟩
      rintro ⟨m, found', listed⟩
      rw [hd.found found] at found'
      cases found'
      exact unlisted listed

theorem run_refresh (backend : Backend σ) (now : Instant) (schema : String) :
    Leaves (Begun c) ((Command.refresh schema).run backend now)
      (fun _ _ => (Command.refresh schema).Applies c) (Refused (.refresh schema) c) := by
  refine (resolves schema fun d hd missing => ⟨hd.same, hd.missing missing⟩).bind fun id => ⟨?_, ?_⟩
  · rintro f f' - ⟨hd, n, found, -⟩ -
    exact ⟨n, hd.found found⟩
  · rintro f f' e ⟨hd, n, found, rfl⟩ failed
    have live := hd.get found
    simp [Action.refresh, Federation.refresh, live] at failed

theorem run_outcome (backend : Backend σ) (now : Instant) (command : Command) :
    Leaves (Begun c) (command.run backend now) (fun _ _ => command.Applies c)
      (Refused command c) := by
  cases command with
  | createSchema name parent => exact run_createSchema backend now name parent
  | addTable schema t => exact run_addTable backend now schema t
  | dropTable schema name => exact run_dropTable backend now schema name
  | refresh schema => exact run_refresh backend now schema

/-- A command succeeds when it applies, and else changes no node. -/
theorem apply_outcome (backend : Backend σ) (now : Instant) (command : Command)
    (grown : c.Grown) :
    Leaves (fun d => c = d) (command.apply backend now) (fun _ _ => command.Applies c)
      (Refused command c) := by
  refine (log ?_).bind fun _ => run_outcome backend now command
  rintro d rfl
  refine ⟨⟨rfl, rfl⟩, Catalog.Step.grown (.touch (.log ?_)) grown⟩
  simp [LogEntry.isAttachment, toString, List.isPrefixOf]

end Action.Leaves

/-! ### Runs of commands -/

namespace Run

variable {σ : Type} {r : Run σ} {f : Federation σ}

/-- Nothing is done besides giving commands. -/
def Commanded (r : Run σ) : Prop :=
  ∀ op ∈ r.operations, ∃ now command, op = .apply now command

theorem Commanded.building (h : r.Commanded) : r.Building := by
  intro parent child asked
  obtain ⟨now, command, heq⟩ := h _ asked
  cases heq

theorem Commanded.distinctNames (h : r.Commanded) (visited : r.Visits f) :
    f.catalog.DistinctNames := by
  refine visits_induction (P := fun f => f.catalog.DistinctNames) List.nodup_nil ?_ visited
  intro f op f' performs hop named
  obtain ⟨i, hi, -⟩ := performs.place
  obtain ⟨now, command, rfl⟩ := h op (List.mem_of_getElem? hi)
  obtain ⟨answer, hanswer, rfl⟩ := Option.map_eq_some_iff.mp hop
  exact (Action.Leaves.apply_distinctNames r.backend now command).always (fun _ _ => id)
    (fun _ => id) named hanswer

/-- Commands are all or nothing. When a catalog is given nothing but commands, its live schemas have
different names, so that a name stands for one of them at most; and every command ends, succeeds
exactly when it applies, and leaves all nodes as they were when it fails. -/
theorem commands_all_or_nothing (commanded : r.Commanded) (visited : r.Visits f) :
    f.catalog.DistinctNames ∧
    (∀ name n, f.catalog.byName? name = some n ↔
      n ∈ f.catalog.liveNodes ∧ n.name = Text.lowercase name) ∧
    ∀ (now : Instant) (command : Command), ∃ answer f',
      command.apply r.backend now f = some (answer, f') ∧
      (answer = .ok () ↔ command.Applies f.catalog) ∧
      (answer ≠ .ok () → Catalog.Untouched f.catalog f'.catalog) := by
  have named := commanded.distinctNames visited
  have grown := commanded.building.grown visited
  refine ⟨named, fun name n => named.byName?_eq_some_iff, fun now command => ?_⟩
  obtain ⟨answer, f', h⟩ :=
    (Action.Stepwise.apply r.backend now command).ends trivial grown.acyclic
  have outcome := Action.Leaves.apply_outcome r.backend now command grown
  refine ⟨answer, f', h, ?_⟩
  cases answer with
  | ok => exact ⟨iff_of_true rfl (outcome.holds rfl h), fun failed => absurd rfl failed⟩
  | error e =>
      have refused := outcome.fails rfl h
      exact ⟨iff_of_false nofun refused.inapplicable, fun _ => refused.same⟩

/-- A schema below another, with a table that both see. -/
def staffed : Run Unit where
  backend := silent
  sources := ()
  operations := [.apply ⟨0, 0⟩ (.createSchema "Root" none),
    .apply ⟨0, 0⟩ (.createSchema "sales" (some "ROOT")),
    .apply ⟨0, 0⟩ (.addTable "sales" (.new "Orders")), .apply ⟨0, 0⟩ (.refresh "root")]

theorem staffed_commanded : staffed.Commanded := by
  simp [Commanded, staffed]

/-- A second schema of a name is refused, and so is one below a schema that is not there. -/
theorem commands_all_or_nothing_staffed : staffed.Commanded ∧ ∃ f, staffed.Visits f ∧
    f.catalog.liveNodes.map (fun n => (n.name, n.tables)) =
      [("root", ["orders"]), ("sales", ["orders"])] ∧
    f.catalog.DistinctNames ∧ ∃ answer f',
      (Command.createSchema "SALES" (some "desk")).apply staffed.backend ⟨0, 0⟩ f =
        some (answer, f') ∧
      answer ≠ .ok () ∧ Catalog.Untouched f.catalog f'.catalog := by
  have computed : (staffed.after staffed.operations).map (fun f =>
      (f.catalog.liveNodes.map fun n => (n.name, n.tables),
        (f.catalog.byName? "SALES").isSome)) =
      some ([("root", ["orders"]), ("sales", ["orders"])], true) := by
    decide +kernel
  obtain ⟨f, hf, hfound⟩ := Option.map_eq_some_iff.mp computed
  obtain ⟨hlisted, htaken⟩ := Prod.mk.injEq .. ▸ hfound
  have visited : staffed.Visits f := ⟨_, List.prefix_rfl, hf⟩
  obtain ⟨named, -, outcomes⟩ := commands_all_or_nothing staffed_commanded visited
  obtain ⟨answer, f', h, applies, unchanged⟩ :=
    outcomes ⟨0, 0⟩ (.createSchema "SALES" (some "desk"))
  have refused : answer ≠ .ok () := by
    intro succeeded
    rw [(applies.mp succeeded).1] at htaken
    cases htaken
  exact ⟨staffed_commanded, f, visited, hlisted, named, answer, f', h, refused, unchanged refused⟩

end Run

end SchemaCatalog
