import SchemaCatalog.Proofs.Catalog.Later
import SchemaCatalog.Proofs.Catalog.Ownership

/-!
What can be said of the entries of all nodes. An entry is written by the node that owns it and then
copied from node to node, name, owner and table together; so what holds of the tables that callers
add and of those that sources describe, and goes on to hold, holds of every entry in every index.
-/

namespace SchemaCatalog

open Catalog (Later Routine Attached)

theorem Directory.Edits.entry {offered : String → NodeId → Table → Prop} {d e : Directory}
    (h : Edits offered d e) {name : String} {owner : NodeId} {t : Table}
    (found : e.lookup? name = some (owner, t)) :
    d.lookup? name = some (owner, t) ∨ offered name owner t := by
  induction h with
  | refl => exact .inl found
  | @register e key owner' t' _ offer ih =>
      rw [Directory.lookup?_register] at found
      split at found
      · rename_i same
        cases found
        exact .inr (same ▸ offer)
      · exact ih found
  | unregister key _ ih =>
      rw [Directory.lookup?_unregister] at found
      split at found
      · cases found
      · exact ih found

theorem Node.Gives.entry {child : Node} {name : String} {owner : NodeId} {t : Table}
    (h : child.Gives name owner t) (aligned : child.directory.Aligned) :
    child.directory.lookup? name = some (owner, t) := by
  obtain ⟨holds, rfl⟩ := h
  obtain ⟨⟨owner, t⟩, entry, rfl⟩ :=
    Option.map_eq_some_iff.mp ((aligned.tables_get? name).symm.trans holds)
  rw [aligned.owners_get?, entry]
  rfl

namespace Catalog

variable {E : Catalog → String → NodeId → Table → Prop} {c d : Catalog}

/-- All entries of all nodes are such. The rest keeps an owner from being guessed when an entry is
taken over. -/
structure Vouched (E : Catalog → String → NodeId → Table → Prop) (c : Catalog) : Prop where
  ids : ∀ id n, c.node? id = some n → n.id = id
  aligned : c.Aligned
  entries : ∀ id n name owner t, c.node? id = some n →
    n.directory.lookup? name = some (owner, t) → E c name owner t

/-- What is said of entries goes on to hold, and holds of those that sources describe. -/
structure Vouches {σ : Type} (backend : Backend σ)
    (E : Catalog → String → NodeId → Table → Prop) : Prop where
  later : ∀ {c d : Catalog} {name : String} {owner : NodeId} {t : Table}, Later c d →
    E c name owner t → E d name owner t
  described : ∀ {c : Catalog} {k : Node} {source : SourceId} {listed : String} {t : Table}
    {world : σ}, c.node? k.id = some k → k.source = some source →
      k.allows (Text.lowercase listed) →
      (backend.describe source listed world).1 = .ok (some t) →
        E c (Text.lowercase listed) k.id (k.adopt listed t)

namespace Vouched

section Reading

variable (h : c.Vouched E) {id : NodeId} {n : Node} {name : String}

include h

theorem of_table (found : c.node? id = some n) {t : Table}
    (holds : n.directory.tables.get? name = some t) :
    ∃ owner, n.directory.owners.get? name = some owner ∧ E c name owner t := by
  obtain ⟨⟨owner, t⟩, entry, rfl⟩ := Option.map_eq_some_iff.mp
    (((h.aligned id n found).tables_get? name).symm.trans holds)
  exact ⟨owner, (Directory.lookup?_eq_some_iff.mp entry).1,
    h.entries id n name owner t found entry⟩

theorem of_owner (found : c.node? id = some n) {owner : NodeId}
    (recorded : n.directory.owners.get? name = some owner) : ∃ t, E c name owner t := by
  obtain ⟨⟨owner, t⟩, entry, rfl⟩ := Option.map_eq_some_iff.mp
    (((h.aligned id n found).owners_get? name).symm.trans recorded)
  exact ⟨t, h.entries id n name owner t found entry⟩

end Reading

theorem of_edits (h : c.Vouched E) (offered : String → NodeId → Table → Prop)
    (kept : ∀ {name owner t}, E c name owner t → E d name owner t)
    (offers : ∀ name owner t, offered name owner t → E d name owner t) (later : Later c d)
    (edits : ∀ id n', d.node? id = some n' →
      ∃ n, c.node? id = some n ∧ Directory.Edits offered n.directory n'.directory) :
    d.Vouched E where
  ids id n' found' := by
    obtain ⟨n, found, -⟩ := edits id n' found'
    obtain ⟨m, hm, same⟩ := later.kept id n found
    rw [found'] at hm
    cases hm
    exact (congrArg (·.id) same).trans (h.ids id n found)
  aligned id n' found' := by
    obtain ⟨n, found, writes⟩ := edits id n' found'
    exact writes.aligned (h.aligned id n found)
  entries id n' name owner t found' holds := by
    obtain ⟨n, found, writes⟩ := edits id n' found'
    rcases writes.entry holds with before | offer
    · exact kept (h.entries id n name owner t found before)
    · exact offers name owner t offer

variable {σ : Type} {backend : Backend σ}

section Steps

variable (laws : Vouches backend E) (h : c.Vouched E)

include laws h

theorem modify (offered : String → NodeId → Table → Prop)
    (offers : ∀ name owner t, offered name owner t → E c name owner t) {id : NodeId}
    {change : Node → Node} (bare : ∀ n, (change n).bare = n.bare)
    (edits : ∀ n, c.node? id = some n →
      Directory.Edits offered n.directory (change n).directory) :
    (c.modify id change).Vouched E := by
  have later : Later c (c.modify id change) := .of_bareNodes (bareNodes_modify c id bare) (.inl rfl)
  exact h.of_edits offered (laws.later later)
    (fun _ _ _ offer => laws.later later (offers _ _ _ offer)) later
    fun _ _ found => @edits_modify c (fun _ => offered) id change edits _ _ found

theorem untouched (later : Later c d) (same : ∀ id, d.node? id = c.node? id) : d.Vouched E :=
  h.of_edits (fun _ _ _ => False) (laws.later later) nofun later
    fun id n found => ⟨n, same id ▸ found, .refl _⟩

theorem attached {parent child : NodeId} {m n : Node} (attached : Attached c parent child m n d) :
    d.Vouched E := by
  refine h.of_edits n.Gives (laws.later attached.later) (fun name owner t gives => ?_)
    attached.later fun id k' found => ?_
  · exact laws.later attached.later (h.entries child n name owner t attached.child_found
      (gives.entry (h.aligned child n attached.child_found)))
  · obtain ⟨k, hk, edits⟩ := attached.edits found
    exact ⟨k, hk, edits.mono fun _ _ _ offer => offer.2⟩

theorem insertNode (name : String) (config : Option SourceConfig) (source : Option SourceId) :
    (c.insertNode name config source).2.Vouched E where
  ids id n found := by
    rcases node?_insertNode found with old | ⟨-, hid, -⟩
    · exact h.ids id n old
    · exact hid
  aligned := Step.aligned (.create name config source) h.aligned
  entries id n key owner t found holds := by
    rcases node?_insertNode found with old | ⟨-, -, -, -, hempty⟩
    · exact laws.later (.insertNode c name config source) (h.entries id n key owner t old holds)
    · rw [hempty] at holds
      cases holds

end Steps

end Vouched

/-- Entries are copied, so only new tables have to be looked at. -/
theorem Vouches.routine {σ : Type} {backend : Backend σ} (laws : Vouches backend E) :
    Routine backend (Vouched E) where
  log other h := h.untouched laws (Touch.log other).later fun _ => rfl
  shutdown h := h.untouched laws Touch.shutdown.later fun _ => rfl
  describe {c id n source listed t world} found hsource allowed answer h := by
    have own : c.node? n.id = some n := (h.ids id n found).symm ▸ found
    refine h.modify laws (fun name owner t' => name = Text.lowercase listed ∧
      owner = n.id ∧ t' = n.adopt listed t) ?_ (fun n => n.bare_register _ _ _)
      fun k _ => (Directory.Edits.refl _).register ⟨rfl, rfl, rfl⟩
    rintro name owner t' ⟨rfl, rfl, rfl⟩
    exact laws.described own hsource allowed answer
  absorb {c id child m n key} hm listed below h := by
    refine h.modify laws n.Gives (fun name owner t gives => ?_)
      (fun k => k.bare_absorb n) fun k hk => ?_
    · exact h.entries child n name owner t below (gives.entry (h.aligned child n below))
    · rw [hm] at hk
      cases hk
      exact m.edits_absorb n
  stamp id now h := h.modify laws (fun _ _ _ => False) nofun (fun k => k.bare_stamp now)
    fun _ _ => .refl _
  drop {c} id name h := by
    have later : Later c (c.drop id name).2 := (Touch.drop id name).later
    exact h.of_edits (fun _ _ _ => False) (laws.later later) nofun later fun _ _ found =>
      @Erasures.edits (fun _ _ _ _ => False) _ _ _ (erasures_drop c id name) _ _ found
  create name config source h := h.insertNode laws name config source
  attach attached h := h.attached laws attached

/-! ### Tables that are added by hand -/

theorem node?_addTable {id : NodeId} {n : Node} (found : c.node? id = some n) (t : Table)
    (x : NodeId) : (c.addTable id t).node? x =
      if x = id then some (n.register t.name id (n.claim t)) else c.node? x := by
  have hname : (n.claim t).name = t.name := n.name_partitioned t.assignId
  simp only [addTable, found, node?_modify, hname]
  by_cases hx : x = id
  · subst hx
    show (if x = x then (c.node? x).map _ else _) = _
    rw [found, if_pos rfl, if_pos rfl, Option.map_some]
  · rw [if_neg (Ne.symm hx), if_neg hx]
    rfl

end Catalog

variable {σ : Type}

theorem Operation.Adds.exists_node {op : Operation σ} {c : Catalog} {id : NodeId} {t : Table}
    (h : op.Adds c id t) (sound : c.Sound) : ∃ n, c.node? id = some n := by
  cases h with
  | directly found => exact ⟨_, found⟩
  | @byName _ now schema n t found =>
      obtain ⟨i, hi⟩ := List.mem_iff_getElem?.mp
        (List.mem_of_mem_drop (List.mem_of_find?_eq_some found))
      have hid : n.id = ⟨i⟩ := sound.ids ⟨i⟩ n hi
      exact ⟨n, hid ▸ hi⟩

theorem Operation.exists_perform_of_adds (backend : Backend σ) {f : Federation σ}
    {op : Operation σ} {id : NodeId} {t : Table} (h : op.Adds f.catalog id t) :
    ∃ f', op.perform backend f = some f' ∧
      ∀ x, f'.catalog.node? x = (f.catalog.addTable id t).node? x := by
  cases h with
  | directly => exact ⟨_, rfl, fun _ => rfl⟩
  | @byName _ now schema n t found =>
      let logged : Federation σ :=
        f.log .debug s!"applying {(Command.addTable schema t).display}"
      have found' : logged.catalog.byName? schema = some n := found
      refine ⟨{ logged with catalog := logged.catalog.addTable n.id t }, ?_, fun x => ?_⟩
      · have reported : (Action.log .debug
            s!"applying {(Command.addTable schema t).display}" : Action σ Unit) f =
            some (.ok (), logged) := rfl
        rw [perform, Command.apply, Action.bind_of_ok reported, Command.run,
          Action.bind_of_ok (Action.resolve_of_found found')]
        rfl
      · cases hn : f.catalog.node? n.id with
        | some k =>
            have hn' : logged.catalog.node? n.id = some k := hn
            rw [Catalog.node?_addTable hn]
            exact Catalog.node?_addTable hn' t x
        | none =>
            have hn' : logged.catalog.node? n.id = none := hn
            simp only [Catalog.addTable, hn, hn']
            rfl

namespace Run

open Catalog (Vouched Vouches)

variable {r : Run σ} {f : Federation σ} {E : Catalog → String → NodeId → Table → Prop}

theorem node?_of_adds {f f' : Federation σ} {op : Operation σ} {id : NodeId} {t : Table} {n : Node}
    (adds : op.Adds f.catalog id t) (hnext : op.perform r.backend f = some f')
    (found : f.catalog.node? id = some n) (x : NodeId) : f'.catalog.node? x =
      if x = id then some (n.register t.name id (n.claim t)) else f.catalog.node? x := by
  obtain ⟨g, hg, same⟩ := Operation.exists_perform_of_adds r.backend adds
  rw [hnext] at hg
  cases hg
  rw [same, Catalog.node?_addTable found]

/-- What is said of entries holds in all states of a run if it holds of the tables that are added
by hand. -/
theorem vouched (laws : Vouches r.backend E)
    (added : ∀ f op id n t, r.Performs f op → op.Adds f.catalog id t →
      f.catalog.node? id = some n → E f.catalog t.name id (n.claim t))
    (visited : r.Visits f) : f.catalog.Vouched E := by
  refine visits_induction (P := fun f => f.catalog.Vouched E) ?_ ?_ visited
  · refine ⟨nofun, Catalog.aligned_empty _, fun id n name owner t found => ?_⟩
    cases found
  · intro f op f' hop hnext h
    by_cases aided : ∃ id t, op.Adds f.catalog id t
    · obtain ⟨id, t, adds⟩ := aided
      obtain ⟨n, found⟩ := adds.exists_node (Run.sound hop.visits)
      have later : Later f.catalog f'.catalog := by
        refine (Operation.steps_of_perform ?_ hnext).later
        rintro parent child rfl
        cases adds
      refine h.of_edits (fun name owner t' => name = t.name ∧ owner = id ∧ t' = n.claim t)
        (laws.later later) ?_ later ?_
      · rintro name owner t' ⟨hname, howner, htable⟩
        rw [hname, howner, htable]
        exact laws.later later (added f op id n t hop adds found)
      · intro x k' found'
        rw [node?_of_adds adds hnext found] at found'
        split at found'
        · rename_i here
          cases found'
          exact ⟨n, here ▸ found, (Directory.Edits.refl _).register ⟨rfl, rfl, rfl⟩⟩
        · exact ⟨k', found', .refl _⟩
    · exact Operation.maintains laws.routine (fun id t adds => aided ⟨id, t, adds⟩) hnext h

end Run

end SchemaCatalog
