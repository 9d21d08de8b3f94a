import SchemaCatalog.Proofs.Catalog.Frame
import SchemaCatalog.Proofs.Catalog.Transcript

/-!
What a node gets from its own source. Of the spellings that are listed for a name the first that is
described counts, and a spelling that is not described is in the way of no other.
-/

namespace SchemaCatalog

namespace Answers

variable (answers : Answers)

/-- The table that a node gets for a name out of one listed spelling. -/
def offer (n : Node) (source : SourceId) (name listed : String) : Option Table :=
  if Text.lowercase listed = name ∧ n.allows name then
    match answers.describe source listed with
    | .ok (some t) => some (n.adopt listed t)
    | _ => none
  else none

/-- The table that the own source of a node supplies under a name. -/
def supply (n : Node) (name : String) : Option Table :=
  n.source.bind fun source => (answers.list source).findSome? (answers.offer n source name)

/-- The own source of a node supplies a name when it lists and describes a spelling of it, and the
node allows the name. -/
def Supplies (n : Node) (name : String) : Prop :=
  ∃ source listed t, n.source = some source ∧ listed ∈ answers.list source ∧
    Text.lowercase listed = name ∧ n.allows name ∧ answers.describe source listed = .ok (some t)

/-- The first listed spelling of a name that the own source of a node describes. -/
def DescribedFirst (n : Node) (name listed : String) (t : Table) : Prop :=
  ∃ source before after, n.source = some source ∧
    answers.list source = before ++ listed :: after ∧ Text.lowercase listed = name ∧
    answers.describe source listed = .ok (some t) ∧
    ∀ other ∈ before, Text.lowercase other = name →
      ∀ t', answers.describe source other ≠ .ok (some t')

variable {answers} {m n : Node}

theorem offer_eq_some_iff {source : SourceId} {name listed : String} {t : Table} :
    answers.offer n source name listed = some t ↔ Text.lowercase listed = name ∧ n.allows name ∧
      ∃ described, answers.describe source listed = .ok (some described) ∧
        n.adopt listed described = t := by
  unfold offer
  split
  · rename_i h
    rcases answers.describe source listed with e | _ | described <;> simp [h]
  · rename_i h
    simp only [reduceCtorEq, false_iff]
    rintro ⟨hname, allowed, -⟩
    exact h ⟨hname, allowed⟩

theorem isSome_supply_iff {name : String} :
    (answers.supply n name).isSome ↔ answers.Supplies n name := by
  unfold supply Supplies
  constructor
  · intro h
    obtain ⟨t, ht⟩ := Option.isSome_iff_exists.mp h
    obtain ⟨source, hsource, hfind⟩ := Option.bind_eq_some_iff.mp ht
    obtain ⟨listed, hlisted, hoffer⟩ := List.exists_of_findSome?_eq_some hfind
    obtain ⟨hname, allowed, described, hdescribed, -⟩ := offer_eq_some_iff.mp hoffer
    exact ⟨source, listed, described, hsource, hlisted, hname, allowed, hdescribed⟩
  · rintro ⟨source, listed, t, hsource, hlisted, hname, allowed, hdescribed⟩
    rw [hsource, Option.bind_some, List.findSome?_isSome_iff]
    refine ⟨listed, hlisted, Option.isSome_iff_exists.mpr ⟨n.adopt listed t, ?_⟩⟩
    exact offer_eq_some_iff.mpr ⟨hname, allowed, t, hdescribed, rfl⟩

theorem describedFirst_of_supply {name : String} {t : Table}
    (h : answers.supply n name = some t) :
    ∃ listed described, answers.DescribedFirst n name listed described ∧
      t = n.adopt listed described := by
  obtain ⟨source, hsource, hfind⟩ := Option.bind_eq_some_iff.mp h
  obtain ⟨before, listed, after, hlist, hoffer, skipped⟩ := List.findSome?_eq_some_iff.mp hfind
  obtain ⟨hname, allowed, described, hdescribed, rfl⟩ := offer_eq_some_iff.mp hoffer
  refine ⟨listed, described, ⟨source, before, after, hsource, hlist, hname, hdescribed, ?_⟩, rfl⟩
  intro other hother hname' t' hdescribed'
  have offered : answers.offer n source name other = some (n.adopt other t') :=
    offer_eq_some_iff.mpr ⟨hname', allowed, t', hdescribed', rfl⟩
  rw [skipped other hother] at offered
  cases offered

theorem offer_of_bare (h : m.bare = n.bare) (source : SourceId) :
    answers.offer m source = answers.offer n source := by
  show answers.offer m.bare source = answers.offer n.bare source
  rw [h]

theorem supply_of_bare (h : m.bare = n.bare) : answers.supply m = answers.supply n := by
  show answers.supply m.bare = answers.supply n.bare
  rw [h]

end Answers

namespace Catalog

variable {c d : Catalog}

/-- The entry that the own source of a node supplies under a name. -/
def supply (c : Catalog) (answers : Answers) (id : NodeId) (name : String) :
    Option (NodeId × Table) :=
  (c.node? id).bind fun n => (answers.supply n name).map (id, ·)

theorem supply_of_node? {id : NodeId} {n : Node} (found : c.node? id = some n) (answers : Answers)
    (name : String) : c.supply answers id name = (answers.supply n name).map (id, ·) := by
  rw [supply, found, Option.bind_some]

theorem supply_of_bareNodes (same : d.bareNodes = c.bareNodes) (answers : Answers) :
    d.supply answers = c.supply answers := by
  funext id name
  rcases node?_cases_of_bareNodes same id with ⟨missing, missing'⟩ | ⟨n, n', found, found', hbare⟩
  · rw [supply, supply, missing, missing']
  · rw [supply_of_node? found, supply_of_node? found', Answers.supply_of_bare hbare]

end Catalog

namespace Federation

open Catalog (Sweeps)

variable {σ : Type} {backend : Backend σ} {answers : Answers} {good : σ → Prop}

theorem lookup?_settle {f : Federation σ} {id : NodeId} {n : Node}
    (found : f.catalog.node? id = some n) (own : n.id = id) (listed : String)
    (answer : Except CatalogError (Option Table)) (sources : σ) (name : String) :
    (f.settle n listed answer sources).2.catalog.lookup? id name =
      match answer with
      | .ok (some t) =>
        if name = Text.lowercase listed then some (id, n.adopt listed t)
        else f.catalog.lookup? id name
      | _ => f.catalog.lookup? id name := by
  unfold settle
  split
  · rfl
  · rfl
  · rename_i t
    have after : (f.catalog.modify n.id
        (·.register (Text.lowercase listed) n.id (n.adopt listed t))).node? id =
        some (n.register (Text.lowercase listed) id (n.adopt listed t)) := by
      rw [own, Catalog.node?_modify_self, found, Option.map_some]
    show (f.catalog.modify n.id _).lookup? id name = _
    rw [Catalog.lookup?_of_node? after, Node.register, Directory.lookup?_register,
      Catalog.lookup?_of_node? found]

theorem lookup?_report (n : Node) (listed : String)
    (answer : Except CatalogError Table × Federation σ) (id : NodeId) (name : String) :
    (report n listed answer).catalog.lookup? id name = answer.2.catalog.lookup? id name := by
  obtain ⟨⟨⟩, _⟩ := answer <;> rfl

theorem sources_report (n : Node) (listed : String)
    (answer : Except CatalogError Table × Federation σ) :
    (report n listed answer).sources = answer.2.sources := by
  obtain ⟨⟨⟩, _⟩ := answer <;> rfl

/-- What a node sees after a listed spelling has been loaded, was passed over, or could not be
loaded. -/
theorem lookup?_loadNew {f : Federation σ} {id : NodeId} {n : Node} {source : SourceId}
    (found : f.catalog.node? id = some n) (own : n.id = id) (hsource : n.source = some source)
    (aligned : n.directory.Aligned) {listed : String}
    (described : (backend.describe source listed f.sources).1 = answers.describe source listed)
    (name : String) :
    (loadNew backend id f listed).catalog.lookup? id name =
      (f.catalog.lookup? id name).or ((answers.offer n source name listed).map (id, ·)) := by
  by_cases new : n.knows (Text.lowercase listed) = false ∧ n.allows (Text.lowercase listed) = true
  · obtain ⟨unknown, allowed⟩ := new
    have announced : (f.announce n listed).catalog.node? id = some n := found
    have described' : (backend.describe source listed (f.announce n listed).sources).1 =
        answers.describe source listed := described
    rw [loadNew_eq backend found unknown allowed, lookup?_report, loadListed_eq backend _ hsource,
      described', lookup?_settle announced own]
    show (match answers.describe source listed with
      | .ok (some t) =>
        if name = Text.lowercase listed then some (id, n.adopt listed t)
        else f.catalog.lookup? id name
      | _ => f.catalog.lookup? id name) = _
    by_cases hname : Text.lowercase listed = name
    · subst hname
      have missing : f.catalog.lookup? id (Text.lowercase listed) = none := by
        rw [Catalog.lookup?_of_node? found]
        exact aligned.lookup?_of_unknown unknown
      rw [missing, Option.none_or, Answers.offer, if_pos ⟨rfl, allowed⟩]
      rcases answers.describe source listed with e | _ | t <;> simp
    · rw [Answers.offer, if_neg fun h => hname h.1, Option.map_none, Option.or_none]
      rcases answers.describe source listed with e | _ | t <;> simp [Ne.symm hname]
  · have passed : ¬ ∃ m, f.catalog.node? id = some m ∧
        m.knows (Text.lowercase listed) = false ∧ m.allows (Text.lowercase listed) = true := by
      rintro ⟨m, hm, h⟩
      rw [found] at hm
      cases hm
      exact new h
    rw [loadNew_of_passed backend passed]
    cases hoffer : answers.offer n source name listed with
    | none => rw [Option.map_none, Option.or_none]
    | some t =>
        obtain ⟨rfl, allowed, -⟩ := Answers.offer_eq_some_iff.mp hoffer
        have known : n.directory.knows (Text.lowercase listed) := by
          simpa [allowed, Node.knows] using new
        obtain ⟨entry, held⟩ := Option.isSome_iff_exists.mp ((aligned.knows_iff _).mp known)
        rw [Catalog.lookup?_of_node? found, held, Option.some_or]

theorem good_loadNew {f : Federation σ} {id : NodeId} {n : Node} {source : SourceId}
    (found : f.catalog.node? id = some n) (hsource : n.source = some source) {listed : String}
    (start : good f.sources) (asked : good (backend.describe source listed f.sources).2) :
    good (loadNew backend id f listed).sources := by
  by_cases new : n.knows (Text.lowercase listed) = false ∧ n.allows (Text.lowercase listed) = true
  · rw [loadNew_eq backend found new.1 new.2, loadListed_eq backend _ hsource, sources_report,
      sources_settle]
    exact asked
  · rw [loadNew_of_passed backend]
    · exact start
    · rintro ⟨m, hm, h⟩
      rw [found] at hm
      cases hm
      exact new h

theorem lookup?_loadAll {f : Federation σ} {id : NodeId} {m n : Node} {source : SourceId}
    (gives : backend.GivesAt answers source good) (found : f.catalog.node? id = some m)
    (same : m.bare = n.bare) (own : n.id = id) (hsource : n.source = some source)
    (aligned : f.catalog.Aligned) (start : good f.sources) (names : List String) :
    good (names.foldl (loadNew backend id) f).sources ∧
      ∀ name, (names.foldl (loadNew backend id) f).catalog.lookup? id name =
        (f.catalog.lookup? id name).or
          ((names.findSome? (answers.offer n source name)).map (id, ·)) := by
  induction names generalizing f m with
  | nil =>
      refine ⟨start, fun name => ?_⟩
      rw [List.foldl_nil, List.findSome?_nil, Option.map_none, Option.or_none]
  | cons listed names ih =>
      have swept : Sweeps (fun _ => True) f.catalog (loadNew backend id f listed).catalog :=
        sweeps_loadNew backend trivial f listed
      obtain ⟨m', found', hbare⟩ := Catalog.node?_of_bareNodes swept.touches.bareNodes.symm found
      have hsource' : m.source = some source := (Node.source_eq_of_bare same).trans hsource
      obtain ⟨described, asked⟩ := gives.describe listed f.sources start
      obtain ⟨after, rest⟩ := ih found' (hbare.trans same) (swept.aligned aligned)
        (good_loadNew found hsource' start asked)
      refine ⟨after, fun name => ?_⟩
      have first := lookup?_loadNew found ((Node.id_eq_of_bare same).trans own) hsource'
        (aligned id m found) described name
      rw [List.foldl_cons, rest, first, Answers.offer_of_bare same, Option.or_assoc,
        List.findSome?_cons]
      cases answers.offer n source name listed <;> rfl

/-- After its own source has been asked, a node sees what it saw, and under all other names what the
source supplies. -/
theorem lookup?_loadOwn {f : Federation σ} {id : NodeId} {n : Node}
    (gives : ∀ source, n.source = some source → backend.GivesAt answers source good)
    (found : f.catalog.node? id = some n) (own : n.id = id) (aligned : f.catalog.Aligned)
    (start : good f.sources) : good (f.loadOwn backend n).sources ∧
      ∀ name, (f.loadOwn backend n).catalog.lookup? id name =
        (f.catalog.lookup? id name).or (f.catalog.supply answers id name) := by
  simp only [Catalog.supply_of_node? found, Answers.supply]
  cases hsource : n.source with
  | none =>
      rw [loadOwn_of_no_source backend hsource]
      exact ⟨start, fun name => by rw [Option.bind_none, Option.map_none, Option.or_none]⟩
  | some source =>
      have same := nodes_listing backend f source
      have listed : (f.listing backend source).2.catalog.node? id = some n := by
        rw [Catalog.node?, same]
        exact found
      have aligned' : (f.listing backend source).2.catalog.Aligned := by
        intro z k hk
        rw [Catalog.node?, same] at hk
        exact aligned z k hk
      obtain ⟨names, asked⟩ := (gives source hsource).list f.sources start
      have names' : (f.listing backend source).1 = answers.list source := names
      obtain ⟨after, entries⟩ :=
        lookup?_loadAll (gives source hsource) listed rfl own hsource aligned' asked
          (f.listing backend source).1
      rw [loadOwn_eq backend hsource, own]
      refine ⟨after, fun name => ?_⟩
      rw [entries, names', Option.bind_some, Catalog.lookup?_of_node? listed,
        Catalog.lookup?_of_node? found]

end Federation

end SchemaCatalog
