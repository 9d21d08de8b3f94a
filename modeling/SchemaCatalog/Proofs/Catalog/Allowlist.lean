import SchemaCatalog.Proofs.Catalog.Demand
import SchemaCatalog.Proofs.Catalog.Discovery

/-!
The list of tables to load. An entry lets in all tables of its name, in whatever case they are
listed, as long as lowercasing the entry itself changes ASCII letters alone. Such tables are not
passed over, neither by a refresh nor on demand; all others are.
-/

namespace SchemaCatalog

namespace Node

/-- The configuration of a node lets a table in: it has no list of tables to load, or an entry of
the table's name of which lowercasing changes ASCII letters alone. -/
def Admits (n : Node) (listed : String) : Prop :=
  ∀ conf, n.config = some conf → conf.tablesToLoad ≠ [] → ∃ entry ∈ conf.tablesToLoad,
    Text.lowercase entry = Text.lowercase listed ∧ Text.AsciiCased entry

theorem allows_lowercase_iff {n : Node} {listed : String} :
    n.allows (Text.lowercase listed) = true ↔ n.Admits listed := by
  have meets {entry : String} := Text.sameAsciiCase_iff_lowercase_eq (s := entry)
    (Text.lowercase_lowercase listed)
  unfold allows Admits
  cases n.config with
  | none => simp
  | some conf =>
      simp only [SourceConfig.allows, Bool.or_eq_true, List.isEmpty_iff, List.any_eq_true, meets,
        Option.some.injEq, forall_eq', ne_eq]
      exact Classical.or_iff_not_imp_left

theorem allows_eq_false_iff {n : Node} {listed : String} :
    n.allows (Text.lowercase listed) = false ↔ ¬ n.Admits listed := by
  rw [← allows_lowercase_iff, Bool.not_eq_true]

theorem admits_of_bare {m n : Node} (h : m.bare = n.bare) {listed : String}
    (admits : n.Admits listed) : m.Admits listed := by
  rw [← allows_lowercase_iff] at admits ⊢
  rwa [allows_eq_of_bare h]

end Node

/-! ### One visit to a source -/

namespace Catalog

variable {c d e : Catalog} {z : NodeId} {n : Node} {source : SourceId} {listed : String}
  {names : List String} {asked record : List Exchange}

/-- A listed spelling has not been passed over: the node had the name before or has it as a table of
its own now, or its source has been asked for a description and has given none. -/
def Tried (c d : Catalog) (z : NodeId) (source : SourceId) (asked : List Exchange)
    (listed : String) : Prop :=
  (∃ entry, c.lookup? z (Text.lowercase listed) = some entry) ∨
    (∃ t, d.lookup? z (Text.lowercase listed) = some (z, t)) ∨
      ∃ answer, .describe source listed answer ∈ asked ∧ ∀ t, answer ≠ .ok (some t)

/-- How the source of a node is asked about the names that it lists. No spelling of a table that the
node lets in is passed over, and no other is described. -/
structure Hearing (c d : Catalog) (z : NodeId) (n : Node) (source : SourceId)
    (names : List String) (asked : List Exchange) : Prop where
  described : ∀ exchange ∈ asked, ∃ listed ∈ names, n.Admits listed ∧
    ∃ answer, exchange = .describe source listed answer
  tried : ∀ listed ∈ names, n.Admits listed → Tried c d z source asked listed

/-- The source of a node has been asked for its list and then, in one go, about the names in it. -/
def Heard (c d : Catalog) (z : NodeId) (n : Node) (source : SourceId)
    (record : List Exchange) : Prop :=
  ∃ before names asked after, record = before ++ .list source names :: asked ++ after ∧
    Hearing c d z n source names asked

/-- Entries that are kept, and nothing new but tables of the node's own, keep what has been
tried. -/
theorem Tried.since (h : Tried d e z source asked listed)
    (grown : ∀ name entry, d.lookup? z name = some entry →
      c.lookup? z name = some entry ∨ entry.1 = z)
    (kept : ∀ name entry, d.lookup? z name = some entry → e.lookup? z name = some entry) :
    Tried c e z source asked listed := by
  rcases h with ⟨entry, held⟩ | own | undescribed
  · rcases grown _ _ held with before | own
    · exact .inl ⟨entry, before⟩
    · obtain ⟨owner, t⟩ := entry
      obtain rfl : owner = z := own
      exact .inr (.inl ⟨t, kept _ _ held⟩)
  · exact .inr (.inl own)
  · exact .inr (.inr undescribed)

theorem Tried.mono (h : Tried c d z source asked listed)
    (kept : ∀ name entry, d.lookup? z name = some entry → e.lookup? z name = some entry)
    {asked' : List Exchange} (sub : asked ⊆ asked') : Tried c e z source asked' listed := by
  rcases h with before | ⟨t, own⟩ | ⟨answer, mem, undescribed⟩
  · exact .inl before
  · exact .inr (.inl ⟨t, kept _ _ own⟩)
  · exact .inr (.inr ⟨answer, sub mem, undescribed⟩)

theorem Hearing.of_bare {m : Node} (h : Hearing c d z m source names asked)
    (same : m.bare = n.bare) : Hearing c d z n source names asked := by
  refine ⟨fun exchange mem => ?_, fun listed mem admitted => ?_⟩
  · obtain ⟨listed, hlisted, admitted, answer⟩ := h.described exchange mem
    exact ⟨listed, hlisted, Node.admits_of_bare same.symm admitted, answer⟩
  · exact h.tried listed mem (Node.admits_of_bare same admitted)

theorem Hearing.cons {asked' : List Exchange} (first : Hearing c d z n source [listed] asked)
    (rest : Hearing d e z n source names asked')
    (grown : ∀ name entry, d.lookup? z name = some entry →
      c.lookup? z name = some entry ∨ entry.1 = z)
    (kept : ∀ name entry, d.lookup? z name = some entry → e.lookup? z name = some entry) :
    Hearing c e z n source (listed :: names) (asked ++ asked') := by
  refine ⟨fun exchange mem => ?_, fun other mem admitted => ?_⟩
  · rcases List.mem_append.mp mem with mem | mem
    · obtain ⟨other, hother, answer⟩ := first.described exchange mem
      obtain rfl := List.mem_singleton.mp hother
      exact ⟨other, List.mem_cons_self, answer⟩
    · obtain ⟨other, hother, answer⟩ := rest.described exchange mem
      exact ⟨other, List.mem_cons_of_mem _ hother, answer⟩
  · rcases List.mem_cons.mp mem with rfl | mem
    · exact (first.tried other (List.mem_singleton_self _) admitted).mono kept
        (List.subset_append_left ..)
    · have tried := (rest.tried other mem admitted).since grown kept
      exact tried.mono (fun _ _ held => held) (List.subset_append_right ..)

theorem Heard.append (h : Heard c d z n source record) (more : List Exchange) :
    Heard c d z n source (record ++ more) := by
  obtain ⟨before, names, asked, after, rfl, hearing⟩ := h
  exact ⟨before, names, asked, after ++ more, List.append_assoc .., hearing⟩

theorem Heard.mono (h : Heard c d z n source record)
    (kept : ∀ name entry, d.lookup? z name = some entry → e.lookup? z name = some entry) :
    Heard c e z n source record := by
  obtain ⟨before, names, asked, after, rfl, hearing⟩ := h
  exact ⟨before, names, asked, after, rfl, hearing.described,
    fun listed mem admitted => (hearing.tried listed mem admitted).mono kept fun _ => id⟩

/-- A node that had not changed yet is heard as it was at first. -/
theorem Heard.of_unchanged {m : Node} (h : Heard d e z m source record) (same : m.bare = n.bare)
    (unchanged : ∀ name, d.lookup? z name = c.lookup? z name) : Heard c e z n source record := by
  obtain ⟨before, names, asked, after, rfl, hearing⟩ := h
  refine ⟨before, names, asked, after, rfl, (hearing.of_bare same).described,
    fun listed mem admitted => ?_⟩
  have tried := (hearing.of_bare same).tried listed mem admitted
  rwa [Tried, unchanged] at tried

end Catalog

namespace Federation

open Catalog (Sweeps Stamped KeptOrStamped Tried Hearing Heard)

variable {σ : Type} {backend : Backend σ} {f f' g g' : Federation (σ × List Exchange)}
  {id : NodeId} {m n : Node} {source : SourceId}

/-- One listed spelling is heard, and nothing but a table of the node's own comes in. -/
theorem hearing_loadNew (backend : Backend σ) (found : f.catalog.node? id = some n)
    (own : n.id = id) (hsource : n.source = some source) (aligned : n.directory.Aligned)
    (listed : String) :
    (∃ asked, (loadNew backend.recording id f listed).sources.2 = f.sources.2 ++ asked ∧
      Hearing f.catalog (loadNew backend.recording id f listed).catalog id n source [listed]
        asked) ∧
    ∀ name entry, (loadNew backend.recording id f listed).catalog.lookup? id name = some entry →
      f.catalog.lookup? id name = some entry ∨ entry.1 = id := by
  let answer := (backend.describe source listed f.sources.1).1
  let told : Answers := ⟨fun _ => [], fun _ _ => answer⟩
  have after (name : String) : (loadNew backend.recording id f listed).catalog.lookup? id name =
      (f.catalog.lookup? id name).or ((told.offer n source name listed).map (id, ·)) :=
    lookup?_loadNew found own hsource aligned rfl name
  refine ⟨?_, fun name entry holds => ?_⟩
  · by_cases new : n.knows (Text.lowercase listed) = false ∧
        n.allows (Text.lowercase listed) = true
    · refine ⟨[.describe source listed answer], ?_, fun exchange mem => ?_,
        fun other mem _ => ?_⟩
      · rw [loadNew_eq backend.recording found new.1 new.2, sources_report,
          loadListed_eq _ _ hsource, sources_settle]
        rfl
      · exact ⟨listed, List.mem_singleton_self _, Node.allows_lowercase_iff.mp new.2, answer,
          List.mem_singleton.mp mem⟩
      · obtain rfl := List.mem_singleton.mp mem
        have missing : f.catalog.lookup? id (Text.lowercase other) = none := by
          rw [Catalog.lookup?_of_node? found]
          exact aligned.lookup?_of_unknown new.1
        have loaded := after (Text.lowercase other)
        rw [missing, Option.none_or, Answers.offer, if_pos ⟨rfl, new.2⟩] at loaded
        by_cases described : ∃ t, answer = .ok (some t)
        · obtain ⟨t, ht⟩ := described
          simp only [told, ht] at loaded
          exact .inr (.inl ⟨_, loaded⟩)
        · exact .inr (.inr ⟨answer, List.mem_singleton_self _, fun t ht => described ⟨t, ht⟩⟩)
    · have passed : loadNew backend.recording id f listed = f := by
        refine loadNew_of_passed _ ?_
        rintro ⟨k, hk, fresh⟩
        rw [found] at hk
        cases hk
        exact new fresh
      rw [passed]
      refine ⟨[], (List.append_nil _).symm, fun _ mem => absurd mem List.not_mem_nil,
        fun other mem admitted => .inl ?_⟩
      obtain rfl := List.mem_singleton.mp mem
      have known : n.directory.knows (Text.lowercase other) := by
        simpa [Node.allows_lowercase_iff.mpr admitted, Node.knows] using new
      rw [Catalog.lookup?_of_node? found]
      exact Option.isSome_iff_exists.mp ((aligned.knows_iff _).mp known)
  · rw [after, Option.or_eq_some_iff] at holds
    rcases holds with held | ⟨-, offered⟩
    · exact .inl held
    · obtain ⟨t, -, rfl⟩ := Option.map_eq_some_iff.mp offered
      exact .inr rfl

theorem hearing_loadAll (backend : Backend σ) (found : f.catalog.node? id = some m)
    (same : m.bare = n.bare) (own : n.id = id) (hsource : n.source = some source)
    (sound : f.catalog.Sound) (aligned : f.catalog.Aligned) (names : List String) :
    ∃ asked, (names.foldl (loadNew backend.recording id) f).sources.2 = f.sources.2 ++ asked ∧
      Hearing f.catalog (names.foldl (loadNew backend.recording id) f).catalog id n source names
        asked := by
  induction names generalizing f m with
  | nil =>
      exact ⟨[], (List.append_nil _).symm, fun _ mem => absurd mem List.not_mem_nil,
        fun _ mem => absurd mem List.not_mem_nil⟩
  | cons listed names ih =>
      have first : Sweeps (fun _ => True) f.catalog
          (loadNew backend.recording id f listed).catalog :=
        sweeps_loadNew backend.recording trivial f listed
      have rest : Sweeps (fun _ => True) (loadNew backend.recording id f listed).catalog
          (names.foldl (loadNew backend.recording id) _).catalog :=
        sweeps_loadAll backend.recording trivial names _
      have sound' := first.sound sound
      have aligned' := first.aligned aligned
      obtain ⟨m', found', hbare⟩ := Catalog.node?_of_bareNodes first.touches.bareNodes.symm found
      obtain ⟨⟨asked, record, hearing⟩, grown⟩ := hearing_loadNew backend found
        ((Node.id_eq_of_bare same).trans own) ((Node.source_eq_of_bare same).trans hsource)
        (aligned id m found) listed
      obtain ⟨asked', record', hearing'⟩ := ih found' (hbare.trans same) sound' aligned'
      rw [List.foldl_cons]
      refine ⟨asked ++ asked', by rw [record', record, List.append_assoc], ?_⟩
      exact (hearing.of_bare same).cons hearing' grown
        fun name entry => rest.lookup?_kept sound' aligned'

/-! ### All visits of a refresh -/

/-- What a walk from `id` hears: the source of the node where it begins and the sources of all nodes
that it stamps. Other nodes stay as they are. -/
structure Hears (now : Instant) (f f' : Federation (σ × List Exchange)) (id : NodeId) : Prop where
  record : ∃ added, f'.sources.2 = f.sources.2 ++ added
  rest : ∀ z, z ≠ id → KeptOrStamped now f.catalog f'.catalog z
  heard : ∀ z n source, f.catalog.node? z = some n → n.source = some source →
    z = id ∨ f'.catalog.Stamped now z ∧ ¬ f.catalog.Stamped now z →
      Heard f.catalog f'.catalog z n source f'.sources.2

variable {now : Instant}

theorem hears_loadOwn (found : f.catalog.node? id = some n) (sound : f.catalog.Sound)
    (aligned : f.catalog.Aligned) : Hears now f (f.loadOwn backend.recording n) id := by
  have own := sound.ids id n found
  have alone : Sweeps (· = id) f.catalog (f.loadOwn backend.recording n).catalog :=
    sweeps_loadOwn backend.recording f own
  have rest {z : NodeId} (hz : z ≠ id) :
      (f.loadOwn backend.recording n).catalog.node? z = f.catalog.node? z :=
    alone.node?_of_outside sound hz
  have unstamped {z : NodeId} (hz : z ≠ id) (new : ¬ f.catalog.Stamped now z) :
      ¬ (f.loadOwn backend.recording n).catalog.Stamped now z := by
    rwa [Stamped, rest hz]
  suffices heard : (∃ added, (f.loadOwn backend.recording n).sources.2 = f.sources.2 ++ added) ∧
      ∀ source, n.source = some source → Heard f.catalog
        (f.loadOwn backend.recording n).catalog id n source
        (f.loadOwn backend.recording n).sources.2 by
    refine ⟨heard.1, fun z hz => .inl (rest hz), fun z k source hk hsource visited => ?_⟩
    by_cases hz : z = id
    · subst hz
      rw [found] at hk
      cases hk
      exact heard.2 source hsource
    · obtain ⟨stamped, new⟩ := visited.resolve_left hz
      exact absurd stamped (unstamped hz new)
  cases hsource : n.source with
  | none =>
      rw [loadOwn_of_no_source _ hsource]
      exact ⟨⟨[], (List.append_nil _).symm⟩, fun _ none_some => absurd none_some.symm (by simp)⟩
  | some source =>
      have same := nodes_listing backend.recording f source
      have listing : Sweeps (fun _ => True) f.catalog
          (f.listing backend.recording source).2.catalog :=
        sweeps_listing backend.recording f source
      have found' : (f.listing backend.recording source).2.catalog.node? id = some n := by
        rw [Catalog.node?, same]
        exact found
      have unchanged (name : String) :
          (f.listing backend.recording source).2.catalog.lookup? id name =
            f.catalog.lookup? id name := by
        rw [Catalog.lookup?_of_node? found', Catalog.lookup?_of_node? found]
      obtain ⟨asked, record, hearing⟩ := hearing_loadAll backend found' rfl own hsource
        (listing.sound sound) (listing.aligned aligned) (f.listing backend.recording source).1
      have record' : (f.loadOwn backend.recording n).sources.2 =
          f.sources.2 ++ .list source (f.listing backend.recording source).1 :: asked := by
        rw [loadOwn_eq _ hsource, own, record, ← List.singleton_append, ← List.append_assoc]
        rfl
      refine ⟨⟨_, record'⟩, fun source' hsource' => ?_⟩
      cases hsource'
      refine Heard.of_unchanged
        ⟨f.sources.2, (f.listing backend.recording source).1, asked, [], ?_, ?_⟩ rfl unchanged
      · rw [record', List.append_nil]
      · rw [loadOwn_eq _ hsource, own]
        exact hearing

/-- A visit to a child hears what the walk to it hears. -/
theorem Hears.visited
    {walk : Federation (σ × List Exchange) → NodeId → Option (Federation (σ × List Exchange))}
    {entry : String × NodeId} (h : Hears now f g id) (sound : f.catalog.Sound)
    (aligned : f.catalog.Aligned) (found : f.catalog.node? id = some n)
    (hentry : entry ∈ n.children.entries) (sofar : Sweeps (fun _ => True) f.catalog g.catalog)
    (walks : ∀ {g₂}, walk g entry.2 = some g₂ → Sweeps (fun _ => True) g.catalog g₂.catalog ∧
      Hears now g g₂ entry.2 ∧ KeptOrStamped now g.catalog g₂.catalog entry.2)
    (hvisit : visitChild walk id n g entry = some g') : Hears now f g' id := by
  cases live : g.catalog.get entry.2 with
  | error e =>
      rw [visitChild_of_error live] at hvisit
      cases hvisit
      exact ⟨h.record, h.rest, fun z k source hk hsource visited =>
        (h.heard z k source hk hsource visited).mono fun _ _ held => held⟩
  | ok k =>
      rw [visitChild_of_live live] at hvisit
      obtain ⟨g₂, hg₂, rfl⟩ := Option.map_eq_some_iff.mp hvisit
      obtain ⟨swept, below, child⟩ := walks hg₂
      have walked : Sweeps (fun _ => True) f.catalog g₂.catalog := sofar.trans swept
      obtain ⟨m, hm, listed⟩ := walked.touches.listed found hentry
      have last : Sweeps (fun _ => True) g₂.catalog (g₂.absorbChild id entry.2).catalog :=
        sweeps_absorbChild g₂ trivial hm listed
      have visiting : Sweeps (fun _ => True) g.catalog (g₂.absorbChild id entry.2).catalog :=
        swept.trans last
      have sound' := sofar.sound sound
      have aligned' := sofar.aligned aligned
      have same {z : NodeId} (hz : z ≠ id) := node?_absorbChild_of_ne hz g₂ entry.2
      obtain ⟨added, record⟩ := h.record
      obtain ⟨more, record'⟩ := below.record
      refine ⟨⟨added ++ more, ?_⟩, fun z hz => ?_, fun z k source hk hsource visited => ?_⟩
      · rw [sources_absorbChild, record', record, List.append_assoc]
      · have walk : KeptOrStamped now g.catalog g₂.catalog z := by
          by_cases hchild : z = entry.2
          · exact hchild ▸ child
          · exact below.rest z hchild
        exact ((h.rest z hz).trans walk).trans (.inl (same hz))
      rw [sources_absorbChild]
      by_cases before : z = id ∨ g.catalog.Stamped now z ∧ ¬ f.catalog.Stamped now z
      · rw [record']
        refine ((h.heard z k source hk hsource before).mono fun name entry => ?_).append more
        exact visiting.lookup?_kept sound' aligned'
      · obtain ⟨hz, unvisited⟩ := not_or.mp before
        obtain ⟨stamped, new⟩ := visited.resolve_left hz
        rw [Stamped, same hz] at stamped
        have unstamped : ¬ g.catalog.Stamped now z := fun earlier => unvisited ⟨earlier, new⟩
        have unchanged := (h.rest z hz).resolve_right unstamped
        obtain ⟨k', hk', hbare⟩ := Catalog.node?_of_bareNodes sofar.touches.bareNodes.symm hk
        have heard := below.heard z k' source hk' ((Node.source_eq_of_bare hbare).trans hsource)
          (.inr ⟨stamped, unstamped⟩)
        refine (heard.of_unchanged hbare (Catalog.lookup?_congr unchanged)).mono
          fun name entry => ?_
        exact last.lookup?_kept (swept.sound sound') (swept.aligned aligned')

theorem Hears.stamp (h : Hears now f g id) : Hears now f (g.modify id (·.stamp now)) id := by
  have same {z : NodeId} (hz : z ≠ id) :
      (g.modify id (·.stamp now)).catalog.node? z = g.catalog.node? z :=
    Catalog.node?_modify_of_ne hz _
  refine ⟨h.record, fun z hz => (h.rest z hz).trans (.inl (same hz)),
    fun z n source found hsource visited => ?_⟩
  have heard : Heard f.catalog g.catalog z n source g.sources.2 := by
    refine h.heard z n source found hsource ?_
    by_cases hz : z = id
    · exact .inl hz
    · obtain ⟨stamped, new⟩ := visited.resolve_left hz
      rw [Stamped, same hz] at stamped
      exact .inr ⟨stamped, new⟩
  refine heard.mono fun name entry held => ?_
  rwa [lookup?_stamp]

theorem hears_refreshWithin {depth : Nat} {held : List NodeId} (sound : f.catalog.Sound)
    (aligned : f.catalog.Aligned)
    (h : refreshWithin backend.recording now depth held f id = some f') :
    Hears now f f' id ∧ KeptOrStamped now f.catalog f'.catalog id := by
  refine refreshWithin_induction (P := fun f f' id => f.catalog.Sound → f.catalog.Aligned →
    Hears now f f' id ∧ KeptOrStamped now f.catalog f'.catalog id) ?_ ?_ h sound aligned
  · intro f id missing _ _
    refine ⟨⟨⟨[], (List.append_nil _).symm⟩, fun z _ => .inl rfl,
      fun z n source found _ visited => ?_⟩, .inl rfl⟩
    rcases visited with rfl | ⟨stamped, new⟩
    · rw [missing] at found
      cases found
    · exact absurd stamped new
  · intro walk f id n g walks found hg sound aligned
    obtain ⟨sofar, hears⟩ := children_induction (fun _ _ _ hwalk => (walks _ _ _ hwalk).1) found
      (P := fun _ g => Hears now f g id) (hears_loadOwn found sound aligned)
      (fun done entry g g' hprefix sofar hears hvisit _ => by
        have hentry : entry ∈ n.children.entries := hprefix.subset (by simp)
        exact hears.visited sound aligned found hentry sofar (fun hwalk =>
          ⟨(walks _ _ _ hwalk).1,
            (walks _ _ _ hwalk).2 (sofar.sound sound) (sofar.aligned aligned)⟩) hvisit) hg
    obtain ⟨m, hm, -⟩ := Catalog.node?_of_bareNodes sofar.touches.bareNodes.symm found
    exact ⟨hears.stamp, .inr (stamped_stamp now hm)⟩

theorem hears_refresh (sound : f.catalog.Sound) (aligned : f.catalog.Aligned)
    (h : f.refresh backend.recording now id = some (.ok (), f')) : Hears now f f' id := by
  unfold refresh at h
  split at h
  · cases h
  · obtain ⟨g, hg, heq⟩ := Option.map_eq_some_iff.mp h
    cases heq
    exact (hears_refreshWithin sound aligned hg).1

/-- What a node makes of a listed spelling that it does not resolve when it is loaded on demand: the
source is asked for a table that the node lets in, and for no other. -/
structure ScreensDemand {σ : Type} (backend : Backend σ) (f : Federation σ) (z : NodeId) (n : Node)
    (source : SourceId) (listed : String) : Prop where
  admitted : n.Admits listed → ∃ names spelling described,
    Text.lowercase spelling = Text.lowercase listed ∧
    f.demandRecord backend z listed = [.list source names, .describe source spelling described] ∧
    (f.loadTable backend z listed).1 = n.take spelling described
  barred : ¬ n.Admits listed → f.demandRecord backend z listed = [] ∧
    f.loadTable backend z listed = (.error (.tableNotFound (Text.lowercase listed)), f)

theorem screensDemand {f : Federation σ} {z : NodeId} (found : f.catalog.node? z = some n)
    (hsource : n.source = some source) (backend : Backend σ) {listed : String}
    (undivided : '.' ∉ listed.toList) {e : CatalogError} (missed : n.table listed = .error e) :
    ScreensDemand backend f z n source listed := by
  have plain := Node.plainName_of_no_dot undivided
  have demand := demand_loadTable found backend listed
  refine ⟨fun admitted => ?_, fun barred => ?_⟩
  · have allowed : n.allows (Node.plainName listed) = true := by
      rwa [plain, Node.allows_lowercase_iff]
    generalize f.demandRecord backend z listed = record at demand ⊢
    generalize (f.loadTable backend z listed).1 = answer at demand ⊢
    cases demand with
    | resolved resolved =>
        rw [missed] at resolved
        cases resolved
    | barred _ barred =>
        rw [allowed] at barred
        cases barred
    | unsourced _ _ unsourced =>
        rw [hsource] at unsourced
        cases unsourced
    | asked _ _ asked names described taken =>
        rw [hsource] at asked
        cases asked
        refine ⟨names, _, described, ?_, rfl, taken.symm⟩
        rw [lowercase_listedSpelling (Node.lowercase_plainName listed), plain]
  · have refused : n.allows (Node.plainName listed) = false := by
      rwa [plain, Node.allows_eq_false_iff]
    have found' : f.recorded.catalog.node? z = some n := found
    rw [demandRecord, loadTable_of_barred found' backend.recording missed refused,
      loadTable_of_barred found backend missed refused, plain]
    exact ⟨rfl, rfl⟩

end Federation

namespace Catalog

/-- What a refresh of `x` makes of the tables that the source of a node lists. Where it comes by, it
passes over no table that the node lets in. Of another table the node has nothing in the end but
what it had before or what a child has. -/
structure ScreensRefresh (c d : Catalog) (now : Instant) (x z : NodeId) (n : Node)
    (source : SourceId) (record : List Exchange) : Prop where
  admitted : z = x ∨ d.Stamped now z ∧ ¬ c.Stamped now z → Heard c d z n source record
  barred : ∀ listed entry, ¬ n.Admits listed →
    d.lookup? z (Text.lowercase listed) = some entry →
      c.lookup? z (Text.lowercase listed) = some entry ∨
        ∃ child, c.Lists z child ∧ d.lookup? child (Text.lowercase listed) = some entry

theorem Sweeps.barred {within : NodeId → Prop} {c d : Catalog} {z : NodeId} {n : Node}
    (h : Sweeps within c d) (sound : c.Sound) (aligned : c.Aligned) (found : c.node? z = some n)
    {listed : String} {entry : NodeId × Table} (barred : ¬ n.Admits listed)
    (holds : d.lookup? z (Text.lowercase listed) = some entry) :
    c.lookup? z (Text.lowercase listed) = some entry ∨
      ∃ child, c.Lists z child ∧ d.lookup? child (Text.lowercase listed) = some entry := by
  cases held : c.lookup? z (Text.lowercase listed) with
  | some before =>
      have kept := h.lookup?_kept sound aligned held
      rw [holds] at kept
      exact .inl kept.symm
  | none =>
      rcases h.lookup?_new sound aligned holds held with ⟨-, m, hm, allowed⟩ | taken
      · rw [found] at hm
        cases hm
        exact absurd (Node.allows_lowercase_iff.mp allowed) barred
      · exact .inr taken

end Catalog

namespace Run

variable {σ : Type} {r : Run σ} {f : Federation σ} {z : NodeId} {n : Node} {source : SourceId}

/-- What the list of tables to load lets in, neither a refresh nor a load on demand passes over,
whatever the source answers, and nothing else comes in from the source. An entry lets in the tables
of its name when lowercasing the entry changes ASCII letters alone. -/
theorem listed_screened (visited : r.Visits f) (found : f.catalog.node? z = some n)
    (hsource : n.source = some source) (backend : Backend σ) :
    (∀ now x f', f.refresh backend now x = some (.ok (), f') →
      ∃ record, f.transcript backend now x = some record ∧
        Catalog.ScreensRefresh f.catalog f'.catalog now x z n source record) ∧
    ∀ listed e, '.' ∉ listed.toList → n.table listed = .error e →
      Federation.ScreensDemand backend f z n source listed := by
  have sound := Run.sound visited
  have aligned := Run.aligned visited
  constructor
  · intro now x f' refreshed
    obtain ⟨g, hg, rfl⟩ := Federation.exists_recorded refreshed
    have swept := Federation.sweeps_refresh backend now (sound.covers x) refreshed
    have hears := Federation.hears_refresh (f := f.recorded) sound aligned hg
    refine ⟨g.sources.2, (Federation.refresh_of_recorded hg).2, ?_, ?_⟩
    · exact hears.heard z n source found hsource
    · exact fun listed entry barred holds => swept.barred sound aligned found barred holds
  · intro listed e undivided missed
    exact Federation.screensDemand found hsource backend undivided missed

/-- A node that loads some tables only, from a source that describes what it lists. -/
def screening (entries names : List String) : Run Unit where
  backend := .always (listedAnswers names)
  sources := ()
  operations := [.createWithConfig { name := "sales", tablesToLoad := entries } (some ⟨0⟩)]

/-- Whether two names are let in while the first does not resolve, and what is left after a
refresh. -/
def screened (entries names : List String) (name other : String) :
    Option (Option SourceId × List Bool × Option (List String)) :=
  ((screening entries names).after (screening entries names).operations).bind fun f =>
    (f.catalog.node? ⟨0⟩).bind fun n =>
      (f.refresh (screening entries names).backend ⟨0, 0⟩ ⟨0⟩).bind fun result =>
        result.1.toOption.map fun _ =>
          (n.source, [(n.table name).toOption.isNone, n.allows (Text.lowercase name),
            n.allows (Text.lowercase other)], (result.2.catalog.node? ⟨0⟩).map (·.tables))

theorem listed_screened_orders : ∃ f f' n e,
    (screening ["Orders"] ["ORDERS", "Items"]).Visits f ∧ f.catalog.node? ⟨0⟩ = some n ∧
    n.source = some ⟨0⟩ ∧
    f.refresh (screening ["Orders"] ["ORDERS", "Items"]).backend ⟨0, 0⟩ ⟨0⟩ = some (.ok (), f') ∧
    '.' ∉ "ORDERS".toList ∧ n.table "ORDERS" = .error e ∧ n.Admits "ORDERS" ∧ ¬ n.Admits "Items" ∧
    (f'.catalog.node? ⟨0⟩).map (·.tables) = some ["orders"] ∧
    (∃ record, f.transcript (screening ["Orders"] ["ORDERS", "Items"]).backend ⟨0, 0⟩ ⟨0⟩ =
      some record ∧ Catalog.ScreensRefresh f.catalog f'.catalog ⟨0, 0⟩ ⟨0⟩ ⟨0⟩ n ⟨0⟩ record) ∧
    Federation.ScreensDemand (screening ["Orders"] ["ORDERS", "Items"]).backend f ⟨0⟩ n ⟨0⟩
      "ORDERS" := by
  have computed : screened ["Orders"] ["ORDERS", "Items"] "ORDERS" "Items" =
      some (some ⟨0⟩, [true, true, false], some ["orders"]) := by
    decide +kernel
  obtain ⟨f, hf, hfound⟩ := Option.bind_eq_some_iff.mp computed
  obtain ⟨n, found, hfound⟩ := Option.bind_eq_some_iff.mp hfound
  obtain ⟨⟨answer, f'⟩, refreshed, hfound⟩ := Option.bind_eq_some_iff.mp hfound
  obtain ⟨⟨⟩, rfl, hparts⟩ := exists_ok_of_toOption hfound
  simp only [Prod.mk.injEq, List.cons.injEq, and_true] at hparts
  obtain ⟨source, ⟨unresolved, admitted, barred⟩, after⟩ := hparts
  have visited : (screening ["Orders"] ["ORDERS", "Items"]).Visits f := ⟨_, List.prefix_rfl, hf⟩
  have undivided : '.' ∉ "ORDERS".toList := by decide +kernel
  cases missed : n.table "ORDERS" with
  | ok t =>
      rw [missed] at unresolved
      cases unresolved
  | error e =>
      obtain ⟨refreshes, demands⟩ := listed_screened visited found source
        (screening ["Orders"] ["ORDERS", "Items"]).backend
      exact ⟨f, f', n, e, visited, found, source, refreshed, undivided, missed,
        Node.allows_lowercase_iff.mp admitted, Node.allows_eq_false_iff.mp barred, after,
        refreshes _ _ _ refreshed, demands "ORDERS" e undivided missed⟩

/-- A capital letter beyond ASCII, in an entry that is spelled as the source lists the table. The
refresh passes the table over, and the source is not asked for it on demand. -/
theorem screening_passes_over : ∃ f f' n e, (screening ["É"] ["É"]).Visits f ∧
    f.catalog.node? ⟨0⟩ = some n ∧ n.source = some ⟨0⟩ ∧
    n.config.map (·.tablesToLoad) = some ["É"] ∧ '.' ∉ "É".toList ∧ n.table "É" = .error e ∧
    f.refresh (screening ["É"] ["É"]).backend ⟨0, 0⟩ ⟨0⟩ = some (.ok (), f') ∧
    (f.transcript (screening ["É"] ["É"]).backend ⟨0, 0⟩ ⟨0⟩).map spellings = some [] ∧
    (f'.catalog.node? ⟨0⟩).map (·.tables) = some [] ∧
    f.demandRecord (screening ["É"] ["É"]).backend ⟨0⟩ "É" = [] ∧
    (f.loadTable (screening ["É"] ["É"]).backend ⟨0⟩ "É").1 =
      .error (.tableNotFound (Text.lowercase "É")) := by
  have computed : screened ["É"] ["É"] "É" "É" =
      some (some ⟨0⟩, [true, false, false], some []) := by
    decide +kernel
  have recorded : ((screening ["É"] ["É"]).after (screening ["É"] ["É"]).operations).map (fun f =>
      ((f.transcript (screening ["É"] ["É"]).backend ⟨0, 0⟩ ⟨0⟩).map spellings,
        (f.catalog.node? ⟨0⟩).map (·.config.map (·.tablesToLoad)))) =
      some (some [], some (some ["É"])) := by
    decide +kernel
  obtain ⟨f, hf, hfound⟩ := Option.bind_eq_some_iff.mp computed
  obtain ⟨n, found, hfound⟩ := Option.bind_eq_some_iff.mp hfound
  obtain ⟨⟨answer, f'⟩, refreshed, hfound⟩ := Option.bind_eq_some_iff.mp hfound
  obtain ⟨⟨⟩, rfl, hparts⟩ := exists_ok_of_toOption hfound
  simp only [Prod.mk.injEq, List.cons.injEq, and_true] at hparts
  obtain ⟨source, ⟨unresolved, barred, -⟩, after⟩ := hparts
  rw [hf, Option.map_some, found, Option.map_some] at recorded
  simp only [Option.some.injEq, Prod.mk.injEq] at recorded
  have undivided : '.' ∉ "É".toList := by decide +kernel
  cases missed : n.table "É" with
  | ok t =>
      rw [missed] at unresolved
      cases unresolved
  | error e =>
      obtain ⟨unasked, refused⟩ := (Federation.screensDemand found source
        (screening ["É"] ["É"]).backend undivided missed).barred
          (Node.allows_eq_false_iff.mp barred)
      exact ⟨f, f', n, e, ⟨_, List.prefix_rfl, hf⟩, found, source, recorded.2, undivided, missed,
        refreshed, recorded.1, after, unasked, congrArg Prod.fst refused⟩

end Run

end SchemaCatalog
