import Mathlib.Data.List.Induction
import SchemaCatalog.Catalog.Refresh
import SchemaCatalog.Proofs.Catalog.Acyclic

/-!
What loading and refreshing do to the catalog, step by step, and why a refresh ends: without a cycle
of child links no way down is longer than the list of nodes.
-/

namespace SchemaCatalog

open Relation (ReflTransGen TransGen)

/-! ### Folds that may wait for ever -/

theorem foldlM_induction {α β : Type} {P : β → Prop} {step : β → α → Option β} {l : List α}
    (keep : ∀ b a b', a ∈ l → P b → step b a = some b' → P b') {b b' : β} (start : P b)
    (h : l.foldlM step b = some b') : P b' := by
  induction l generalizing b with
  | nil =>
      cases h
      exact start
  | cons a l ih =>
      rw [List.foldlM_cons] at h
      obtain ⟨m, hm, h⟩ := Option.bind_eq_some_iff.mp h
      exact ih (fun b a b' ha => keep b a b' (List.mem_cons_of_mem _ ha))
        (keep b a m List.mem_cons_self start hm) h

theorem exists_foldlM {α β : Type} {P : β → Prop} {step : β → α → Option β} {l : List α}
    (ends : ∀ b a, a ∈ l → P b → ∃ b', step b a = some b' ∧ P b') {b : β} (start : P b) :
    ∃ b', l.foldlM step b = some b' ∧ P b' := by
  induction l generalizing b with
  | nil => exact ⟨b, rfl, start⟩
  | cons a l ih =>
      obtain ⟨m, hm, hkeep⟩ := ends b a List.mem_cons_self start
      obtain ⟨b', hb', hend⟩ := ih (fun b a ha => ends b a (List.mem_cons_of_mem _ ha)) hkeep
      exact ⟨b', by rw [List.foldlM_cons, hm]; exact hb', hend⟩

theorem exists_of_foldlM {α β : Type} {P : β → Prop} {step : β → α → Option β} {l : List α}
    (keep : ∀ b a b', a ∈ l → P b → step b a = some b' → P b') {b b' : β} (start : P b)
    (h : l.foldlM step b = some b') {a : α} (mem : a ∈ l) :
    ∃ m m', P m ∧ step m a = some m' := by
  induction l generalizing b with
  | nil => cases mem
  | cons x l ih =>
      rw [List.foldlM_cons] at h
      obtain ⟨m, hm, h⟩ := Option.bind_eq_some_iff.mp h
      rcases List.mem_cons.mp mem with rfl | mem
      · exact ⟨b, m, start, hm⟩
      · exact ih (fun b a b' ha => keep b a b' (List.mem_cons_of_mem _ ha))
          (keep b x m List.mem_cons_self start hm) h mem

theorem foldlM_prefix {α β : Type} {P : List α → β → Prop} {step : β → α → Option β} {l : List α}
    (next : ∀ done a b b', done ++ [a] <+: l → P done b → step b a = some b' → P (done ++ [a]) b')
    {b b' : β} (start : P [] b) (h : l.foldlM step b = some b') : P l b' := by
  suffices ∀ done, done <+: l → ∀ b', done.foldlM step b = some b' → P done b' from
    this l List.prefix_rfl b' h
  intro done hprefix
  induction done using List.reverseRecOn with
  | nil =>
      intro b' h
      cases h
      exact start
  | append_singleton done a ih =>
      intro b' h
      rw [List.foldlM_append] at h
      obtain ⟨m, hm, h⟩ := Option.bind_eq_some_iff.mp h
      have last : step m a = some b' := by simpa using h
      exact next done a m b' hprefix (ih ((List.prefix_append _ _).trans hprefix) m hm) last

/-! ### Reach -/

namespace Catalog

variable {c d : Catalog} {within : NodeId → Prop} {id : NodeId}

/-- All nodes that `id` leads to, and the handles that they carry, lie within reach. -/
def Covers (c : Catalog) (within : NodeId → Prop) (id : NodeId) : Prop :=
  ∀ x n, ReflTransGen c.Lists id x → c.node? x = some n → within x ∧ within n.id

theorem covers_everywhere (c : Catalog) (id : NodeId) : c.Covers (fun _ => True) id :=
  fun _ _ _ _ => ⟨trivial, trivial⟩

theorem Covers.of_bareNodes (same : d.bareNodes = c.bareNodes) (h : c.Covers within id) :
    d.Covers within id := by
  intro x n hway found
  rw [lists_of_bareNodes same] at hway
  obtain ⟨m, hm, hbare⟩ := node?_of_bareNodes same found
  exact Node.id_eq_of_bare hbare ▸ h x m hway hm

theorem Covers.child {child : NodeId} (h : c.Covers within id) (listed : c.Lists id child) :
    c.Covers within child :=
  fun x n hway found => h x n (.head listed hway) found

end Catalog

namespace Federation

open Catalog (Sweeps Touches Covers)

variable {σ : Type} (backend : Backend σ) {within : NodeId → Prop}

/-! ### Loading -/

theorem sweeps_listing (f : Federation σ) (source : SourceId) :
    Sweeps within f.catalog (f.listing backend source).2.catalog := by
  simp only [listing]
  split
  · exact .single .shutdown
  · exact .refl

theorem loadListed_catalog (f : Federation σ) (n : Node) (listed : String) :
    (f.loadListed backend n listed).2.catalog = f.catalog ∨
      ∃ t, (f.loadListed backend n listed).2.catalog =
        f.catalog.modify n.id (·.register (Text.lowercase listed) n.id (n.adopt listed t)) := by
  unfold loadListed
  simp only
  split
  · exact .inl rfl
  · split
    · exact .inl rfl
    · exact .inl rfl
    · exact .inr ⟨_, rfl⟩

theorem nodes_listing (f : Federation σ) (source : SourceId) :
    (f.listing backend source).2.catalog.nodes = f.catalog.nodes := by
  simp only [listing]
  split <;> rfl

theorem listedName_spec (f : Federation σ) (n : Node) (name : String) :
    Sweeps (fun _ => False) f.catalog (f.listedName backend n name).2.catalog ∧
      (f.listedName backend n name).2.catalog.nodes = f.catalog.nodes ∧
      ((f.listedName backend n name).1 = name ∨
        Text.sameAsciiCase (f.listedName backend n name).1 name) := by
  unfold listedName
  split
  · exact ⟨.refl, rfl, .inl rfl⟩
  · rename_i source _
    refine ⟨sweeps_listing backend f source, nodes_listing backend f source, ?_⟩
    simp only
    cases hfound : (f.listing backend source).1.find? (Text.sameAsciiCase · name) with
    | none => exact .inl rfl
    | some listed =>
        have hsame := List.find?_some hfound
        exact .inr hsame

/-- Loading on demand asks the source at most, or registers a table that the node did not resolve
under the lowercase form of its listed spelling. -/
theorem loadTable_catalog (f : Federation σ) (id : NodeId) (name : String) :
    ∃ c, Sweeps (fun _ => False) f.catalog c ∧
      ((f.loadTable backend id name).2.catalog = c ∨
        ∃ n e listed t, c.node? id = some n ∧ n.table name = .error e ∧
          n.allows (Node.plainName name) ∧
          (listed = Node.plainName name ∨ Text.sameAsciiCase listed (Node.plainName name)) ∧
          (f.loadTable backend id name).2.catalog =
            c.modify n.id (·.register (Text.lowercase listed) n.id (n.adopt listed t))) := by
  unfold loadTable
  split
  · exact ⟨_, .refl, .inl rfl⟩
  rename_i n found
  split
  · exact ⟨_, .refl, .inl rfl⟩
  rename_i e missed
  simp only
  split
  · rename_i allowed
    obtain ⟨asked, same, spelled⟩ := listedName_spec backend f n (Node.plainName name)
    generalize f.listedName backend n (Node.plainName name) = answer at asked same spelled ⊢
    obtain ⟨listed, f'⟩ := answer
    have found' : f'.catalog.node? id = some n := by
      rw [Catalog.node?, same]
      exact found
    refine ⟨_, asked, ?_⟩
    rcases loadListed_catalog backend f' n listed with hkept | ⟨t, hloaded⟩
    · exact .inl hkept
    · exact .inr ⟨n, e, listed, t, found', missed, allowed, spelled, hloaded⟩
  · exact ⟨_, .refl, .inl rfl⟩

theorem touches_loadTable (f : Federation σ) (id : NodeId) (name : String) :
    Touches f.catalog (f.loadTable backend id name).2.catalog := by
  obtain ⟨c, asked, kept | ⟨n, e, listed, t, found, missed, allowed, spelled, loaded⟩⟩ :=
    loadTable_catalog backend f id name
  · rw [kept]
    exact asked.touches
  · rw [loaded]
    exact asked.touches.tail (.demand name listed t found missed allowed spelled)

theorem sweeps_loadNew {id : NodeId} (inside : within id) (f : Federation σ) (listed : String) :
    Sweeps within f.catalog (loadNew backend id f listed).catalog := by
  unfold loadNew
  split
  · exact .refl
  rename_i n found
  simp only
  split
  · exact .refl
  rename_i hnew
  obtain ⟨unknown, allowed⟩ : n.knows (Text.lowercase listed) = false ∧
      n.allows (Text.lowercase listed) = true := by
    simpa using hnew
  generalize hf' : f.log .debug _ = f'
  have logged : Sweeps within f.catalog f'.catalog :=
    hf' ▸ .single (.log (by simp [LogEntry.isAttachment, toString, List.isPrefixOf]))
  have found' : f'.catalog.node? id = some n := hf' ▸ found
  have loaded : Sweeps within f'.catalog (f'.loadListed backend n listed).2.catalog := by
    rcases loadListed_catalog backend f' n listed with hkept | ⟨t, hloaded⟩
    · rw [hkept]
    · rw [hloaded]
      exact .single (.discover inside listed t found' unknown allowed)
  split
  · rename_i hanswer
    rw [hanswer] at loaded
    exact logged.trans loaded
  · rename_i hanswer
    rw [hanswer] at loaded
    exact (logged.trans loaded).tail
      (.log (by simp [LogEntry.isAttachment, toString, List.isPrefixOf]))

theorem sweeps_loadAll {id : NodeId} (inside : within id) (names : List String)
    (f : Federation σ) : Sweeps within f.catalog (names.foldl (loadNew backend id) f).catalog := by
  induction names generalizing f with
  | nil => exact .refl
  | cons listed names ih =>
      rw [List.foldl_cons]
      exact (sweeps_loadNew backend inside f listed).trans (ih _)

theorem sweeps_loadOwn (f : Federation σ) {n : Node} (inside : within n.id) :
    Sweeps within f.catalog (f.loadOwn backend n).catalog := by
  unfold loadOwn
  split
  · exact .refl
  rename_i source _
  exact (sweeps_listing backend f source).trans (sweeps_loadAll backend inside _ _)

/-! ### Refreshing -/

theorem sweeps_absorbChild (f : Federation σ) {id child : NodeId} {m : Node} {name : String}
    (inside : within id) (found : f.catalog.node? id = some m)
    (listed : m.children.get? name = some child) :
    Sweeps within f.catalog (f.absorbChild id child).catalog := by
  unfold absorbChild
  split
  · rename_i n below
    exact .single (.absorb inside found listed below)
  · exact .refl

/-- Children stay listed, so the tables of a child are taken over by a node that lists it. -/
theorem sweeps_visitChild {walk : Federation σ → NodeId → Option (Federation σ)}
    (walks : ∀ {f f' : Federation σ} {id : NodeId}, f.catalog.Covers within id →
      walk f id = some f' → Sweeps within f.catalog f'.catalog)
    {f g g' : Federation σ} {id : NodeId} {n : Node} {entry : String × NodeId}
    (covers : f.catalog.Covers within id) (found : f.catalog.node? id = some n)
    (hentry : entry ∈ n.children.entries) (sofar : Sweeps within f.catalog g.catalog)
    (h : visitChild walk id n g entry = some g') : Sweeps within f.catalog g'.catalog := by
  unfold visitChild at h
  split at h
  · cases h
    exact sofar.tail (.log (by simp [LogEntry.isAttachment, toString, List.isPrefixOf]))
  · obtain ⟨g₂, hg₂, h⟩ := Option.bind_eq_some_iff.mp h
    cases h
    obtain ⟨k, hk, hlisted⟩ := sofar.touches.listed found hentry
    have below : g.catalog.Covers within entry.2 :=
      (covers.of_bareNodes sofar.touches.bareNodes).child ⟨k, entry.1, hk, hlisted⟩
    have walked : Sweeps within f.catalog g₂.catalog := sofar.trans (walks below hg₂)
    obtain ⟨m, hm, listed⟩ := walked.touches.listed found hentry
    exact walked.trans (sweeps_absorbChild g₂ (covers id n .refl found).1 hm listed)

theorem sweeps_refreshWithin (now : Instant) {depth : Nat} {held : List NodeId}
    {f f' : Federation σ} {id : NodeId} (covers : f.catalog.Covers within id)
    (h : refreshWithin backend now depth held f id = some f') :
    Sweeps within f.catalog f'.catalog := by
  induction depth generalizing held f f' id with
  | zero => cases h
  | succ depth ih =>
      rw [refreshWithin] at h
      split at h
      · cases h
      split at h
      · cases h
        exact .refl
      rename_i n found
      obtain ⟨g, hg, h⟩ := Option.bind_eq_some_iff.mp h
      cases h
      obtain ⟨inside, inside'⟩ := covers id n .refl found
      refine ReflTransGen.tail ?_ (.stamp inside now)
      refine foldlM_induction (P := fun g => Sweeps within f.catalog g.catalog) ?_
        (sweeps_loadOwn backend f inside') hg
      intro g entry g' hentry sofar hvisit
      exact sweeps_visitChild ih covers found hentry sofar hvisit

theorem sweeps_refresh (now : Instant) {f f' : Federation σ} {id : NodeId}
    {answer : Except CatalogError Unit} (covers : f.catalog.Covers within id)
    (h : f.refresh backend now id = some (answer, f')) : Sweeps within f.catalog f'.catalog := by
  unfold refresh at h
  split at h
  · cases h
    exact .refl
  · obtain ⟨g, hg, heq⟩ := Option.map_eq_some_iff.mp h
    cases heq
    exact sweeps_refreshWithin backend now covers hg

theorem touches_refresh (now : Instant) {f f' : Federation σ} {id : NodeId}
    {answer : Except CatalogError Unit}
    (h : f.refresh backend now id = some (answer, f')) : Touches f.catalog f'.catalog :=
  (sweeps_refresh backend now (f.catalog.covers_everywhere id) h).touches

/-! ### What holds of every walk -/

variable {backend} {now : Instant} {f : Federation σ} {id : NodeId} {n : Node}

/-- What a walk does is what it does at one node, if all walks to the children do it. -/
theorem refreshWithin_induction {P : Federation σ → Federation σ → NodeId → Prop}
    (missing : ∀ f id, f.catalog.node? id = none → P f f id)
    (visit : ∀ walk f id n g, (∀ g g' child, walk g child = some g' →
        Sweeps (fun _ => True) g.catalog g'.catalog ∧ P g g' child) →
      f.catalog.node? id = some n →
      n.children.entries.foldlM (visitChild walk id n) (f.loadOwn backend n) = some g →
      P f (g.modify id (·.stamp now)) id)
    {depth : Nat} {held : List NodeId} {f' : Federation σ}
    (h : refreshWithin backend now depth held f id = some f') : P f f' id := by
  induction depth generalizing held f f' id with
  | zero => cases h
  | succ depth ih =>
      rw [refreshWithin] at h
      split at h
      · cases h
      split at h
      · rename_i found
        cases h
        exact missing f id found
      · rename_i n found
        obtain ⟨g, hg, h⟩ := Option.bind_eq_some_iff.mp h
        cases h
        refine visit _ f id n g (fun g g' child hwalk => ⟨?_, ih hwalk⟩) found hg
        exact sweeps_refreshWithin backend now (g.catalog.covers_everywhere child) hwalk

/-- What holds after a node's own source has been asked, and is kept by each visit to a child, holds
after the visits to all. -/
theorem children_induction {walk : Federation σ → NodeId → Option (Federation σ)}
    (walks : ∀ g g' child, walk g child = some g' →
      Sweeps (fun _ => True) g.catalog g'.catalog)
    (found : f.catalog.node? id = some n) {P : List (String × NodeId) → Federation σ → Prop}
    (start : P [] (f.loadOwn backend n))
    (next : ∀ done entry g g', done ++ [entry] <+: n.children.entries →
      Sweeps (fun _ => True) f.catalog g.catalog → P done g →
      visitChild walk id n g entry = some g' → Sweeps (fun _ => True) f.catalog g'.catalog →
      P (done ++ [entry]) g')
    {g : Federation σ}
    (h : n.children.entries.foldlM (visitChild walk id n) (f.loadOwn backend n) = some g) :
    Sweeps (fun _ => True) f.catalog g.catalog ∧ P n.children.entries g := by
  refine foldlM_prefix (P := fun done g => Sweeps (fun _ => True) f.catalog g.catalog ∧ P done g)
    ?_ ⟨sweeps_loadOwn backend f trivial, start⟩ h
  rintro done entry g g' hprefix ⟨sofar, held⟩ hvisit
  have hentry : entry ∈ n.children.entries := hprefix.subset (by simp)
  have sofar' := sweeps_visitChild (fun _ => walks _ _ _) (f.catalog.covers_everywhere id) found
    hentry sofar hvisit
  exact ⟨sofar', next done entry g g' hprefix sofar held hvisit sofar'⟩

end Federation

/-! ### A refresh ends -/

/-- The nodes from which a walk has come down to `id`. -/
structure Catalog.Descent (c : Catalog) (above : List NodeId) (id : NodeId) : Prop where
  distinct : above.Nodup
  inside : ∀ x ∈ above, x.index < c.nodes.length
  leads : ∀ x ∈ above, TransGen c.Lists x id

namespace Catalog.Descent

variable {c d : Catalog} {above : List NodeId} {id child : NodeId} {n : Node}

theorem of_bareNodes (same : d.bareNodes = c.bareNodes) (h : Descent c above id) :
    Descent d above id where
  distinct := h.distinct
  inside := length_of_bareNodes same ▸ h.inside
  leads := lists_of_bareNodes same ▸ h.leads

theorem not_mem (acyclic : c.AcyclicBelow id) (h : Descent c above id) : id ∉ above :=
  fun hmem => acyclic id .refl (h.leads id hmem)

theorem down (acyclic : c.AcyclicBelow id) (h : Descent c above id) (found : c.node? id = some n)
    (listed : c.Lists id child) : Descent c (id :: above) child where
  distinct := List.nodup_cons.mpr ⟨h.not_mem acyclic, h.distinct⟩
  inside x hx := by
    rcases List.mem_cons.mp hx with rfl | hx
    · exact index_lt_of_node? found
    · exact h.inside x hx
  leads x hx := by
    rcases List.mem_cons.mp hx with rfl | hx
    · exact .single listed
    · exact (h.leads x hx).tail listed

/-- There is always one node more than a walk has left behind. -/
theorem length_lt (acyclic : c.AcyclicBelow id) (h : Descent c above id)
    (found : c.node? id = some n) : above.length < c.nodes.length := by
  have distinct : (id :: above).Nodup := List.nodup_cons.mpr ⟨h.not_mem acyclic, h.distinct⟩
  refine length_le_of_nodup distinct fun x hx => ?_
  rcases List.mem_cons.mp hx with rfl | hx
  · exact index_lt_of_node? found
  · exact h.inside x hx

end Catalog.Descent

namespace Federation

open Catalog (Sweeps Descent)

variable {σ : Type} (backend : Backend σ)

theorem exists_refreshWithin (now : Instant) {depth : Nat} {f : Federation σ} {id : NodeId}
    {n : Node} {above : List NodeId} (acyclic : f.catalog.AcyclicBelow id)
    (descent : Descent f.catalog above id) (found : f.catalog.node? id = some n)
    (enough : f.catalog.nodes.length ≤ depth + above.length) :
    ∃ f', refreshWithin backend now depth above f id = some f' := by
  induction depth generalizing f id n above with
  | zero =>
      have := descent.length_lt acyclic found
      omega
  | succ depth ih =>
      obtain ⟨g, hg, -⟩ : ∃ g, n.children.entries.foldlM
          (visitChild (refreshWithin backend now depth (id :: above)) id n)
          (f.loadOwn backend n) = some g ∧ Sweeps (fun _ => True) f.catalog g.catalog := by
        refine exists_foldlM ?_ (sweeps_loadOwn backend f trivial)
        intro g entry hentry sofar
        have same := sofar.touches.bareNodes
        obtain ⟨m, hm, hlisted⟩ := sofar.touches.listed found hentry
        have acyclic' := acyclic.of_bareNodes same
        have listed : g.catalog.Lists id entry.2 := ⟨m, entry.1, hm, hlisted⟩
        suffices h : ∃ g',
            visitChild (refreshWithin backend now depth (id :: above)) id n g entry = some g' by
          obtain ⟨g', hg'⟩ := h
          exact ⟨g', hg', sweeps_visitChild (sweeps_refreshWithin backend now)
            (f.catalog.covers_everywhere id) found hentry sofar hg'⟩
        unfold visitChild
        split
        · exact ⟨_, rfl⟩
        · rename_i k live
          have deeper := (descent.of_bareNodes same).down acyclic' hm listed
          have length := Catalog.length_of_bareNodes same
          obtain ⟨g', hg'⟩ := ih (acyclic'.child listed) deeper (Catalog.node?_of_get live)
            (by rw [List.length_cons]; omega)
          exact ⟨_, Option.bind_eq_some_iff.mpr ⟨g', hg', rfl⟩⟩
      refine ⟨g.modify id (·.stamp now), ?_⟩
      have new : ¬ above.contains id := fun met =>
        descent.not_mem acyclic (List.contains_iff_mem.mp met)
      rw [refreshWithin, if_neg new]
      simp only [found]
      exact Option.bind_eq_some_iff.mpr ⟨g, hg, rfl⟩

theorem exists_refresh (now : Instant) {f : Federation σ} {id : NodeId}
    (acyclic : f.catalog.AcyclicBelow id) :
    ∃ answer f', f.refresh backend now id = some (answer, f') := by
  unfold refresh
  split
  · exact ⟨_, _, rfl⟩
  · rename_i n live
    have descent : Descent f.catalog [] id := ⟨.nil, by simp, by simp⟩
    obtain ⟨g, hg⟩ := exists_refreshWithin backend now acyclic descent
      (Catalog.node?_of_get live) (Nat.le_add_right _ _)
    exact ⟨.ok (), g, by rw [hg]; rfl⟩

end Federation

end SchemaCatalog
