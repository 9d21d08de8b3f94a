import SchemaCatalog.Proofs.Catalog.Building
import SchemaCatalog.Proofs.Catalog.Frame
import SchemaCatalog.Proofs.Catalog.Later

/-!
Handles of live and of released nodes. What a live node refers to is found, so nothing that is asked
of live nodes fails for want of another; a handle that has been released is never found again, and
never becomes that of another node.
-/

namespace SchemaCatalog

open Relation (ReflTransGen)

namespace Catalog

variable {c d e : Catalog}

/-! ### What live nodes refer to -/

/-- The parent, the children and the recorded owners of a live node are found. -/
structure Closed (c : Catalog) : Prop where
  parents : ∀ id n p, c.get id = .ok n → n.parent = some p → ∃ m, c.get p = .ok m
  children : ∀ id n name q, c.get id = .ok n → n.children.get? name = some q → ∃ m, c.get q = .ok m
  owners : ∀ id n name o, c.get id = .ok n → n.directory.owners.get? name = some o →
    ∃ m, c.get o = .ok m

theorem Sound.closed (h : c.Sound) : c.Closed where
  parents id n p hn hp := isLive_iff.mp (h.parents id n p hn hp)
  children id n name q hn hq := isLive_iff.mp (h.children id n name q hn hq)
  owners id n name o hn ho := isLive_iff.mp (h.owners id n name o hn ho)

/-- What is asked of live nodes is answered without looking for a node in vain. -/
structure Serves (c : Catalog) : Prop where
  parent : ∀ id n, c.get id = .ok n → ∃ above, c.parent id = .ok above
  drop : ∀ id n name missed, c.get id = .ok n →
    (c.drop id name).1 ≠ .error (.schemaNotFound missed)
  attach : ∀ p q m n missed, c.get p = .ok m → c.get q = .ok n →
    (c.attach p q).1 ≠ .error (.schemaNotFound missed)

theorem Sound.parent_eq_ok (h : c.Sound) {id : NodeId} {n : Node} (live : c.get id = .ok n) :
    ∃ above, c.parent id = .ok above := by
  cases hp : n.parent with
  | none => exact ⟨none, bind_eq_ok_iff.mpr ⟨n, live, by rw [hp]; rfl⟩⟩
  | some p =>
      obtain ⟨m, hm⟩ := h.closed.parents id n p live hp
      refine ⟨some m, bind_eq_ok_iff.mpr ⟨n, live, ?_⟩⟩
      rw [hp]
      show some <$> c.get p = _
      rw [hm]
      rfl

theorem Sound.drop_cases (h : c.Sound) {id : NodeId} {n : Node} (live : c.get id = .ok n)
    (name : String) : (∃ t, (c.drop id name).1 = .ok t) ∨
      (c.drop id name).1 = .error (.tableNotFound (Text.lowercase name)) := by
  cases owned : n.ownerOf (Text.lowercase name) with
  | none => exact .inr (by simp [drop, live, owned, bind, Except.bind, throw, throwThe,
      MonadExceptOf.throw])
  | some owner =>
      obtain ⟨chain, above⟩ := h.exists_chain live owned
      obtain ⟨held, -, -, answer, -⟩ := drop_eq live owned above
      rw [answer]
      cases held with
      | none => exact .inr rfl
      | some t => exact .inl ⟨t, rfl⟩

theorem Sound.serves (h : c.Sound) : c.Serves where
  parent _ _ live := h.parent_eq_ok live
  drop id n name missed live := by
    rcases h.drop_cases live name with ⟨t, answer⟩ | answer <;> rw [answer] <;> nofun
  attach p q m n missed hm hn := by
    obtain ⟨refused, carried⟩ := h.attach_answer hm hn
    by_cases above : ReflTransGen c.Under p q
    · rw [refused above]
      nofun
    · rw [carried above]
      nofun

/-! ### Reports of a refresh -/

/-- What is reported on the way from one catalog to another is no warning. -/
def Unwarned (c d : Catalog) : Prop :=
  ∃ new, d.journal = c.journal ++ new ∧ ∀ e ∈ new, e.level ≠ .warn

theorem Unwarned.of_journal (h : d.journal = c.journal) : Unwarned c d :=
  ⟨[], by rw [h, List.append_nil], nofun⟩

theorem Unwarned.debug (c : Catalog) (message : String) : Unwarned c (c.log .debug message) :=
  ⟨[⟨.debug, message⟩], rfl, by simp⟩

theorem Unwarned.error (c : Catalog) (message : String) : Unwarned c (c.log .error message) :=
  ⟨[⟨.error, message⟩], rfl, by simp⟩

theorem Unwarned.trans (h : Unwarned c d) (h' : Unwarned d e) : Unwarned c e := by
  obtain ⟨new, hnew, quiet⟩ := h
  obtain ⟨new', hnew', quiet'⟩ := h'
  refine ⟨new ++ new', by rw [hnew', hnew, List.append_assoc], fun x hx => ?_⟩
  exact (List.mem_append.mp hx).elim (quiet x) (quiet' x)

/-! ### Released nodes -/

/-- A node that has been released: its handle is not found, still leads to the same node where it
has been kept, and is given to no other. -/
structure Buried (id : NodeId) (n : Node) (c : Catalog) : Prop where
  missed : c.get id = .error (.schemaNotFound id.display)
  kept : ∃ n', c.node? id = some n' ∧ n'.origin = n.origin
  untaken : ∀ name config source, (c.insertNode name config source).1 ≠ id

theorem get_eq_error {id : NodeId} (dead : ¬ c.isLive id) :
    c.get id = .error (.schemaNotFound id.display) := by
  simp [get, live?, dead]

theorem Later.buried (h : Later c d) {id : NodeId} {n : Node} (found : c.node? id = some n)
    (dead : ¬ c.isLive id) : Buried id n d where
  missed := get_eq_error fun live => dead (h.isLive_of_isLive (index_lt_of_node? found) live)
  kept := h.kept id n found
  untaken name config source := by
    rintro rfl
    exact absurd (index_lt_of_node? found) (Nat.not_lt.mpr h.length)

end Catalog

/-! ### A refresh passes over nothing -/

namespace Federation

open Catalog (Sweeps Unwarned)

variable {σ : Type} {backend : Backend σ} {f f' : Federation σ} {id : NodeId} {n : Node}

theorem unwarned_loadNew (id : NodeId) (f : Federation σ) (listed : String) :
    Unwarned f.catalog (loadNew backend id f listed).catalog := by
  unfold loadNew
  split
  · exact .of_journal rfl
  rename_i n found
  simp only
  split
  · exact .of_journal rfl
  generalize hf' : f.log .debug _ = f'
  have begun : Unwarned f.catalog f'.catalog := hf' ▸ .debug f.catalog _
  have loaded : (f'.loadListed backend n listed).2.catalog.journal = f'.catalog.journal := by
    rcases loadListed_catalog backend f' n listed with kept | ⟨t, registered⟩
    · rw [kept]
    · rw [registered]
      rfl
  split
  · rename_i g hanswer
    rw [hanswer] at loaded
    exact begun.trans (.of_journal loaded)
  · rename_i e g hanswer
    rw [hanswer] at loaded
    exact (begun.trans (.of_journal loaded)).trans (.error g.catalog _)

theorem unwarned_loadOwn (f : Federation σ) (n : Node) :
    Unwarned f.catalog (f.loadOwn backend n).catalog := by
  unfold loadOwn
  split
  · exact .of_journal rfl
  rename_i source _
  have asked : Unwarned f.catalog (f.listing backend source).2.catalog := by
    simp only [listing]
    split
    · exact .debug f.catalog _
    · exact .of_journal rfl
  have loaded (names : List String) (g : Federation σ) :
      Unwarned g.catalog (names.foldl (loadNew backend n.id) g).catalog := by
    induction names generalizing g with
    | nil => exact .of_journal rfl
    | cons listed names ih => exact (unwarned_loadNew n.id g listed).trans (ih _)
  exact asked.trans (loaded _ _)

theorem visitChild_congr {walk : Federation σ → NodeId → Option (Federation σ)} {m : Node}
    (name : m.name = n.name) : visitChild walk id m = visitChild walk id n := by
  funext f entry
  unfold visitChild
  rw [name]

theorem unwarned_visitChild {walk : Federation σ → NodeId → Option (Federation σ)}
    {entry : String × NodeId} (live : f.catalog.isLive entry.2) (live' : f'.catalog.isLive entry.2)
    (walks : ∀ g, walk f entry.2 = some g → g.catalog.isLive entry.2 →
      Unwarned f.catalog g.catalog)
    (h : visitChild walk id n f entry = some f') : Unwarned f.catalog f'.catalog := by
  obtain ⟨k, hk⟩ := Catalog.isLive_iff.mp live
  unfold visitChild at h
  simp only [hk] at h
  obtain ⟨g, hg, h⟩ := Option.bind_eq_some_iff.mp h
  cases h
  have absorbed : (g.absorbChild id entry.2).catalog.journal = g.catalog.journal ∧
      (g.absorbChild id entry.2).catalog.isLive entry.2 = g.catalog.isLive entry.2 := by
    unfold absorbChild
    split
    · exact ⟨rfl, Catalog.isLive_congr (Catalog.length_nodes_modify _ _ _) rfl _⟩
    · exact ⟨rfl, rfl⟩
  exact (walks g hg (absorbed.2.symm.trans live')).trans (.of_journal absorbed.1)

/-- While the node that a walk begins at stays live, so do its children, and none is passed over. -/
theorem unwarned_children {walk : Federation σ → NodeId → Option (Federation σ)} {g : Federation σ}
    (walks : ∀ g g' child, walk g child = some g' → Sweeps (fun _ => True) g.catalog g'.catalog ∧
      (g.catalog.Sound → g'.catalog.isLive child → Unwarned g.catalog g'.catalog))
    (found : f.catalog.node? id = some n) (sound : f.catalog.Sound)
    (h : n.children.entries.foldlM (visitChild walk id n) (f.loadOwn backend n) = some g)
    (live : g.catalog.isLive id) : Unwarned f.catalog g.catalog := by
  have swept (g g' : Federation σ) (child : NodeId) (hwalk : walk g child = some g') :=
    (walks g g' child hwalk).1
  refine (children_induction (P := fun _ g => g.catalog.isLive id → Unwarned f.catalog g.catalog)
    swept found (fun _ => unwarned_loadOwn f n) ?_ h).2 live
  intro done entry g g' hprefix sofar unwarned hvisit _ live'
  have hentry : entry ∈ n.children.entries := hprefix.subset (by simp)
  obtain ⟨m, hm, hbare⟩ := Catalog.node?_of_bareNodes sofar.touches.bareNodes.symm found
  rw [← Node.children_eq_of_bare hbare] at hentry
  rw [← visitChild_congr (Node.name_eq_of_bare hbare)] at hvisit
  have visited : Sweeps (fun _ => True) g.catalog g'.catalog :=
    sweeps_visitChild (fun _ => swept _ _ _) (g.catalog.covers_everywhere id) hm hentry .refl hvisit
  have same (x : NodeId) : g'.catalog.isLive x = g.catalog.isLive x :=
    visited.touches.isLive live' x
  have live_now : g.catalog.isLive id := (same id).symm.trans live'
  have sound_now : g.catalog.Sound := sofar.sound sound
  have child_live : g.catalog.isLive entry.2 :=
    sound_now.children id m entry.1 entry.2 (Catalog.get_of_isLive live_now hm)
      (NameMap.get?_eq_some_iff.mpr hentry)
  exact (unwarned live_now).trans (unwarned_visitChild child_live ((same entry.2).trans child_live)
    (fun g₂ hwalk => (walks g g₂ entry.2 hwalk).2 sound_now) hvisit)

theorem unwarned_refreshWithin (now : Instant) {depth : Nat} {held : List NodeId}
    (sound : f.catalog.Sound) (h : refreshWithin backend now depth held f id = some f')
    (live : f'.catalog.isLive id) : Unwarned f.catalog f'.catalog := by
  refine refreshWithin_induction (P := fun f f' id => f.catalog.Sound → f'.catalog.isLive id →
    Unwarned f.catalog f'.catalog) ?_ ?_ h sound live
  · intro f id _ _ _
    exact .of_journal rfl
  · intro walk f id n g walks found hg sound live
    have live' : g.catalog.isLive id := by
      rwa [← Catalog.isLive_congr (Catalog.length_nodes_modify _ _ _) rfl id]
    have visited : Unwarned f.catalog g.catalog := unwarned_children walks found sound hg live'
    exact visited.trans (.of_journal rfl)

/-- What a refresh of a live node comes to: as long as the catalog is not shut down meanwhile, all
nodes below it, without a warning about any. -/
structure Thorough (now : Instant) (f f' : Federation σ) (id : NodeId) : Prop where
  unwarned : f'.catalog.isLive id → Unwarned f.catalog f'.catalog
  stamped : f'.catalog.isLive id → ∀ z, ReflTransGen f.catalog.Lists id z →
    f'.catalog.Stamped now z

theorem thorough_refresh {now : Instant} {answer : Except CatalogError Unit}
    (sound : f.catalog.Sound) (live : f.catalog.get id = .ok n)
    (h : f.refresh backend now id = some (answer, f')) :
    answer = .ok () ∧ Thorough now f f' id := by
  have walked := h
  unfold refresh at walked
  simp only [live] at walked
  obtain ⟨g, hg, heq⟩ := Option.map_eq_some_iff.mp walked
  cases heq
  exact ⟨rfl, unwarned_refreshWithin now sound hg, (refreshed_refresh now sound h).all⟩

end Federation

namespace Run

open Catalog (Attached Later Buried)

variable {σ : Type} {r : Run σ} {f f' : Federation σ}

theorem Leads.later (h : r.Leads f f') : Later f.catalog f'.catalog := by
  obtain ⟨done, more, -, hdone, hmore⟩ := h
  induction more using List.reverseRecOn generalizing f' with
  | nil =>
      rw [List.append_nil, hdone] at hmore
      cases hmore
      exact .refl _
  | append_singleton more op ih =>
      rw [← List.append_assoc] at hmore
      obtain ⟨g, hg, hop⟩ := after_concat.mp hmore
      rcases Operation.perform_cases hop with ⟨_, _, _, _, _, attached⟩ | ⟨steps, -⟩
      · exact (ih hg).trans attached.later
      · exact (ih hg).trans steps.later

/-- In every state of a run live nodes refer to live nodes only, so that at a live node the parent
is found, an attachment and a drop miss no node, and a refresh passes over no child unless a source
shuts the catalog down meanwhile. No handle is found after a shutdown, and one of a node that has
been released is never found again and never given to another. -/
theorem handles_resolve :
    (∀ f, r.Visits f → f.catalog.Closed ∧ f.catalog.Serves ∧
      (∀ backend now id n answer f', f.catalog.get id = .ok n →
        f.refresh backend now id = some (answer, f') →
          answer = .ok () ∧ f.Thorough now f' id) ∧
      ∀ id, f.catalog.shutdown.get id = .error (.schemaNotFound id.display)) ∧
    ∀ f f', r.Leads f f' → ∀ id n, f.catalog.node? id = some n → ¬ f.catalog.isLive id →
      Buried id n f'.catalog := by
  refine ⟨fun f visited => ?_, fun f f' leads id n found dead => leads.later.buried found dead⟩
  have sound := Run.sound visited
  refine ⟨sound.closed, sound.serves, fun backend now id n answer f' live h =>
    Federation.thorough_refresh sound live h, fun id => Catalog.get_eq_error ?_⟩
  exact Catalog.not_isLive_of_released rfl rfl id

/-- Two nodes are released, and the first is used through its handle while two others take their
places. -/
def replaced : Run Unit where
  backend := silent
  sources := ()
  operations := [.create "a" none, .create "b" none, .attach ⟨0⟩ ⟨1⟩, .shutdown] ++
    [.create "a" none, .create "b" none, .addTable ⟨0⟩ (.new "t"), .addTable ⟨3⟩ (.new "t"),
      .attach ⟨2⟩ ⟨3⟩]

/-- The first node keeps its table after its release, and the third has its name. -/
theorem handles_resolve_replaced : ∃ f f' g n₀ n₂, replaced.Visits f' ∧ replaced.Leads f f' ∧
    f.catalog.node? ⟨0⟩ = some n₀ ∧ ¬ f.catalog.isLive ⟨0⟩ ∧
    (f'.catalog.node? ⟨0⟩).map (·.directory.names) = some ["t"] ∧
    Buried ⟨0⟩ n₀ f'.catalog ∧ f'.catalog.get ⟨2⟩ = .ok n₂ ∧
    n₂.children.get? "b" = some ⟨3⟩ ∧ n₂.directory.owners.get? "t" = some ⟨3⟩ ∧
    f'.catalog.Closed ∧ f'.catalog.Serves ∧
    f'.refresh replaced.backend ⟨0, 0⟩ ⟨2⟩ = some (.ok (), g) ∧ f'.Thorough ⟨0, 0⟩ g ⟨2⟩ := by
  have computed : ((replaced.after (replaced.operations.take 4)).bind fun f =>
      (replaced.after replaced.operations).bind fun f' =>
        (f'.refresh replaced.backend ⟨0, 0⟩ ⟨2⟩).map fun _ =>
          ((f.catalog.node? ⟨0⟩).isSome, f.catalog.isLive ⟨0⟩,
            (f'.catalog.node? ⟨0⟩).map (·.directory.names),
            (f'.catalog.get ⟨2⟩).toOption.map fun n =>
              decide (n.children.get? "b" = some ⟨3⟩ ∧
                n.directory.owners.get? "t" = some ⟨3⟩))) =
      some (true, false, some ["t"], some true) := by
    decide +kernel
  obtain ⟨f, hf, computed⟩ := Option.bind_eq_some_iff.mp computed
  obtain ⟨f', hf', computed⟩ := Option.bind_eq_some_iff.mp computed
  obtain ⟨⟨answer, g⟩, hrefresh, hfound⟩ := Option.map_eq_some_iff.mp computed
  simp only [Prod.mk.injEq] at hfound
  obtain ⟨hsome, hdead, hnames, hroot⟩ := hfound
  obtain ⟨n₀, found⟩ := Option.isSome_iff_exists.mp hsome
  obtain ⟨n₂, live, hlinks⟩ := exists_ok_of_toOption hroot
  obtain ⟨hchild, howner⟩ := of_decide_eq_true hlinks
  have visited : replaced.Visits f' := ⟨_, List.prefix_rfl, hf'⟩
  have leads : replaced.Leads f f' := ⟨_, _, List.prefix_rfl, hf, hf'⟩
  have dead : ¬ f.catalog.isLive ⟨0⟩ := by simp [hdead]
  obtain ⟨states, later⟩ := handles_resolve (r := replaced)
  obtain ⟨closed, serves, refreshes, -⟩ := states f' visited
  obtain ⟨rfl, thorough⟩ := refreshes _ _ _ _ _ _ live hrefresh
  exact ⟨f, f', g, n₀, n₂, visited, leads, found, dead, hnames, later f f' leads _ _ found dead,
    live, hchild, howner, closed, serves, hrefresh, thorough⟩

/-- A child that is met after the catalog has been shut down is passed over, with a warning. -/
theorem closing_skips_child : ∃ f f' n, closing.Visits f ∧ f.catalog.get ⟨0⟩ = .ok n ∧
    f.refresh closing.backend ⟨0, 0⟩ ⟨0⟩ = some (.ok (), f') ∧
    ∃ new, f'.catalog.journal = f.catalog.journal ++ new ∧
      ⟨.warn, "skipping child \"b\" of \"x\": " ++
        (CatalogError.schemaNotFound "schema#2").message⟩ ∈ new := by
  have computed : ((closing.after closing.operations).bind fun f =>
      (f.refresh closing.backend ⟨0, 0⟩ ⟨0⟩).map fun (answer, f') =>
        ((f.catalog.get ⟨0⟩).toOption.map (·.name), answer.toOption,
          decide (f'.catalog.journal.take f.catalog.journal.length = f.catalog.journal),
          decide (⟨.warn, "skipping child \"b\" of \"x\": " ++
            (CatalogError.schemaNotFound "schema#2").message⟩ ∈
              f'.catalog.journal.drop f.catalog.journal.length))) =
      some (some "x", some (), true, true) := by
    decide +kernel
  obtain ⟨f, hf, computed⟩ := Option.bind_eq_some_iff.mp computed
  obtain ⟨⟨answer, f'⟩, hrefresh, hfound⟩ := Option.map_eq_some_iff.mp computed
  simp only [Prod.mk.injEq] at hfound
  obtain ⟨hlive, hanswer, hbefore, hnew⟩ := hfound
  obtain ⟨n, live, -⟩ := exists_ok_of_toOption hlive
  cases answer with
  | error e => cases hanswer
  | ok =>
      refine ⟨f, f', n, ⟨_, List.prefix_rfl, hf⟩, live, hrefresh, _, ?_, of_decide_eq_true hnew⟩
      have same := of_decide_eq_true hbefore
      calc f'.catalog.journal
          = f'.catalog.journal.take f.catalog.journal.length ++
              f'.catalog.journal.drop f.catalog.journal.length := (List.take_append_drop _ _).symm
        _ = f.catalog.journal ++ f'.catalog.journal.drop f.catalog.journal.length := by rw [same]

end Run

end SchemaCatalog
