import SchemaCatalog.Proofs.Catalog.Live

/-!
The way up from a node. Attachments redirect parent links, and each is checked against the parent's
own way up, so the links never close a cycle: every way up ends at a node without a parent, and the
walk to the ancestors takes exactly this way.
-/

namespace SchemaCatalog

open Relation (ReflTransGen TransGen)

namespace Catalog

variable {c d : Catalog} {id : NodeId} {chain : List NodeId} {next : Option NodeId}

/-! ### Parent links have no cycle -/

/-- No node comes back to itself by parent links. -/
def Rooted (c : Catalog) : Prop :=
  ∀ id, ¬ TransGen c.Under id id

theorem rooted_empty (window : Millis) : Rooted { window } := by
  intro id way
  obtain ⟨_, ⟨n, found, -⟩, -⟩ := TransGen.head'_iff.mp way
  cases found

/-- The child may be moved with all that is below it: only its own link changes, and what it is
linked to does not lead back to it. -/
theorem Attached.rooted {parent child : NodeId} {m n : Node} (h : Attached c parent child m n d)
    (rooted : c.Rooted) : d.Rooted := by
  refine (acyclic_redirect_iff (fun a b apart => ?_) ?_ (fun z up => ?_) rooted).mpr h.not_above
  · rw [h.under_iff, if_neg apart]
  · rw [h.under_iff, if_pos rfl]
  · rw [h.under_iff, if_pos rfl] at up
    exact .inl up

theorem Step.rooted (h : Step c d) (rooted : c.Rooted) : d.Rooted := by
  cases h with
  | touch h =>
      unfold Rooted
      rwa [under_of_bareNodes h.bareNodes]
  | create name config source =>
      unfold Rooted
      rwa [under_insertNode]
  | place new accepted =>
      obtain ⟨m, n, attached⟩ := attached_of_ok accepted
      exact attached.rooted rooted

/-! ### The way up -/

/-- The way up from a node: the nodes on it, nearest first, and the parent of the last of them.
Every node on it is live. -/
inductive Ascent (c : Catalog) (id : NodeId) : List NodeId → Option NodeId → Prop where
  | start {n : Node} (live : c.get id = .ok n) : Ascent c id [id] n.parent
  | rise {chain : List NodeId} {next : NodeId} {n : Node} (below : Ascent c id chain (some next))
      (live : c.get next = .ok n) : Ascent c id (chain ++ [next]) n.parent

namespace Ascent

theorem leads (h : Ascent c id chain next) {above : NodeId} (hnext : next = some above) :
    ∀ x ∈ chain, TransGen c.Under x above := by
  induction h generalizing above with
  | start live =>
      intro x mem
      rw [List.mem_singleton.mp mem]
      exact .single ⟨_, node?_of_get live, hnext⟩
  | rise below live ih =>
      have link : c.Under _ above := ⟨_, node?_of_get live, hnext⟩
      intro x mem
      rcases List.mem_append.mp mem with mem | mem
      · exact (ih rfl x mem).tail link
      · rw [List.mem_singleton.mp mem]
        exact .single link

theorem unseen {above : NodeId} (h : Ascent c id chain (some above)) (rooted : c.Rooted) :
    above ∉ chain :=
  fun mem => rooted above (h.leads rfl above mem)

theorem walked (h : Ascent c id chain next) (rooted : c.Rooted) : Walked c id chain next := by
  induction h with
  | start live => exact .start live
  | rise below live ih => exact ih.visit (below.unseen rooted) live

/-- The walk to the ancestors takes the way up, step by step, and has always a step left. -/
theorem ancestors_eq (h : Ascent c id chain next) (rooted : c.Rooted) :
    c.ancestors id = c.chainFrom (c.nodes.length + 1 - chain.length) chain next := by
  induction h with
  | start live =>
      rw [ancestors, live]
      rfl
  | @rise chain above n below live ih =>
      have short := (below.walked rooted).length_le
      obtain ⟨steps, hsteps⟩ : ∃ steps, c.nodes.length + 1 - chain.length = steps + 1 :=
        ⟨c.nodes.length - chain.length, by omega⟩
      have rest : c.nodes.length + 1 - (chain ++ [above]).length = steps := by
        rw [List.length_append, List.length_singleton]
        omega
      have fresh : ¬ chain.contains above := fun met =>
        below.unseen rooted (List.contains_iff_mem.mp met)
      rw [ih, hsteps, rest, chainFrom, if_neg fresh, live]
      rfl

theorem next_live {above : NodeId} (h : Ascent c id chain (some above)) (sound : c.Sound) :
    ∃ n, c.get above = .ok n := by
  generalize hnext : some above = next at h
  cases h with
  | start live => exact isLive_iff.mp (sound.parents _ _ _ live hnext.symm)
  | rise below live => exact isLive_iff.mp (sound.parents _ _ _ live hnext.symm)

end Ascent

/-- From a live node the way up has an end: every step makes it longer, and it is never longer than
the list of nodes. -/
theorem Sound.exists_ascent (h : c.Sound) (rooted : c.Rooted) (live : c.isLive id) :
    ∃ chain, Ascent c id chain none := by
  have climb (left : Nat) : ∀ (chain : List NodeId) (next : Option NodeId),
      Ascent c id chain next → c.nodes.length < left + chain.length →
        ∃ chain, Ascent c id chain none := by
    induction left with
    | zero =>
        intro chain next way enough
        have short := (way.walked rooted).length_le
        omega
    | succ left ih =>
        intro chain next way enough
        cases next with
        | none => exact ⟨chain, way⟩
        | some above =>
            obtain ⟨n, hn⟩ := way.next_live h
            refine ih _ _ (way.rise hn) ?_
            rw [List.length_append, List.length_singleton]
            omega
  obtain ⟨n, hn⟩ := isLive_iff.mp live
  exact climb c.nodes.length [id] n.parent (.start hn) (Nat.lt_succ_self _)

/-- A whole way up: different live nodes, from `id` to a node without a parent. It is what the walk
to the ancestors answers. -/
structure Ascends (c : Catalog) (id : NodeId) (chain : List NodeId) : Prop where
  way : Ascent c id chain none
  distinct : chain.Nodup
  live : ∀ x ∈ chain, c.isLive x
  answer : c.ancestors id = .ok chain

theorem Ascent.ascends (h : Ascent c id chain none) (rooted : c.Rooted) : c.Ascends id chain := by
  have walked := h.walked rooted
  refine ⟨h, walked.distinct, fun x mem => isLive_iff.mpr (walked.live x mem), ?_⟩
  rw [h.ancestors_eq rooted]
  cases c.nodes.length + 1 - chain.length <;> rfl

/-- An attachment of two live nodes is refused when the child is on the parent's way up, the parent
itself included, and succeeds when it is not. -/
structure Checks (c : Catalog) (parent child : NodeId) (m n : Node) (chain : List NodeId) :
    Prop where
  refused : child ∈ chain → c.attach parent child = (.error (.ownDescendant n.name m.name), c)
  accepted : child ∉ chain → (c.attach parent child).1 = .ok ()
  invalid_iff : (∃ detail, (c.attach parent child).1 = .error (.invalidOperation detail)) ↔
    child ∈ chain

theorem Sound.checks (h : c.Sound) (rooted : c.Rooted) {parent child : NodeId} {m n : Node}
    (hm : c.get parent = .ok m) (hn : c.get child = .ok n) (way : Ascent c parent chain none) :
    c.Checks parent child m n chain := by
  obtain ⟨refuse, accept⟩ := h.attach_answer hm hn
  rw [← (way.walked rooted).mem_iff] at refuse accept
  have refused (mem : child ∈ chain) :
      c.attach parent child = (.error (.ownDescendant n.name m.name), c) := by
    refine Prod.ext (refuse mem) (attach_of_error ?_)
    rw [refuse mem]
    exact nofun
  refine ⟨refused, accept, ?_, fun mem => ⟨_, by rw [refused mem]; rfl⟩⟩
  rintro ⟨detail, answer⟩
  by_contra apart
  rw [accept apart] at answer
  cases answer

end Catalog

/-! ### Runs -/

namespace Run

variable {σ : Type} {r : Run σ} {f : Federation σ}

theorem rooted (visited : r.Visits f) : f.catalog.Rooted :=
  invariant Catalog.rooted_empty Catalog.Step.rooted Catalog.Attached.rooted visited

/-- In every state of every run, whatever has been attached to what, there is one way up from a live
node: through different live nodes to one without a parent. The walk to the ancestors takes it from
end to end and is never stopped by a node that it has met before. An attachment is refused exactly
when the child is on the parent's way up, and then changes nothing. -/
theorem ways_up (visited : r.Visits f) :
    (∀ id, f.catalog.isLive id → (∃ chain, f.catalog.Ascent id chain none) ∧
      ∀ chain, f.catalog.Ascent id chain none → f.catalog.Ascends id chain) ∧
    (∀ id chain above, f.catalog.Ascent id chain (some above) → above ∉ chain ∧
      f.catalog.ancestors id =
        f.catalog.chainFrom (f.catalog.nodes.length + 1 - chain.length) chain (some above)) ∧
    ∀ parent child m n chain, f.catalog.get parent = .ok m → f.catalog.get child = .ok n →
      f.catalog.Ascent parent chain none → f.catalog.Checks parent child m n chain := by
  have sound := Run.sound visited
  have rooted := Run.rooted visited
  refine ⟨fun id live => ⟨sound.exists_ascent rooted live, fun chain way => way.ascends rooted⟩,
    fun id chain above way => ⟨way.unseen rooted, way.ancestors_eq rooted⟩, ?_⟩
  intro parent child m n chain hm hn way
  exact sound.checks rooted hm hn way

/-- A node is moved to another parent with the one below it. -/
def moved : Run Unit where
  backend := silent
  sources := ()
  operations := [.create "a" none, .create "b" none, .create "c" none, .create "d" none,
    .attach ⟨0⟩ ⟨1⟩, .attach ⟨1⟩ ⟨2⟩, .attach ⟨3⟩ ⟨1⟩]

/-- The former parent is not on the way up any more and may be put below it, the new one may not. -/
theorem ways_up_moved : ∃ f, moved.Visits f ∧ f.catalog.Ascends ⟨2⟩ [⟨2⟩, ⟨1⟩, ⟨3⟩] ∧
    f.catalog.attach ⟨2⟩ ⟨3⟩ = (.error (.ownDescendant "d" "c"), f.catalog) ∧
    (f.catalog.attach ⟨2⟩ ⟨0⟩).1 = .ok () := by
  have computed : (moved.after moved.operations).bind (fun f =>
      (f.catalog.ancestors ⟨2⟩).toOption.map fun chain =>
        (chain, [0, 2, 3].map fun i => (f.catalog.get ⟨i⟩).toOption.map (·.name))) =
      some ([⟨2⟩, ⟨1⟩, ⟨3⟩], [some "a", some "c", some "d"]) := by
    decide +kernel
  obtain ⟨f, hf, hfound⟩ := Option.bind_eq_some_iff.mp computed
  obtain ⟨chain, answer, hparts⟩ := exists_ok_of_toOption hfound
  simp only [List.map_cons, List.map_nil, Prod.mk.injEq, List.cons.injEq, and_true] at hparts
  obtain ⟨rfl, ha, hc, hd⟩ := hparts
  obtain ⟨a, live_a, -⟩ := exists_ok_of_toOption ha
  obtain ⟨c, live_c, named_c⟩ := exists_ok_of_toOption hc
  obtain ⟨d, live_d, named_d⟩ := exists_ok_of_toOption hd
  have visited : moved.Visits f := ⟨_, List.prefix_rfl, hf⟩
  obtain ⟨ways, -, checks⟩ := ways_up visited
  obtain ⟨⟨chain, way⟩, whole⟩ := ways ⟨2⟩ (Catalog.isLive_of_get live_c)
  have same := (whole chain way).answer
  rw [answer] at same
  cases same
  refine ⟨f, visited, whole _ way, ?_, ?_⟩
  · rw [(checks _ _ _ _ _ live_c live_d way).refused (by simp), named_c, named_d]
  · exact (checks _ _ _ _ _ live_c live_a way).accepted (by simp)

end Run

end SchemaCatalog
