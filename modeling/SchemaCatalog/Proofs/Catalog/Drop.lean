import SchemaCatalog.Catalog.Drop
import SchemaCatalog.Proofs.Catalog.Links

/-!
What dropping a table does to the nodes: those of the owner's chain that record the owner for the
name lose their entry, whether the owner turns out to hold the table or not.
-/

namespace SchemaCatalog

open Relation (ReflTransGen)

namespace Node

/-- Removes the entry of a name if it has this owner. -/
def release (name : String) (owner : NodeId) (n : Node) : Node :=
  if n.directory.owners.get? name = some owner then n.unregister name else n

theorem release_of_owner {name : String} {owner : NodeId} {n : Node}
    (h : n.directory.owners.get? name = some owner) : n.release name owner = n.unregister name :=
  if_pos h

theorem release_of_ne {name : String} {owner : NodeId} {n : Node}
    (h : n.directory.owners.get? name ≠ some owner) : n.release name owner = n :=
  if_neg h

theorem owners_unregister (n : Node) (name : String) :
    (n.unregister name).directory.owners.get? name = none := by
  simp [unregister, Directory.unregister, NameMap.get?_erase]

@[simp] theorem release_release (n : Node) (name : String) (owner : NodeId) :
    (n.release name owner).release name owner = n.release name owner := by
  by_cases h : n.directory.owners.get? name = some owner
  · rw [release_of_owner h, release_of_ne]
    rw [owners_unregister]
    exact nofun
  · rw [release_of_ne h, release_of_ne h]

theorem release_eq_self_iff {n : Node} {name : String} {owner : NodeId} :
    n.release name owner = n ↔ n.directory.owners.get? name ≠ some owner := by
  refine ⟨fun h howner => ?_, release_of_ne⟩
  rw [release_of_owner howner] at h
  have hnone := n.owners_unregister name
  rw [h, howner] at hnone
  cases hnone

end Node

namespace Catalog

variable {name : String} {owner : NodeId}

/-! ### Along a chain -/

theorem exists_get_modify {c : Catalog} {x : NodeId} (live : ∃ n, c.get x = .ok n) (id : NodeId)
    (change : Node → Node) : ∃ n, (c.modify id change).get x = .ok n := by
  obtain ⟨n, hn⟩ := live
  obtain ⟨hlive, found⟩ := get_eq_ok_iff.mp hn
  have hlive' : (c.modify id change).isLive x := by
    rw [isLive, released_modify, length_nodes_modify]
    exact hlive
  refine ⟨if id = x then change n else n, get_of_isLive hlive' ?_⟩
  rw [node?_modify, found]
  split <;> rfl

/-- Steps of a drop: reports, and nodes that lose the entry of the name. -/
inductive Erasure (name : String) : Catalog → Catalog → Prop where
  | log {c : Catalog} {level : Level} {message : String}
      (other : (LogEntry.mk level message).isAttachment = false) :
      Erasure name c (c.log level message)
  | unregister {c : Catalog} (id : NodeId) : Erasure name c (c.modify id (·.unregister name))

abbrev Erasures (name : String) : Catalog → Catalog → Prop := ReflTransGen (Erasure name)

theorem Erasures.bareNodes {c d : Catalog} (h : Erasures name c d) :
    d.bareNodes = c.bareNodes := by
  induction h with
  | refl => rfl
  | tail _ hstep ih =>
      cases hstep with
      | log => exact ih
      | unregister id => rw [bareNodes_modify _ id fun n => n.bare_unregister name, ih]

theorem Erasures.released {c d : Catalog} (h : Erasures name c d) : d.released = c.released := by
  induction h with
  | refl => rfl
  | tail _ hstep ih => cases hstep <;> exact ih

theorem Erasures.attachments {c d : Catalog} (h : Erasures name c d) :
    d.attachments = c.attachments := by
  induction h with
  | refl => rfl
  | tail _ hstep ih =>
      cases hstep with
      | log other => rw [attachments_log_other _ other, ih]
      | unregister => exact ih

theorem erasures_eraseAlong (name : String) (owner : NodeId) (held : Option Table) (c : Catalog)
    (chain : List NodeId) : Erasures name c (eraseAlong name owner held c chain).2 := by
  induction chain generalizing held c with
  | nil => exact .refl
  | cons id rest ih =>
      simp only [eraseAlong]
      split
      · exact .refl
      · split
        · exact (ih _ _).head (.unregister id)
        · exact ih _ _

theorem node?_unregister_of_owner {c : Catalog} {id : NodeId} {n : Node}
    (found : c.node? id = some n) (h : n.directory.owners.get? name = some owner) (x : NodeId) :
    (c.modify id (·.unregister name)).node? x =
      if x = id then (c.node? x).map (·.release name owner) else c.node? x := by
  rw [node?_modify]
  by_cases hx : x = id
  · subst hx
    simp [found, Node.release_of_owner h]
  · rw [if_neg (Ne.symm hx), if_neg hx]

theorem node?_release_of_ne {c : Catalog} {id : NodeId} {n : Node} (found : c.node? id = some n)
    (h : n.directory.owners.get? name ≠ some owner) (x : NodeId) :
    c.node? x = if x = id then (c.node? x).map (·.release name owner) else c.node? x := by
  by_cases hx : x = id
  · subst hx
    simp [found, Node.release_of_ne h]
  · rw [if_neg hx]

/-- Over live nodes the walk succeeds, and every node of the chain has released the name. -/
theorem eraseAlong_spec (name : String) (owner : NodeId) (held : Option Table) {c : Catalog}
    {chain : List NodeId} (live : ∀ x ∈ chain, ∃ n, c.get x = .ok n) :
    (∃ held', (eraseAlong name owner held c chain).1 = .ok held') ∧
      ∀ x, (eraseAlong name owner held c chain).2.node? x =
        if x ∈ chain then (c.node? x).map (·.release name owner) else c.node? x := by
  induction chain generalizing held c with
  | nil => exact ⟨⟨held, rfl⟩, by simp [eraseAlong]⟩
  | cons id rest ih =>
      obtain ⟨n, hn⟩ := live id List.mem_cons_self
      have found := node?_of_get hn
      have tail {held : Option Table} {d : Catalog}
          (hd : ∀ x, d.node? x =
            if x = id then (c.node? x).map (·.release name owner) else c.node? x)
          (hlive : ∀ x ∈ rest, ∃ k, d.get x = .ok k) :
          (∃ held', (eraseAlong name owner held d rest).1 = .ok held') ∧
            ∀ x, (eraseAlong name owner held d rest).2.node? x =
              if x ∈ id :: rest then (c.node? x).map (·.release name owner) else c.node? x := by
        obtain ⟨hok, hnodes⟩ := ih held hlive
        refine ⟨hok, fun x => ?_⟩
        rw [hnodes, hd]
        by_cases hx : x = id <;> by_cases hrest : x ∈ rest <;>
          simp [hx, hrest, Function.comp_def]
      simp only [eraseAlong, hn]
      split
      · rename_i howner
        exact tail (node?_unregister_of_owner found howner) fun x hx =>
          exists_get_modify (live x (List.mem_cons_of_mem _ hx)) _ _
      · rename_i howner
        exact tail (node?_release_of_ne found howner) fun x hx =>
          live x (List.mem_cons_of_mem _ hx)

theorem eraseAlong_of_not_mem {held : Option Table} {c : Catalog} {chain : List NodeId}
    (live : ∀ x ∈ chain, ∃ n, c.get x = .ok n) (absent : owner ∉ chain) :
    (eraseAlong name owner held c chain).1 = .ok held := by
  induction chain generalizing c with
  | nil => rfl
  | cons id rest ih =>
      obtain ⟨n, hn⟩ := live id List.mem_cons_self
      obtain ⟨hne, hrest⟩ := not_or.mp (mt List.mem_cons.mpr absent)
      simp only [eraseAlong, hn, if_neg (Ne.symm hne)]
      split
      · exact ih (fun x hx => exists_get_modify (live x (List.mem_cons_of_mem _ hx)) _ _) hrest
      · exact ih (fun x hx => live x (List.mem_cons_of_mem _ hx)) hrest

theorem eraseAlong_of_owner (held : Option Table) {c : Catalog} {chain : List NodeId} {n : Node}
    {t : Table} (live : ∀ x ∈ chain, ∃ n, c.get x = .ok n) (distinct : chain.Nodup)
    (mem : owner ∈ chain) (found : c.node? owner = some n)
    (owned : n.directory.owners.get? name = some owner)
    (holds : n.directory.tables.get? name = some t) :
    (eraseAlong name owner held c chain).1 = .ok (some t) := by
  induction chain generalizing held c with
  | nil => cases mem
  | cons id rest ih =>
      obtain ⟨k, hk⟩ := live id List.mem_cons_self
      obtain ⟨hid, hdistinct⟩ := List.nodup_cons.mp distinct
      simp only [eraseAlong, hk]
      by_cases heq : id = owner
      · subst heq
        rw [node?_of_get hk] at found
        cases found
        rw [if_pos owned, if_pos rfl, holds]
        exact eraseAlong_of_not_mem
          (fun x hx => exists_get_modify (live x (List.mem_cons_of_mem _ hx)) _ _) hid
      · have hmem : owner ∈ rest := (List.mem_cons.mp mem).resolve_left (Ne.symm heq)
        split
        · refine ih _ (fun x hx => exists_get_modify (live x (List.mem_cons_of_mem _ hx)) _ _)
            hdistinct hmem ?_
          rw [node?_modify, if_neg heq]
          exact found
        · exact ih _ (fun x hx => live x (List.mem_cons_of_mem _ hx)) hdistinct hmem found

/-! ### The whole operation -/

theorem erasures_drop (c : Catalog) (id : NodeId) (name : String) :
    Erasures (Text.lowercase name) c (c.drop id name).2 := by
  unfold drop
  simp only
  split
  · exact .refl
  rename_i owner chain _
  have erased := erasures_eraseAlong (Text.lowercase name) owner none c chain
  split
  · rename_i hcase
    rw [hcase] at erased
    exact erased
  · rename_i hcase
    rw [hcase] at erased
    have other (d : Catalog) : Erasure (Text.lowercase name) d (d.log .debug
        s!"dropped table {Text.quoted (Text.lowercase name)} owned by {owner.display}") :=
      .log (by simp [LogEntry.isAttachment, toString, List.isPrefixOf])
    split <;> exact erased.tail (other _)

/-- A drop that finds no owner, or no way up from it, changes nothing. -/
theorem drop_of_no_chain {c : Catalog} {id : NodeId}
    (none_found : ∀ n owner chain, c.get id = .ok n →
      n.ownerOf (Text.lowercase name) = some owner → c.ancestors owner ≠ .ok chain) :
    (c.drop id name).2 = c := by
  unfold drop
  simp only
  split
  · rfl
  rename_i owner chain hroute
  obtain ⟨n, hn, hroute⟩ := bind_eq_ok_iff.mp hroute
  split at hroute
  · cases hroute
  · rename_i owner' howned
    obtain ⟨above, habove, -⟩ := bind_eq_ok_iff.mp hroute
    exact absurd habove (none_found n owner' above hn howned)

theorem live_of_ancestors {c : Catalog} {chain : List NodeId}
    (above : c.ancestors owner = .ok chain) : ∀ x ∈ chain.reverse, ∃ k, c.get x = .ok k :=
  fun x hx => (ancestors_walked above).live x (List.mem_reverse.mp hx)

section Found

variable {c : Catalog} {id : NodeId} {n : Node} {chain : List NodeId} (live : c.get id = .ok n)
  (owned : n.ownerOf (Text.lowercase name) = some owner) (above : c.ancestors owner = .ok chain)

include live owned above

/-- The answer is what the walk along the chain brings back, and the walk leaves the nodes. -/
theorem drop_eq : ∃ held d,
    eraseAlong (Text.lowercase name) owner none c chain.reverse = (.ok held, d) ∧
      (c.drop id name).1 = held.elim (.error (.tableNotFound (Text.lowercase name))) .ok ∧
      (c.drop id name).2.nodes = d.nodes := by
  obtain ⟨⟨held, hheld⟩, -⟩ :=
    eraseAlong_spec (Text.lowercase name) owner none (live_of_ancestors above)
  obtain ⟨d, hd⟩ : ∃ d, eraseAlong (Text.lowercase name) owner none c chain.reverse =
      (.ok held, d) := ⟨_, Prod.ext hheld rfl⟩
  refine ⟨held, d, hd, ?_, ?_⟩ <;>
    simp only [drop, live, owned, above, bind, Except.bind, pure, Except.pure, hd] <;>
    cases held <;> rfl

theorem node?_drop (x : NodeId) : (c.drop id name).2.node? x =
    if x ∈ chain then (c.node? x).map (·.release (Text.lowercase name) owner) else c.node? x := by
  obtain ⟨held, d, hd, -, hnodes⟩ := drop_eq live owned above
  have hspec :=
    (eraseAlong_spec (Text.lowercase name) owner none (live_of_ancestors above)).2 x
  rw [hd] at hspec
  simp only [List.mem_reverse] at hspec
  rw [node?, hnodes]
  exact hspec

/-- The nodes stay as they were exactly when no node of the owner's chain records the owner. -/
theorem nodes_drop_eq_iff : (c.drop id name).2.nodes = c.nodes ↔
    ∀ x m, x ∈ chain → c.node? x = some m →
      m.directory.owners.get? (Text.lowercase name) ≠ some owner := by
  constructor
  · intro same x m mem found
    have hnode := node?_drop live owned above x
    rw [if_pos mem, node?, same] at hnode
    have released : m.release (Text.lowercase name) owner = m := by
      have hboth := hnode.symm.trans found
      rw [found] at hboth
      exact Option.some.inj hboth
    exact Node.release_eq_self_iff.mp released
  · intro cleared
    refine List.ext_getElem? fun i => ?_
    have hnode := node?_drop live owned above ⟨i⟩
    refine hnode.trans ?_
    split
    · rename_i mem
      cases found : c.node? ⟨i⟩ with
      | none => exact found.symm
      | some m =>
          rw [Option.map_some, Node.release_of_ne (cleared ⟨i⟩ m mem found)]
          exact found.symm
    · rfl

theorem drop_of_holder {m : Node} {t : Table} (found : c.node? owner = some m)
    (own : m.directory.owners.get? (Text.lowercase name) = some owner)
    (holds : m.directory.tables.get? (Text.lowercase name) = some t) :
    (c.drop id name).1 = .ok t := by
  obtain ⟨held, d, hd, hanswer, -⟩ := drop_eq live owned above
  have walked := ancestors_walked above
  have hheld := eraseAlong_of_owner none (live_of_ancestors above)
    (List.nodup_reverse.mpr walked.distinct) (List.mem_reverse.mpr walked.begun) found own holds
  rw [hd] at hheld
  cases hheld
  exact hanswer

end Found

end Catalog

end SchemaCatalog
