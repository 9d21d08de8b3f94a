import SchemaCatalog.Proofs.Catalog.Step
import SchemaCatalog.Proofs.Directory

/-!
Where the entries of a node come from. A step writes tables that were added by hand, tables that the
node's own source described, or what a child held; everything else that it does to a directory is to
remove entries.
-/

namespace SchemaCatalog

/-- Writes to a directory in which every new entry is one of those on offer. -/
inductive Directory.Edits (offered : String → NodeId → Table → Prop) :
    Directory → Directory → Prop where
  | refl (d : Directory) : Edits offered d d
  | register {d e : Directory} {name : String} {owner : NodeId} {t : Table}
      (h : Edits offered d e) (offer : offered name owner t) :
      Edits offered d (e.register name owner t)
  | unregister {d e : Directory} (name : String) (h : Edits offered d e) :
      Edits offered d (e.unregister name)

namespace Directory.Edits

variable {offered : String → NodeId → Table → Prop} {d e : Directory}

theorem aligned (h : Edits offered d e) (hd : d.Aligned) : e.Aligned := by
  induction h with
  | refl => exact hd
  | register _ _ ih => exact ih.register _ _ _
  | unregister name _ ih => exact ih.unregister name

theorem owner (h : Edits offered d e) {name : String} {owner : NodeId}
    (recorded : e.owners.get? name = some owner) :
    d.owners.get? name = some owner ∨ ∃ t, offered name owner t := by
  induction h with
  | refl => exact .inl recorded
  | @register e key owner' t _ offer ih =>
      simp only [Directory.register, NameMap.get?_insert] at recorded
      split at recorded
      · rename_i hname
        cases recorded
        exact .inr ⟨t, hname ▸ offer⟩
      · exact ih recorded
  | unregister key _ ih =>
      simp only [Directory.unregister, NameMap.get?_erase] at recorded
      split at recorded
      · cases recorded
      · exact ih recorded

theorem mono {offered' : String → NodeId → Table → Prop} (h : Edits offered d e)
    (weaker : ∀ name owner t, offered name owner t → offered' name owner t) :
    Edits offered' d e := by
  induction h with
  | refl => exact .refl d
  | register _ offer ih => exact ih.register (weaker _ _ _ offer)
  | unregister name _ ih => exact ih.unregister name

theorem trans {d₁ d₂ d₃ : Directory} (h : Edits offered d₁ d₂) (h' : Edits offered d₂ d₃) :
    Edits offered d₁ d₃ := by
  induction h' with
  | refl => exact h
  | register _ offer ih => exact ih.register offer
  | unregister name _ ih => exact ih.unregister name

end Directory.Edits

namespace Node

/-- An entry as a parent takes it over. -/
def Gives (child : Node) (name : String) (owner : NodeId) (t : Table) : Prop :=
  child.directory.tables.get? name = some t ∧
    owner = (child.directory.owners.get? name).getD child.id

theorem edits_foldl {α : Type} {offered : String → NodeId → Table → Prop} {step : Node → α → Node}
    {l : List α} (h : ∀ n a, a ∈ l → Directory.Edits offered n.directory (step n a).directory)
    (n : Node) : Directory.Edits offered n.directory (l.foldl step n).directory := by
  induction l generalizing n with
  | nil => exact .refl _
  | cons a l ih =>
      rw [List.foldl_cons]
      exact (h n a List.mem_cons_self).trans
        (ih (fun n b hb => h n b (List.mem_cons_of_mem _ hb)) _)

theorem edits_absorb (n child : Node) :
    Directory.Edits child.Gives n.directory (n.absorb child).directory := by
  refine edits_foldl (fun n name _ => ?_) n
  split
  · exact .refl _
  · split
    · rename_i t holds
      exact (Directory.Edits.refl _).register ⟨holds, rfl⟩
    · exact .refl _

theorem edits_mergeChild (n child : Node) :
    Directory.Edits child.Gives n.directory (n.mergeChild child).directory := by
  refine edits_foldl (fun n entry hentry => ?_) n
  exact (Directory.Edits.refl _).register ⟨NameMap.get?_eq_some_iff.mpr hentry, rfl⟩

end Node

namespace Catalog

/-- The entries that a step may write to a node, besides what an attachment brings. -/
inductive Offers (c : Catalog) (id : NodeId) : String → NodeId → Table → Prop where
  | added {n : Node} (t : Table) (found : c.node? id = some n) :
      Offers c id (n.claim t).name id (n.claim t)
  | loaded {other : NodeId} {n : Node} (listed : String) (t : Table)
      (found : c.node? other = some n) (same : n.id = id) :
      Offers c id (Text.lowercase listed) id (n.adopt listed t)
  | taken {child : NodeId} {m n : Node} {key name : String} {owner : NodeId} {t : Table}
      (found : c.node? id = some m) (listed : m.children.get? key = some child)
      (below : c.node? child = some n) (gives : n.Gives name owner t) : Offers c id name owner t

theorem edits_modify {c : Catalog} {offered : NodeId → String → NodeId → Table → Prop}
    {place : NodeId} {change : Node → Node}
    (edits : ∀ n, c.node? place = some n →
      Directory.Edits (offered place) n.directory (change n).directory)
    {id : NodeId} {n' : Node} (found : (c.modify place change).node? id = some n') :
    ∃ n, c.node? id = some n ∧ Directory.Edits (offered id) n.directory n'.directory := by
  rw [node?_modify] at found
  split at found
  · rename_i hid
    subst hid
    obtain ⟨n, hn, rfl⟩ := Option.map_eq_some_iff.mp found
    exact ⟨n, hn, edits n hn⟩
  · exact ⟨n', found, .refl _⟩

theorem Sweep.edits {within : NodeId → Prop} {c d : Catalog} (h : Sweep within c d) {id : NodeId}
    {n' : Node} (found : d.node? id = some n') :
    ∃ n, c.node? id = some n ∧ Directory.Edits (c.Offers id) n.directory n'.directory := by
  cases h with
  | log => exact ⟨n', found, .refl _⟩
  | shutdown => exact ⟨n', found, .refl _⟩
  | discover inside listed t hn =>
      exact edits_modify (fun k hk => (Directory.Edits.refl _).register (.loaded listed t hn rfl))
        found
  | @absorb place child m n name inside hm listed below =>
      refine edits_modify (fun k hk => ?_) found
      rw [hm] at hk
      cases hk
      exact (m.edits_absorb n).mono fun _ _ _ gives => .taken hm listed below gives
  | stamp inside now =>
      refine edits_modify (fun k hk => ?_) found
      exact .refl _

theorem Erasures.edits {offered : NodeId → String → NodeId → Table → Prop} {name : String}
    {c d : Catalog} (h : Erasures name c d) {id : NodeId} {n' : Node}
    (found : d.node? id = some n') :
    ∃ n, c.node? id = some n ∧ Directory.Edits (offered id) n.directory n'.directory := by
  induction h generalizing n' with
  | refl => exact ⟨n', found, .refl _⟩
  | tail _ hstep ih =>
      cases hstep with
      | log => exact ih found
      | unregister place =>
          obtain ⟨m, hm, last⟩ := edits_modify
            (fun k _ => (Directory.Edits.refl k.directory).unregister name) found
          obtain ⟨n, hn, edits⟩ := ih hm
          exact ⟨n, hn, edits.trans last⟩

theorem Touch.edits {c d : Catalog} (h : Touch c d) {id : NodeId} {n' : Node}
    (found : d.node? id = some n') :
    ∃ n, c.node? id = some n ∧ Directory.Edits (c.Offers id) n.directory n'.directory := by
  cases h with
  | sweep h => exact h.edits found
  | addTable place t =>
      unfold Catalog.addTable at found
      split at found
      · exact ⟨n', found, .refl _⟩
      · rename_i n hn
        refine edits_modify (fun k hk => ?_) found
        rw [hn] at hk
        cases hk
        exact (Directory.Edits.refl _).register (.added t hn)
  | demand name listed t hn =>
      exact edits_modify (fun k hk => (Directory.Edits.refl _).register (.loaded listed t hn rfl))
        found
  | drop place name => exact (erasures_drop c place name).edits found

/-- What an attachment leaves in the directories: the parent takes over every entry of the child. -/
theorem Attached.edits {c d : Catalog} {parent child : NodeId} {m n : Node}
    (h : Attached c parent child m n d) {id : NodeId} {k' : Node} (found : d.node? id = some k') :
    ∃ k, c.node? id = some k ∧
      Directory.Edits (fun name owner t => id = parent ∧ n.Gives name owner t)
        k.directory k'.directory := by
  rw [h.node?] at found
  split at found
  · rename_i hid
    cases found
    have merged := Node.edits_mergeChild { m with children := m.children.insert n.name child } n
    exact ⟨m, hid ▸ h.parent_found,
      merged.mono fun _ _ _ gives => ⟨hid, gives⟩⟩
  · split at found
    · rename_i hid
      cases found
      exact ⟨n, hid ▸ h.child_found, .refl _⟩
    · exact ⟨k', found, .refl _⟩

end Catalog

end SchemaCatalog
