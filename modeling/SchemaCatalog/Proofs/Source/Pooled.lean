import SchemaCatalog.Proofs.Catalog.Supply
import SchemaCatalog.Proofs.Source.Declared
import SchemaCatalog.Registry.Basic

/-!
Sources held in memory, among others in a pool. Questions leave them as they are, and what a node
gets from one of them are the last declarations of the names that the node lets in.
-/

namespace SchemaCatalog

variable {α β : Type}

namespace SourcePool

variable {pool : SourcePool α} {id : SourceId} {source : α}

theorem set_of_get? (h : pool.get? id = some source) : pool.set id source = pool := by
  obtain ⟨hlt, rfl⟩ := List.getElem?_eq_some_iff.mp h
  show SourcePool.mk _ = _
  rw [List.set_getElem_self hlt]

theorem ask_of_get? (h : pool.get? id = some source) {question : α → β × α} {answer : β}
    (same : question source = (answer, source)) (absent : β) :
    pool.ask id question absent = (answer, pool) := by
  unfold ask
  rw [h]
  simp only [same, set_of_get? h]

theorem get?_add (pool : SourcePool α) (source : α) :
    (pool.add source).2.get? (pool.add source).1 = some source := by
  simp [add, get?]

theorem get?_add_of_some (h : pool.get? id = some source) (other : α) :
    (pool.add other).2.get? id = some source := by
  obtain ⟨hlt, -⟩ := List.getElem?_eq_some_iff.mp h
  show (pool.sources ++ [other])[id.index]? = _
  rw [List.getElem?_append_left hlt]
  exact h

end SourcePool

namespace MemorySource

/-- What a source held in memory answers, whichever of them is asked. -/
def answers (s : MemorySource) : Answers where
  list _ := s.tableNames
  describe _ name := .ok (s.table? name)

variable (other : SourceKind β) {pool : SourcePool (MemorySource ⊕ β)} {id : SourceId}
  {s : MemorySource}

theorem list_eq (held : pool.get? id = some (.inl s)) :
    (SourcePool.backend (kind.sum other)).list id pool = ({ names := s.tableNames }, pool) := by
  have same : (kind.sum other).list (.inl s) = ({ names := s.tableNames }, .inl s) := rfl
  exact SourcePool.ask_of_get? held same _

theorem describe_eq (held : pool.get? id = some (.inl s)) (name : String) :
    (SourcePool.backend (kind.sum other)).describe id name pool = (.ok (s.table? name), pool) := by
  have same : (kind.sum other).describe name (.inl s) = (.ok (s.table? name), .inl s) := rfl
  exact SourcePool.ask_of_get? held same _

theorem givesAt (held : pool.get? id = some (.inl s)) :
    (SourcePool.backend (kind.sum other)).GivesAt s.answers id (· = pool) where
  list world same := by
    rw [same, list_eq other held]
    exact ⟨rfl, rfl⟩
  describe name world same := by
    rw [same, describe_eq other held name]
    exact ⟨rfl, rfl⟩

/-- A node gets the last declarations of the names that it lets in. -/
theorem supply_ofSettings {n : Node} (hsource : n.source = some id) (source name : String)
    (settings : List TableSetting) (t : Table) :
    (ofSettings source settings).answers.supply n name = some t ↔ n.allows name ∧
      ∃ setting, DeclaresLast settings name setting ∧ n.adopt name setting.toTable = t := by
  have forward {t : Table} (h : (ofSettings source settings).answers.supply n name = some t) :
      n.allows name ∧
        ∃ setting, DeclaresLast settings name setting ∧ n.adopt name setting.toTable = t := by
    obtain ⟨id', -, hfind⟩ := Option.bind_eq_some_iff.mp h
    obtain ⟨listed, hlisted, hoffer⟩ := List.exists_of_findSome?_eq_some hfind
    obtain ⟨hname, allowed, described, hdescribed, rfl⟩ := Answers.offer_eq_some_iff.mp hoffer
    obtain ⟨other, hother, rfl⟩ := List.mem_map.mp hlisted
    rw [lowercase_of_mem_ofSettings hother] at hname
    rw [← hname] at allowed ⊢
    have held : (ofSettings source settings).table? other.name = some described := by
      simpa [answers] using hdescribed
    rw [table?, lowercase_of_mem_ofSettings hother, find?_ofSettings] at held
    obtain ⟨setting, last, rfl⟩ := held
    exact ⟨allowed, setting, last, rfl⟩
  refine ⟨forward, ?_⟩
  rintro ⟨allowed, setting, last, rfl⟩
  have held := (find?_ofSettings source settings name setting.toTable).mpr ⟨setting, last, rfl⟩
  have lower : Text.lowercase name = name := by
    obtain ⟨-, -, -, rfl, -⟩ := last
    exact Text.lowercase_lowercase _
  have listed : name ∈ (ofSettings source settings).answers.list id := by
    refine List.mem_map.mpr ⟨_, List.mem_of_find?_eq_some held, ?_⟩
    simpa using List.find?_some held
  have supplies : (ofSettings source settings).answers.Supplies n name := by
    refine ⟨id, name, setting.toTable, hsource, listed, lower, allowed, ?_⟩
    show Except.ok (((ofSettings source settings).tables.find? _)) = _
    rw [lower, held]
  obtain ⟨t, supplied⟩ := Option.isSome_iff_exists.mp (Answers.isSome_supply_iff.mpr supplies)
  obtain ⟨-, setting', last', rfl⟩ := forward supplied
  have held' := (find?_ofSettings source settings name setting'.toTable).mpr ⟨setting', last', rfl⟩
  rw [supplied, Option.some.inj (held'.symm.trans held)]

end MemorySource

end SchemaCatalog
