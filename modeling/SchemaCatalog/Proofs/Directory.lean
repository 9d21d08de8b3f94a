import SchemaCatalog.Directory
import Mathlib.Data.String.Basic

/-!
The halving search finds a name in a sorted list, or the place where it belongs. From this every
write to a directory keeps its three parts aligned.
-/

namespace SchemaCatalog

theorem le_of_get? {names : List String} (sorted : names.Pairwise (· < ·)) {i j : Nat}
    {x y : String} (hij : i ≤ j) (hx : names[i]? = some x) (hy : names[j]? = some y) : x ≤ y := by
  obtain ⟨hi, rfl⟩ := List.getElem?_eq_some_iff.mp hx
  obtain ⟨hj, rfl⟩ := List.getElem?_eq_some_iff.mp hy
  rcases Nat.lt_or_eq_of_le hij with hlt | rfl
  · exact (List.pairwise_iff_getElem.mp sorted i j hi hj hlt).le
  · exact le_rfl

theorem eq_of_get? {names : List String} (sorted : names.Pairwise (· < ·)) {i j : Nat}
    {x : String} (hi : names[i]? = some x) (hj : names[j]? = some x) : i = j := by
  obtain ⟨hi, rfl⟩ := List.getElem?_eq_some_iff.mp hi
  obtain ⟨hj, heq⟩ := List.getElem?_eq_some_iff.mp hj
  have distinct : names.Nodup := sorted.imp fun h => h.ne
  exact (List.getElem_inj distinct).mp heq.symm

namespace Place

/-- What halving keeps: the first name of the stretch is not beyond the name sought, unless it is
the first of all, and what follows the stretch is beyond it. -/
theorem narrow_spec {names : List String} (sorted : names.Pairwise (· < ·)) (name : String)
    (first size : Nat) (inside : first + size ≤ names.length) (hsize : 0 < size)
    (low : first = 0 ∨ ∀ x, names[first]? = some x → x ≤ name)
    (high : ∀ x, names[first + size]? = some x → name < x) :
    narrow names name first size inside < names.length ∧
      (narrow names name first size inside = 0 ∨
        ∀ x, names[narrow names name first size inside]? = some x → x ≤ name) ∧
      ∀ x, names[narrow names name first size inside + 1]? = some x → name < x := by
  fun_induction narrow names name first size inside with
  | case1 first size inside long before ih =>
      refine ih (by omega) low ?_
      intro x hx
      have hmiddle : names[first + size / 2]? = some names[first + size / 2] :=
        List.getElem?_eq_getElem (by omega)
      exact before.trans_le (le_of_get? sorted (by omega) hmiddle hx)
  | case2 first size inside long after ih =>
      refine ih (by omega) (.inr ?_) ?_
      · intro x hx
        obtain ⟨_, rfl⟩ := List.getElem?_eq_some_iff.mp hx
        exact not_lt.mp after
      · intro x hx
        refine high x ?_
        rwa [show first + size / 2 + (size - size / 2) = first + size by omega] at hx
  | case3 first size inside long =>
      have hone : size = 1 := by omega
      subst hone
      exact ⟨by omega, low, high⟩

theorem find_nil (name : String) : find [] name = .free 0 := by
  simp [find, narrow]

theorem get?_of_find_taken {names : List String} {name : String} {i : Nat}
    (h : find names name = .taken i) : names[i]? = some name := by
  simp only [find] at h
  split at h
  · simp at h
  · rename_i other hother
    split at h
    · rename_i heq
      cases h
      rw [hother, heq]
    · split at h <;> simp at h

/-- A free place divides a sorted list into the names before and the names after the one sought. -/
theorem divides_of_find_free {names : List String} (sorted : names.Pairwise (· < ·))
    {name : String} {i : Nat} (h : find names name = .free i) :
    i ≤ names.length ∧ (∀ (j : Nat) x, names[j]? = some x → j < i → x < name) ∧
      ∀ (j : Nat) x, names[j]? = some x → i ≤ j → name < x := by
  by_cases hne : names = []
  · subst hne
    rw [find_nil] at h
    cases h
    simp
  · have hpos : 0 < names.length := List.length_pos_iff.mpr hne
    obtain ⟨hlt, hlow, hhigh⟩ := narrow_spec sorted name 0 names.length (by omega) hpos (.inl rfl)
      (by simp)
    simp only [find] at h
    generalize narrow names name 0 names.length (by omega) = k at h hlt hlow hhigh
    rw [List.getElem?_eq_getElem hlt] at h
    have hk : names[k]? = some names[k] := List.getElem?_eq_getElem hlt
    simp only at h
    split at h
    · simp at h
    · rename_i hdiff
      split at h
      · rename_i hless
        cases h
        refine ⟨hlt, ?_, ?_⟩
        · intro j x hx hj
          exact (le_of_get? sorted (by omega) hx hk).trans_lt hless
        · intro j x hx hj
          have hj' := (List.getElem?_eq_some_iff.mp hx).1
          have hnext : names[k + 1]? = some names[k + 1] := List.getElem?_eq_getElem (by omega)
          exact (hhigh _ hnext).trans_le (le_of_get? sorted hj hnext hx)
      · rename_i hmore
        cases h
        have hbeyond : name < names[i] := lt_of_le_of_ne (not_lt.mp hmore) (Ne.symm hdiff)
        refine ⟨hlt.le, ?_, ?_⟩
        · intro j x hx hj
          rcases hlow with rfl | hlow
          · omega
          · exact absurd hbeyond (not_lt.mpr (hlow _ hk))
        · intro j x hx hj
          exact hbeyond.trans_le (le_of_get? sorted hj hk hx)

end Place

namespace Directory

theorem mem_insertName {name other : String} {names : List String}
    (sorted : names.Pairwise (· < ·)) :
    other ∈ insertName name names ↔ other = name ∨ other ∈ names := by
  unfold insertName
  split
  · rename_i i h
    have := List.mem_of_getElem? (Place.get?_of_find_taken h)
    constructor
    · exact .inr
    · rintro (rfl | hmem)
      · exact this
      · exact hmem
  · rename_i i h
    exact List.mem_insertIdx (Place.divides_of_find_free sorted h).1

theorem insertName_sorted (name : String) {names : List String}
    (sorted : names.Pairwise (· < ·)) : (insertName name names).Pairwise (· < ·) := by
  unfold insertName
  split
  · exact sorted
  · rename_i i h
    obtain ⟨hi, before, after⟩ := Place.divides_of_find_free sorted h
    rw [List.pairwise_iff_getElem]
    intro a b ha hb hab
    rw [List.length_insertIdx_of_le_length hi] at ha hb
    have ordered := List.pairwise_iff_getElem.mp sorted
    rw [List.getElem_insertIdx, List.getElem_insertIdx]
    split
    · rename_i hai
      split
      · exact ordered a b (by omega) (by omega) hab
      · split
        · exact before a names[a] (List.getElem?_eq_getElem (by omega)) hai
        · exact ordered a (b - 1) (by omega) (by omega) (by omega)
    · rename_i hai
      rw [dif_neg (by omega : ¬ b < i), dif_neg (by omega : ¬ b = i)]
      split
      · exact after (b - 1) names[b - 1] (List.getElem?_eq_getElem (by omega)) (by omega)
      · exact ordered (a - 1) (b - 1) (by omega) (by omega) (by omega)

theorem eraseName_sorted (name : String) {names : List String}
    (sorted : names.Pairwise (· < ·)) : (eraseName name names).Pairwise (· < ·) := by
  unfold eraseName
  split
  · exact sorted.eraseIdx _
  · exact sorted

theorem mem_eraseName {name other : String} {names : List String}
    (sorted : names.Pairwise (· < ·)) :
    other ∈ eraseName name names ↔ other ≠ name ∧ other ∈ names := by
  unfold eraseName
  split
  · rename_i i h
    have hi := Place.get?_of_find_taken h
    rw [List.mem_eraseIdx_iff_getElem?, List.mem_iff_getElem?]
    constructor
    · rintro ⟨j, hne, hj⟩
      refine ⟨?_, j, hj⟩
      rintro rfl
      exact hne (eq_of_get? sorted hj hi)
    · rintro ⟨hne, j, hj⟩
      refine ⟨j, ?_, hj⟩
      rintro rfl
      rw [hi] at hj
      exact hne (Option.some.inj hj).symm
  · rename_i i h
    obtain ⟨-, before, after⟩ := Place.divides_of_find_free sorted h
    constructor
    · intro hmem
      refine ⟨?_, hmem⟩
      rintro rfl
      obtain ⟨j, hj⟩ := List.mem_iff_getElem?.mp hmem
      rcases Nat.lt_or_ge j i with hlt | hge
      · exact lt_irrefl _ (before j _ hj hlt)
      · exact lt_irrefl _ (after j _ hj hge)
    · exact And.right

/-! ### The three parts of a directory -/

/-- The names are in order, and each has an owner and a definition. -/
structure Aligned (d : Directory) : Prop where
  sorted : d.names.Pairwise (· < ·)
  owned : ∀ name, name ∈ d.names ↔ d.owners.contains name
  defined : ∀ name, name ∈ d.names ↔ d.tables.contains name

namespace Aligned

theorem empty : Aligned {} := by
  refine ⟨.nil, ?_, ?_⟩ <;> simp [NameMap.contains]

theorem register {d : Directory} (h : d.Aligned) (name : String) (owner : NodeId) (t : Table) :
    (d.register name owner t).Aligned where
  sorted := insertName_sorted name h.sorted
  owned other := by
    simp only [Directory.register, mem_insertName h.sorted, h.owned, NameMap.contains_insert,
      Bool.or_eq_true, beq_iff_eq]
  defined other := by
    simp only [Directory.register, mem_insertName h.sorted, h.defined, NameMap.contains_insert,
      Bool.or_eq_true, beq_iff_eq]

theorem unregister {d : Directory} (h : d.Aligned) (name : String) :
    (d.unregister name).Aligned where
  sorted := eraseName_sorted name h.sorted
  owned other := by
    simp only [Directory.unregister, mem_eraseName h.sorted, h.owned, NameMap.contains_erase,
      Bool.and_eq_true, bne_iff_ne]
  defined other := by
    simp only [Directory.unregister, mem_eraseName h.sorted, h.defined, NameMap.contains_erase,
      Bool.and_eq_true, bne_iff_ne]

theorem defined_of_owner {d : Directory} (h : d.Aligned) {name : String} {owner : NodeId}
    (ho : d.owners.get? name = some owner) : ∃ t, d.tables.get? name = some t := by
  have hname : name ∈ d.names := (h.owned name).mpr (by simp [NameMap.contains, ho])
  have hdefined := (h.defined name).mp hname
  exact Option.isSome_iff_exists.mp hdefined

end Aligned

/-! ### Entries -/

/-- The owner of a name together with its definition. -/
def lookup? (d : Directory) (name : String) : Option (NodeId × Table) :=
  match d.owners.get? name, d.tables.get? name with
  | some owner, some t => some (owner, t)
  | _, _ => none

theorem lookup?_eq_some_iff {d : Directory} {name : String} {owner : NodeId} {t : Table} :
    d.lookup? name = some (owner, t) ↔
      d.owners.get? name = some owner ∧ d.tables.get? name = some t := by
  unfold lookup?
  cases d.owners.get? name <;> cases d.tables.get? name <;> simp

theorem lookup?_register (d : Directory) (name other : String) (owner : NodeId) (t : Table) :
    (d.register name owner t).lookup? other =
      if other = name then some (owner, t) else d.lookup? other := by
  simp only [lookup?, register, NameMap.get?_insert]
  by_cases h : other = name <;> simp [h]

theorem lookup?_unregister (d : Directory) (name other : String) :
    (d.unregister name).lookup? other = if other = name then none else d.lookup? other := by
  simp only [lookup?, unregister, NameMap.get?_erase]
  by_cases h : other = name <;> simp [h]

namespace Aligned

variable {d e : Directory}

theorem isSome_lookup? (h : d.Aligned) (name : String) :
    (d.lookup? name).isSome ↔ name ∈ d.names := by
  have owned := h.owned name
  have defined := h.defined name
  simp only [NameMap.contains] at owned defined
  unfold lookup?
  cases howner : d.owners.get? name <;> cases htable : d.tables.get? name <;>
    simp_all

theorem knows_iff (h : d.Aligned) (name : String) : d.knows name ↔ (d.lookup? name).isSome := by
  rw [h.isSome_lookup?, h.defined, knows]

theorem lookup?_of_unknown (h : d.Aligned) {name : String} (unknown : d.knows name = false) :
    d.lookup? name = none := by
  rw [← Option.not_isSome_iff_eq_none, ← h.knows_iff, unknown]
  exact Bool.false_ne_true

theorem lookup?_eq_none_iff (h : d.Aligned) {name : String} :
    d.lookup? name = none ↔ name ∉ d.names := by
  rw [← h.isSome_lookup?]
  simp

theorem owners_get? (h : d.Aligned) (name : String) :
    d.owners.get? name = (d.lookup? name).map (·.1) := by
  cases hentry : d.lookup? name with
  | some found => rw [(lookup?_eq_some_iff.mp hentry).1, Option.map_some]
  | none =>
      have absent := h.lookup?_eq_none_iff.mp hentry
      rw [h.owned, NameMap.contains] at absent
      simpa using absent

theorem tables_get? (h : d.Aligned) (name : String) :
    d.tables.get? name = (d.lookup? name).map (·.2) := by
  cases hentry : d.lookup? name with
  | some found => rw [(lookup?_eq_some_iff.mp hentry).2, Option.map_some]
  | none =>
      have absent := h.lookup?_eq_none_iff.mp hentry
      rw [h.defined, NameMap.contains] at absent
      simpa using absent

theorem names_eq (hd : d.Aligned) (he : e.Aligned)
    (same : ∀ name, (d.lookup? name).isSome ↔ (e.lookup? name).isSome) : d.names = e.names := by
  refine List.Perm.eq_of_pairwise (fun a b _ _ (hab : a < b) (hba : b < a) => ?_)
    hd.sorted he.sorted ?_
  · exact absurd hba (lt_asymm hab)
  · refine (List.perm_ext_iff_of_nodup (hd.sorted.imp fun h => h.ne)
      (he.sorted.imp fun h => h.ne)).mpr fun name => ?_
    rw [← hd.isSome_lookup?, ← he.isSome_lookup?, same]

theorem ext (hd : d.Aligned) (he : e.Aligned) (same : ∀ name, d.lookup? name = e.lookup? name) :
    d = e := by
  have names : d.names = e.names := hd.names_eq he fun name => by rw [same]
  have owners : d.owners = e.owners := NameMap.ext_get? fun name => by
    rw [hd.owners_get?, he.owners_get?, same]
  have tables : d.tables = e.tables := NameMap.ext_get? fun name => by
    rw [hd.tables_get?, he.tables_get?, same]
  cases d
  cases e
  congr

end Aligned

end Directory

end SchemaCatalog
