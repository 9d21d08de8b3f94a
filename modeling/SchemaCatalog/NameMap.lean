/-!
Finite maps from names, kept as a list of entries in ascending order of name. The order is part of
the type: two maps that answer every look-up alike are equal, and the order in which names were
added never shows.
-/

namespace SchemaCatalog

structure NameMap (α : Type) where
  entries : List (String × α)
  ascending : entries.Pairwise (·.1 < ·.1)

namespace NameMap

variable {α β : Type}

instance : EmptyCollection (NameMap α) := ⟨⟨[], .nil⟩⟩

instance : Inhabited (NameMap α) := ⟨∅⟩

instance [BEq α] : BEq (NameMap α) := ⟨fun a b => a.entries == b.entries⟩

def lookupEntry (name : String) : List (String × α) → Option α
  | [] => none
  | entry :: rest => if name = entry.1 then some entry.2 else lookupEntry name rest

def insertEntry (name : String) (value : α) : List (String × α) → List (String × α)
  | [] => [(name, value)]
  | entry :: rest =>
    if name < entry.1 then (name, value) :: entry :: rest
    else if name = entry.1 then (name, value) :: rest
    else entry :: insertEntry name value rest

theorem mem_insertEntry {name : String} {value : α} {e : String × α} {l : List (String × α)}
    (h : e ∈ insertEntry name value l) : e = (name, value) ∨ e ∈ l := by
  induction l with
  | nil => simpa [insertEntry] using h
  | cons entry rest ih =>
    simp only [insertEntry] at h
    split at h
    · simpa using h
    · split at h <;> grind

theorem insertEntry_ascending (name : String) (value : α) {l : List (String × α)}
    (h : l.Pairwise (·.1 < ·.1)) : (insertEntry name value l).Pairwise (·.1 < ·.1) := by
  induction l with
  | nil => simp [insertEntry]
  | cons entry rest ih =>
    obtain ⟨head, tail⟩ := List.pairwise_cons.mp h
    simp only [insertEntry]
    split
    next hlt =>
      exact .cons (fun e he => (List.mem_cons.mp he).elim (fun h' => h' ▸ hlt)
        fun h' => String.lt_trans hlt (head e h')) h
    next hlt =>
      split
      next heq => exact .cons (fun e he => heq ▸ head e he) tail
      next hne =>
        refine .cons (fun e he => ?_) (ih tail)
        rcases mem_insertEntry he with rfl | he
        · exact Decidable.byContradiction fun h' =>
            hne (String.le_antisymm (String.not_lt.mp h') (String.not_lt.mp hlt))
        · exact head e he

def get? (m : NameMap α) (name : String) : Option α :=
  lookupEntry name m.entries

def contains (m : NameMap α) (name : String) : Bool :=
  (m.get? name).isSome

def insert (m : NameMap α) (name : String) (value : α) : NameMap α :=
  ⟨insertEntry name value m.entries, insertEntry_ascending name value m.ascending⟩

def erase (m : NameMap α) (name : String) : NameMap α :=
  ⟨m.entries.filter (·.1 ≠ name), m.ascending.filter _⟩

def names (m : NameMap α) : List String :=
  m.entries.map (·.1)

def size (m : NameMap α) : Nat :=
  m.entries.length

/-- Later entries replace earlier ones of the same name. -/
def ofList (entries : List (String × α)) : NameMap α :=
  entries.foldl (fun m e => m.insert e.1 e.2) ∅

@[simp] theorem get?_empty (name : String) : (∅ : NameMap α).get? name = none := rfl

theorem lookupEntry_insertEntry (name other : String) (value : α) (l : List (String × α)) :
    lookupEntry other (insertEntry name value l) =
      if other = name then some value else lookupEntry other l := by
  induction l with
  | nil => rfl
  | cons entry rest ih => grind [insertEntry, lookupEntry]

theorem lookupEntry_filter (name other : String) (l : List (String × α)) :
    lookupEntry other (l.filter (·.1 ≠ name)) =
      if other = name then none else lookupEntry other l := by
  induction l with
  | nil => simp [lookupEntry]
  | cons entry rest ih => grind [lookupEntry]

theorem get?_insert (m : NameMap α) (name other : String) (value : α) :
    (m.insert name value).get? other = if other = name then some value else m.get? other :=
  lookupEntry_insertEntry name other value m.entries

@[simp] theorem get?_insert_self (m : NameMap α) (name : String) (value : α) :
    (m.insert name value).get? name = some value := by
  simp [get?_insert]

theorem get?_insert_ne (m : NameMap α) {name other : String} (value : α) (h : other ≠ name) :
    (m.insert name value).get? other = m.get? other := by
  simp [get?_insert, h]

theorem get?_erase (m : NameMap α) (name other : String) :
    (m.erase name).get? other = if other = name then none else m.get? other :=
  lookupEntry_filter name other m.entries

theorem contains_insert (m : NameMap α) (name other : String) (value : α) :
    (m.insert name value).contains other = (other == name || m.contains other) := by
  by_cases h : other = name <;> simp [contains, get?_insert, h]

theorem contains_erase (m : NameMap α) (name other : String) :
    (m.erase name).contains other = (other != name && m.contains other) := by
  by_cases h : other = name <;> simp [contains, get?_erase, h]

theorem names_ascending (m : NameMap α) : m.names.Pairwise (· < ·) :=
  m.ascending.map _ fun _ _ h => h

theorem mem_names_iff {m : NameMap α} {name : String} : name ∈ m.names ↔ m.contains name := by
  simp only [names, contains, get?]
  induction m.entries with
  | nil => simp [lookupEntry]
  | cons entry rest ih => grind [lookupEntry]

theorem lookupEntry_eq_some_mem {name : String} {value : α} {l : List (String × α)}
    (h : lookupEntry name l = some value) : (name, value) ∈ l := by
  induction l with
  | nil => simp [lookupEntry] at h
  | cons entry rest ih =>
    obtain ⟨k, v⟩ := entry
    grind [lookupEntry]

theorem get?_eq_some_iff {m : NameMap α} {name : String} {value : α} :
    m.get? name = some value ↔ (name, value) ∈ m.entries := by
  refine ⟨lookupEntry_eq_some_mem, fun hmem => ?_⟩
  obtain ⟨l, ascending⟩ := m
  simp only [get?] at hmem ⊢
  induction l with
  | nil => simp at hmem
  | cons entry rest ih =>
    obtain ⟨head, tail⟩ := List.pairwise_cons.mp ascending
    rcases List.mem_cons.mp hmem with rfl | hrest
    · simp [lookupEntry]
    · have hne : name ≠ entry.1 := by
        rintro rfl
        exact String.lt_irrefl entry.1 (head (entry.1, value) hrest)
      simpa [lookupEntry, hne] using ih tail hrest

theorem entries_eq_of_lookup {l k : List (String × α)} (hl : l.Pairwise (·.1 < ·.1))
    (hk : k.Pairwise (·.1 < ·.1)) (h : ∀ name, lookupEntry name l = lookupEntry name k) :
    l = k := by
  induction l generalizing k with
  | nil =>
    cases k with
    | nil => rfl
    | cons e r => simpa [lookupEntry] using h e.1
  | cons a l ih =>
    cases k with
    | nil => simpa [lookupEntry] using h a.1
    | cons b k =>
      obtain ⟨ha, hl'⟩ := List.pairwise_cons.mp hl
      obtain ⟨hb, hk'⟩ := List.pairwise_cons.mp hk
      have hab := h a.1
      have hba := h b.1
      simp only [lookupEntry, if_true] at hab hba
      have hname : a.1 = b.1 := by
        refine Decidable.byContradiction fun hne => ?_
        rw [if_neg hne] at hab
        rw [if_neg (Ne.symm hne)] at hba
        exact String.lt_asymm (hb _ (lookupEntry_eq_some_mem hab.symm))
          (ha _ (lookupEntry_eq_some_mem hba))
      rw [if_pos hname] at hab
      have hhead : a = b := Prod.ext hname (Option.some.inj hab)
      subst hhead
      congr 1
      refine ih hl' hk' fun name => ?_
      by_cases hn : name = a.1
      · have none_of {r : List (String × α)} (hr : ∀ e ∈ r, a.1 < e.1) : lookupEntry a.1 r = none := by
          match hv : lookupEntry a.1 r with
          | none => rfl
          | some v => exact absurd (hr _ (lookupEntry_eq_some_mem hv)) (String.lt_irrefl _)
        rw [hn, none_of ha, none_of hb]
      · simpa [lookupEntry, hn] using h name

theorem insertEntry_last {name : String} {l : List (String × α)} (h : ∀ e ∈ l, e.1 < name)
    (value : α) : insertEntry name value l = l ++ [(name, value)] := by
  induction l with
  | nil => rfl
  | cons entry rest ih =>
    obtain ⟨hlt, hrest⟩ := List.forall_mem_cons.mp h
    have hne : name ≠ entry.1 := fun heq => String.lt_irrefl name (heq ▸ hlt)
    simp [insertEntry, String.lt_asymm hlt, hne, ih hrest]

theorem entries_foldl_insert (l : List (String × α)) (m : NameMap α)
    (h : (m.entries ++ l).Pairwise (·.1 < ·.1)) :
    (l.foldl (fun m e => m.insert e.1 e.2) m).entries = m.entries ++ l := by
  induction l generalizing m with
  | nil => simp
  | cons e l ih =>
    have hlast : (m.insert e.1 e.2).entries = m.entries ++ [e] :=
      insertEntry_last (fun a ha => (List.pairwise_append.mp h).2.2 a ha e (by simp)) e.2
    rw [List.foldl_cons, ih _ (by simpa [hlast] using h), hlast]
    simp

theorem entries_ofList {l : List (String × α)} (h : l.Pairwise (·.1 < ·.1)) :
    (ofList l).entries = l :=
  entries_foldl_insert l ∅ h

theorem ofList_entries (m : NameMap α) : ofList m.entries = m := by
  have h := entries_ofList m.ascending
  generalize ofList m.entries = n at h
  cases m
  cases n
  simpa using h

theorem ext_get? {m n : NameMap α} (h : ∀ name, m.get? name = n.get? name) : m = n := by
  obtain ⟨l, hl⟩ := m
  obtain ⟨k, hk⟩ := n
  simp only [mk.injEq]
  exact entries_eq_of_lookup hl hk h

end NameMap

end SchemaCatalog
