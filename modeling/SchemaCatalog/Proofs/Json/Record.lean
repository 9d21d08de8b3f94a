import Mathlib.Data.List.Nodup
import Mathlib.Data.List.Perm.Basic
import SchemaCatalog.Proofs.Json.Form

/-!
Stored records. The text of a record may have its keys in any order and further keys with any
values, and a field that has its default may be missing. What is read is the same record: each key
that is present fills a field of its own, and the others have been filled from the start.
-/

namespace SchemaCatalog.Json

/-! ### Texts of a record -/

/-- A field of a record: its key, the value for which the key may be left out, and the texts of its
value. -/
structure Field where
  key : String
  default? : Option Json
  layout : Layout

/-- The members of a text that stand for these entries, in their order. -/
inductive Members : List Field → List (String × Json) → List (List Char) → Prop
  | nil : Members [] [] []
  | keep {f : Field} {fields : List Field} {value : Json} {entries : List (String × Json)}
    {text : List Char} {members : List (List Char)} (h : f.layout value text)
    (rest : Members fields entries members) :
    Members (f :: fields) ((f.key, value) :: entries)
      ((stringChars f.key ++ ':' :: text) :: members)
  | leave {f : Field} {fields : List Field} {value : Json} {entries : List (String × Json)}
    {members : List (List Char)} (h : f.default? = some value)
    (rest : Members fields entries members) :
    Members (f :: fields) ((f.key, value) :: entries) members

/-- A member of which the key, however it is spelled, belongs to no field. Its value is any value of
the grammar. -/
inductive Foreign (fields : List Field) : List Char → Prop
  | mk {before key after value : List Char} {name : String} (hb : Blanks before)
    (hkey : Spells key name.toList) (ha : Blanks after) (hname : name ∉ fields.map (·.key))
    (hvalue : IsValue value) :
    Foreign fields (before ++ ('"' :: key ++ ['"']) ++ after ++ ':' :: value)

/-- The members of the fields and any foreign ones, in any order. -/
def Layout.record (fields : List Field) : Layout := fun j text =>
  ∃ entries kept foreign members, j = .object entries ∧ Members fields entries kept ∧
    (∀ m ∈ foreign, Foreign fields m) ∧ members.Perm (kept ++ foreign) ∧
    text = '\x7b' :: [','].intercalate members ++ ['\x7d']

/-! ### Columns -/

/-- A field together with the slot that reads it, its encoding, and how a record takes over the
field of another. -/
structure Column (ρ : Type) where
  slot : Slot ρ
  field : Field
  encode : ρ → Json
  copy : ρ → ρ → ρ

namespace Column

variable {ρ α : Type} {blank : ρ} {Kept : ρ → Prop}

/-- How a column fits the records that are kept, of which reading starts from a blank one. -/
structure Lawful (blank : ρ) (Kept : ρ → Prop) (c : Column ρ) : Prop where
  key : c.slot.key = c.field.key
  required : c.slot.required → c.field.default? = none
  printed : ∀ x, c.field.layout (c.encode x) (c.encode x).chars
  stores : ∀ x, Kept x → ∀ text, c.field.layout (c.encode x) text →
    ∃ d, Writes text d ∧ c.slot.read.Yields (c.encode x).depth d (c.copy x)
  default : ∀ x, c.field.default? = some (c.encode x) → c.copy x blank = blank

def mandatory (key : String) (form : Form α) (get : ρ → α) (set : α → ρ → ρ) : Column ρ where
  slot := .mandatory key form.reader set
  field := ⟨key, none, form.layout⟩
  encode x := form.encode (get x)
  copy x := set (get x)

def optional (key : String) (form : Form α) (get : ρ → α) (set : α → ρ → ρ) (default : α) :
    Column ρ where
  slot := .optional key form.reader set
  field := ⟨key, some (form.encode default), form.layout⟩
  encode x := form.encode (get x)
  copy x := set (get x)

@[simp] theorem mandatory_slot (key : String) (form : Form α) (get : ρ → α) (set : α → ρ → ρ) :
    (mandatory key form get set).slot = .mandatory key form.reader set := rfl

@[simp] theorem mandatory_copy (key : String) (form : Form α) (get : ρ → α) (set : α → ρ → ρ)
    (x y : ρ) : (mandatory key form get set).copy x y = set (get x) y := rfl

@[simp] theorem optional_slot (key : String) (form : Form α) (get : ρ → α) (set : α → ρ → ρ)
    (default : α) :
    (optional key form get set default).slot = .optional key form.reader set := rfl

@[simp] theorem optional_copy (key : String) (form : Form α) (get : ρ → α) (set : α → ρ → ρ)
    (default : α) (x y : ρ) : (optional key form get set default).copy x y = set (get x) y := rfl

theorem stores_set (form : Form α) (get : ρ → α) (set : α → ρ → ρ)
    (hkept : ∀ x, Kept x → form.Kept (get x)) (x : ρ) (hx : Kept x) (text : List Char)
    (htext : form.layout (form.encode (get x)) text) :
    ∃ d, Writes text d ∧ Reader.Yields (fun origin d => set <$> form.reader origin d)
      (form.encode (get x)).depth d (set (get x)) := by
  obtain ⟨d, hwrites, hyields⟩ := form.stores (get x) (hkept x hx) text htext
  exact ⟨d, hwrites, hyields.map set⟩

theorem Lawful.mandatory {key : String} {form : Form α} {get : ρ → α} {set : α → ρ → ρ}
    (hkept : ∀ x, Kept x → form.Kept (get x)) :
    (Column.mandatory key form get set).Lawful blank Kept where
  key := rfl
  required _ := rfl
  printed x := form.printed (get x)
  stores := stores_set form get set hkept
  default := nofun

theorem Lawful.optional {key : String} {form : Form α} {get : ρ → α} {set : α → ρ → ρ}
    {default : α} (hkept : ∀ x, Kept x → form.Kept (get x))
    (hdefault : ∀ a, form.encode a = form.encode default → a = default)
    (hblank : set default blank = blank) :
    (Column.optional key form get set default).Lawful blank Kept where
  key := rfl
  required := nofun
  printed x := form.printed (get x)
  stores := stores_set form get set hkept
  default x h := by
    have hx : get x = default := hdefault (get x) (Option.some.inj h).symm
    show set (get x) blank = blank
    rw [hx, hblank]

end Column

/-- A record type as it is stored: its slots, and columns that account for each of them. -/
structure Scheme (ρ : Type) where
  title : String
  slots : List (Slot ρ)
  blank : ρ
  /-- In the order of the encoding. -/
  columns : List (Column ρ)
  /-- The records that are given back as they were. -/
  Kept : ρ → Prop
  lawful : ∀ c ∈ columns, c.Lawful blank Kept
  keys_nodup : (columns.map (·.field.key)).Nodup
  slot_mem : ∀ c ∈ columns, c.slot ∈ slots
  mem_slot : ∀ slot ∈ slots, ∃ c ∈ columns, c.slot = slot
  copy_comm : ∀ x, ∀ a ∈ columns, ∀ b ∈ columns, ∀ y, a.copy x (b.copy x y) = b.copy x (a.copy x y)
  copy_all : ∀ x, Kept x → columns.foldl (fun y c => c.copy x y) blank = x

namespace Scheme

variable {ρ : Type} (S : Scheme ρ)

def fields : List Field :=
  S.columns.map (·.field)

def entries (x : ρ) : List (String × Json) :=
  S.columns.map fun c => (c.field.key, c.encode x)

variable {S} {x : ρ} {c : Column ρ} {name : String}

theorem find?_slot (hc : c ∈ S.columns) :
    S.slots.find? (·.key == c.field.key) = some c.slot := by
  have hkey := (S.lawful c hc).key
  have hsome : (S.slots.find? (·.key == c.field.key)).isSome :=
    List.find?_isSome.mpr ⟨c.slot, S.slot_mem c hc, by simp [hkey]⟩
  obtain ⟨slot, hslot⟩ := Option.isSome_iff_exists.mp hsome
  obtain ⟨c', hc', rfl⟩ := S.mem_slot slot (List.mem_of_find?_eq_some hslot)
  have hkeys : c'.field.key = c.field.key := by
    simpa [(S.lawful c' hc').key] using List.find?_some hslot
  rw [hslot, List.inj_on_of_nodup_map S.keys_nodup hc' hc hkeys]

theorem find?_foreign (h : name ∉ S.fields.map (·.key)) : S.slots.find? (·.key == name) = none := by
  refine List.find?_eq_none.mpr fun slot hslot heq => h ?_
  obtain ⟨c, hc, rfl⟩ := S.mem_slot slot hslot
  have hname : c.field.key = name := by simpa [(S.lawful c hc).key] using heq
  exact hname ▸ List.mem_map_of_mem (List.mem_map_of_mem hc)

/-! ### Reading entries -/

/-- What an entry of a text is to a record: one of its fields, or foreign. -/
inductive Part (S : Scheme ρ) (x : ρ) : Option (Column ρ) → Option String × Draft → Prop
  | field {c : Column ρ} {d : Draft} (hc : c ∈ S.columns)
    (h : c.slot.read.Yields (c.encode x).depth d (c.copy x)) :
    Part S x (some c) (some c.field.key, d)
  | foreign {name : String} {d : Draft} (hname : name ∉ S.fields.map (·.key))
    (hskip : d.isSkippable) : Part S x none (some name, d)

theorem entry_field {c : Column ρ} (hc : c ∈ S.columns) {origin : Origin} {d : Draft}
    (hread : c.slot.read origin d = .ok (c.copy x)) {s : Reader.Filling ρ}
    (hfresh : c.field.key ∉ s.filled) :
    Reader.entry S.slots origin s (some c.field.key, d) =
      .ok ⟨c.copy x s.record, c.field.key :: s.filled⟩ := by
  simp [Reader.entry, Reader.readable, find?_slot hc, hfresh, hread, bind, Except.bind, pure,
    Except.pure]

theorem entry_foreign (hname : name ∉ S.fields.map (·.key)) {d : Draft} (hskip : d.isSkippable)
    (origin : Origin) (s : Reader.Filling ρ) :
    Reader.entry S.slots origin s (some name, d) = .ok s := by
  simp [Reader.entry, Reader.readable, find?_foreign hname, hskip, bind, Except.bind, pure,
    Except.pure]

/-- The parts of a text: for each entry the column that it belongs to, if any. -/
abbrev Parts (ρ : Type) : Type :=
  List (Option (Column ρ) × (Option String × Draft))

/-- The columns whose fields are there, in the order of the text. -/
def present (parts : Parts ρ) : List (Column ρ) :=
  parts.filterMap (·.1)

theorem foldlM_entry {parts : Parts ρ} (h : ∀ p ∈ parts, S.Part x p.1 p.2) {inner : Nat}
    (hdepth : ∀ c ∈ S.columns, (c.encode x).depth ≤ inner) (s : Reader.Filling ρ)
    (hnodup : ((present parts).map (·.field.key) ++ s.filled).Nodup) :
    ∃ filled, (parts.map (·.2)).foldlM (Reader.entry S.slots (.text inner)) s =
        .ok ⟨(present parts).foldl (fun y c => c.copy x y) s.record, filled⟩ ∧
      ∀ key, key ∈ filled ↔ key ∈ (present parts).map (·.field.key) ∨ key ∈ s.filled := by
  induction parts generalizing s with
  | nil => exact ⟨s.filled, rfl, by simp [present]⟩
  | cons p parts ih =>
    obtain ⟨column, e⟩ := p
    obtain ⟨hp, hrest⟩ := List.forall_mem_cons.mp h
    cases hp with
    | @field c d hc hread =>
      have hpresent : present ((some c, (some c.field.key, d)) :: parts) = c :: present parts := rfl
      rw [hpresent, List.map_cons, List.cons_append] at hnodup
      obtain ⟨hfresh, hnodup⟩ := List.nodup_cons.mp hnodup
      have hentry := entry_field hc (hread inner (hdepth c hc)) (s := s)
        fun hfilled => hfresh (List.mem_append_right _ hfilled)
      obtain ⟨filled, hfold, hfilled⟩ := ih hrest ⟨c.copy x s.record, c.field.key :: s.filled⟩
        (List.perm_middle.nodup_iff.mpr (List.nodup_cons.mpr ⟨hfresh, hnodup⟩))
      refine ⟨filled, ?_, fun key => ?_⟩
      · rw [List.map_cons, List.foldlM_cons, hentry, hpresent, List.foldl_cons]
        exact hfold
      · rw [hfilled, hpresent]
        simp only [List.map_cons, List.mem_cons]
        tauto
    | @foreign name d hname hskip =>
      obtain ⟨filled, hfold, hfilled⟩ := ih hrest s hnodup
      refine ⟨filled, ?_, hfilled⟩
      rw [List.map_cons, List.foldlM_cons, entry_foreign hname hskip]
      exact hfold

theorem foldl_copy_of_fixed {cs : List (Column ρ)} {y : ρ} (h : ∀ c ∈ cs, c.copy x y = y) :
    cs.foldl (fun y c => c.copy x y) y = y := by
  induction cs with
  | nil => rfl
  | cons c cs ih =>
    obtain ⟨hc, hcs⟩ := List.forall_mem_cons.mp h
    rw [List.foldl_cons, hc, ih hcs]

/-- A record is read from parts that account for all of its columns but those that have their
default. -/
theorem record_yields (hx : S.Kept x) {parts : Parts ρ} (h : ∀ p ∈ parts, S.Part x p.1 p.2)
    {absent : List (Column ρ)} (hall : (present parts ++ absent).Perm S.columns)
    (habsent : ∀ c ∈ absent, c.slot.required = false ∧ c.copy x S.blank = S.blank) :
    (Reader.record S.title S.slots S.blank).Yields (Json.object (S.entries x)).depth
      (.object (parts.map (·.2)) true) x := fun levels hlevels => by
  obtain ⟨inner, rfl, hinner⟩ := depth_object_le hlevels
  have hkeys : ((present parts).map (·.field.key)).Nodup := by
    have hnodup := (hall.map (·.field.key)).nodup_iff.mpr S.keys_nodup
    rw [List.map_append] at hnodup
    exact hnodup.of_append_left
  obtain ⟨filled, hfold, hfilled⟩ := foldlM_entry h (List.forall_mem_map.mp hinner)
    { record := S.blank } (by simpa using hkeys)
  have hrecord : (present parts).foldl (fun y c => c.copy x y) S.blank = x := by
    have hperm := List.perm_append_comm.trans hall
    have hfold := hperm.foldl_eq' (f := fun y c => c.copy x y)
      (fun a ha b hb y => S.copy_comm x b (hperm.mem_iff.mp hb) a (hperm.mem_iff.mp ha) y) S.blank
    rw [List.foldl_append, foldl_copy_of_fixed fun c hc => (habsent c hc).2] at hfold
    rw [hfold, S.copy_all x hx]
  have hcomplete :
      S.slots.find? (fun slot => slot.required && !decide (slot.key ∈ filled)) = none := by
    refine List.find?_eq_none.mpr fun slot hslot => ?_
    obtain ⟨c, hc, rfl⟩ := S.mem_slot slot hslot
    rcases List.mem_append.mp (hall.mem_iff.mpr hc) with hpresent | hmissing
    · have hkey : c.slot.key ∈ filled := by
        rw [hfilled, (S.lawful c hc).key]
        exact .inl (List.mem_map_of_mem hpresent)
      simp [hkey]
    · simp [(habsent c hmissing).1]
  simp [Reader.record, Origin.enter, Reader.ensureClosed, bind, Except.bind, pure, Except.pure,
    hfold, hcomplete, hrecord]

/-! ### Members -/

/-- The members that are kept are parts of their columns, and the others have their default. -/
theorem members_parts (hx : S.Kept x) {columns : List (Column ρ)} (hsub : columns ⊆ S.columns)
    {kept : List (List Char)}
    (h : Members (columns.map (·.field)) (columns.map fun c => (c.field.key, c.encode x)) kept) :
    ∃ (parts : Parts ρ) (absent : List (Column ρ)),
      List.Forall₂ (fun m p => WritesMember m p.2) kept parts ∧ (∀ p ∈ parts, S.Part x p.1 p.2) ∧
      (present parts ++ absent).Perm columns ∧
      ∀ c ∈ absent, c.slot.required = false ∧ c.copy x S.blank = S.blank := by
  induction columns generalizing kept with
  | nil =>
    cases h
    exact ⟨[], [], .nil, nofun, .nil, nofun⟩
  | cons c columns ih =>
    obtain ⟨hc, hrest⟩ := List.cons_subset.mp hsub
    have hlawful := S.lawful c hc
    cases h with
    | @keep _ _ _ _ text members htext hmembers =>
      obtain ⟨parts, absent, hwrites, hparts, hperm, habsent⟩ := ih hrest hmembers
      obtain ⟨d, hd, hyields⟩ := hlawful.stores x hx text htext
      refine ⟨(some c, (some c.field.key, d)) :: parts, absent, ?_, ?_, hperm.cons c, habsent⟩
      · exact .cons (.of_key (stringChars_lexes _) hd) hwrites
      · exact List.forall_mem_cons.mpr ⟨.field hc hyields, hparts⟩
    | leave hdefault hmembers =>
      obtain ⟨parts, absent, hwrites, hparts, hperm, habsent⟩ := ih hrest hmembers
      refine ⟨parts, c :: absent, hwrites, hparts, List.perm_middle.trans (hperm.cons c), ?_⟩
      refine List.forall_mem_cons.mpr ⟨⟨?_, hlawful.default x hdefault⟩, habsent⟩
      by_contra hrequired
      rw [hlawful.required (by simpa using hrequired)] at hdefault
      cases hdefault

theorem foreign_part {m : List Char} (h : Foreign S.fields m) :
    ∃ p : Option (Column ρ) × (Option String × Draft),
      WritesMember m p.2 ∧ p.1 = none ∧ S.Part x p.1 p.2 := by
  obtain ⟨hb, hkey, ha, hname, hvalue⟩ := h
  obtain ⟨d, hd, hskip⟩ := hvalue.writes
  exact ⟨(none, (some _, d)), .of_key (hkey.lexes.padded hb ha) hd, rfl, .foreign hname hskip⟩

theorem members_printed (x : ρ) :
    Members S.fields (S.entries x) ((S.entries x).map memberChars) := by
  have hall (columns : List (Column ρ)) (hsub : columns ⊆ S.columns) :
      Members (columns.map (·.field)) (columns.map fun c => (c.field.key, c.encode x))
        ((columns.map fun c => (c.field.key, c.encode x)).map memberChars) := by
    induction columns with
    | nil => exact .nil
    | cons c columns ih =>
      obtain ⟨hc, hrest⟩ := List.cons_subset.mp hsub
      exact .keep ((S.lawful c hc).printed x) (ih hrest)
  exact hall S.columns (List.Subset.refl _)

/-- Records are stored by the layout of their fields. -/
def form (S : Scheme ρ) : Form ρ where
  encode x := .object (S.entries x)
  layout := .record S.fields
  reader := Reader.record S.title S.slots S.blank
  Kept := S.Kept
  printed x :=
    ⟨_, _, [], _, rfl, S.members_printed x, nofun, by rw [List.append_nil], chars_object _⟩
  stores x hx text htext := by
    obtain ⟨_, kept, foreign, members, ⟨⟩, hkept, hforeign, hperm, rfl⟩ := htext
    obtain ⟨parts, absent, hwrites, hparts, hall, habsent⟩ :=
      members_parts hx (List.Subset.refl _) hkept
    obtain ⟨others, hothers, hnone⟩ :=
      exists_forall₂ fun m hm => foreign_part (x := x) (hforeign m hm)
    obtain ⟨all, hmembers, hsame⟩ := List.perm_comp_forall₂ hperm (List.rel_append hwrites hothers)
    have hpresent : (present all).Perm (present parts) := by
      have hothers : others.filterMap (·.1) = [] :=
        List.filterMap_eq_nil_iff.mpr fun p hp => (hnone p hp).1
      have hfilter := hsame.filterMap (·.1)
      rwa [List.filterMap_append, hothers, List.append_nil] at hfilter
    have hpart : ∀ p ∈ all, S.Part x p.1 p.2 := fun p hp => by
      rcases List.mem_append.mp (hsame.mem_iff.mp hp) with hp | hp
      · exact hparts p hp
      · exact (hnone p hp).2
    have hentries : List.Forall₂ WritesMember members (all.map (·.2)) := by
      rwa [List.forall₂_map_right_iff]
    exact ⟨_, .object hentries,
      record_yields hx hpart ((hpresent.append_right absent).trans hall) habsent⟩

end Scheme

end SchemaCatalog.Json
