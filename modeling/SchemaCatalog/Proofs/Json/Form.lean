import SchemaCatalog.Json.Reader
import SchemaCatalog.Proofs.Json.Printing

/-!
Stored forms. A form says how the values of a type are encoded, which texts may stand for an
encoding, and how such a text is read; its law is that reading gives back the value that was
encoded, as long as the encoding nests no deeper than the reader goes.
-/

namespace SchemaCatalog.Json

/-! ### Depth -/

/-- How many levels of arrays and objects a value has. -/
def depth : Json → Nat
  | .array items => itemsDepth items + 1
  | .object entries => entriesDepth entries + 1
  | _ => 0
where
  itemsDepth : List Json → Nat
    | [] => 0
    | item :: rest => max item.depth (itemsDepth rest)
  entriesDepth : List (String × Json) → Nat
    | [] => 0
    | (_, value) :: rest => max value.depth (entriesDepth rest)

theorem itemsDepth_le_iff {items : List Json} {n : Nat} :
    depth.itemsDepth items ≤ n ↔ ∀ item ∈ items, item.depth ≤ n := by
  induction items with
  | nil => simp [depth.itemsDepth]
  | cons item rest ih => simp [depth.itemsDepth, ih]

theorem entriesDepth_le_iff {entries : List (String × Json)} {n : Nat} :
    depth.entriesDepth entries ≤ n ↔ ∀ e ∈ entries, e.2.depth ≤ n := by
  induction entries with
  | nil => simp [depth.entriesDepth]
  | cons e rest ih => simp [depth.entriesDepth, ih]

theorem depth_array_le_iff {items : List Json} {n : Nat} :
    (Json.array items).depth ≤ n + 1 ↔ ∀ item ∈ items, item.depth ≤ n := by
  rw [depth, Nat.add_le_add_iff_right, itemsDepth_le_iff]

theorem depth_object_le_iff {entries : List (String × Json)} {n : Nat} :
    (Json.object entries).depth ≤ n + 1 ↔ ∀ e ∈ entries, e.2.depth ≤ n := by
  rw [depth, Nat.add_le_add_iff_right, entriesDepth_le_iff]

/-- Within the levels that are left, there is one for the array itself. -/
theorem depth_array_le {items : List Json} {levels : Nat} (h : (Json.array items).depth ≤ levels) :
    ∃ inner, levels = inner + 1 ∧ ∀ item ∈ items, item.depth ≤ inner := by
  obtain ⟨inner, rfl⟩ : ∃ inner, levels = inner + 1 := ⟨levels - 1, by simp [depth] at h; omega⟩
  exact ⟨inner, rfl, depth_array_le_iff.mp h⟩

theorem depth_object_le {entries : List (String × Json)} {levels : Nat}
    (h : (Json.object entries).depth ≤ levels) :
    ∃ inner, levels = inner + 1 ∧ ∀ e ∈ entries, e.2.depth ≤ inner := by
  obtain ⟨inner, rfl⟩ : ∃ inner, levels = inner + 1 := ⟨levels - 1, by simp [depth] at h; omega⟩
  exact ⟨inner, rfl, depth_object_le_iff.mp h⟩

/-! ### Forms -/

/-- Where so many levels are left, the draft is read as this value. -/
def Reader.Yields {α : Type} (r : Reader α) (depth : Nat) (d : Draft) (a : α) : Prop :=
  ∀ levels, depth ≤ levels → r (.text levels) d = .ok a

theorem Reader.Yields.map {α β : Type} {r : Reader α} {n : Nat} {d : Draft} {a : α}
    (h : r.Yields n d a) (f : α → β) : Yields (fun origin d => f <$> r origin d) n d (f a) :=
  fun levels hlevels => congrArg (f <$> ·) (h levels hlevels)

/-- Which texts may stand for a value. -/
abbrev Layout := Json → List Char → Prop

structure Form (α : Type) where
  encode : α → Json
  layout : Layout
  reader : Reader α
  /-- The values that are given back as they were. -/
  Kept : α → Prop
  printed : ∀ a, layout (encode a) (encode a).chars
  stores : ∀ a, Kept a → ∀ text, layout (encode a) text →
    ∃ d, Writes text d ∧ reader.Yields (encode a).depth d a

/-- Only the printed text. -/
def Layout.exact : Layout := fun j text => text = j.chars

/-- The items in their order, each by a layout of its own. -/
def Layout.list (item : Layout) : Layout := fun j text =>
  ∃ items texts, j = .array items ∧ List.Forall₂ item items texts ∧
    text = '[' :: [','].intercalate texts ++ [']']

/-- The entries in their order, with their keys as they are printed. -/
def Layout.map (value : Layout) : Layout := fun j text =>
  ∃ entries texts, j = .object entries ∧ List.Forall₂ (fun e text => value e.2 text) entries texts ∧
    text = '\x7b' :: [','].intercalate
      (List.zipWith (fun e text => stringChars e.1 ++ ':' :: text) entries texts) ++ ['\x7d']

namespace Form

variable {α : Type}

theorem ofString_eq (F : Form α) {a : α} (hkept : F.Kept a) {text : String}
    (htext : F.layout (F.encode a) text.toList) (hdepth : (F.encode a).depth ≤ maxLevels) :
    F.reader.ofString text = .ok a := by
  obtain ⟨d, hwrites, hyields⟩ := F.stores a hkept text.toList htext
  rw [Reader.ofString, Reader.ofText, hwrites.document]
  simp [hyields maxLevels hdepth, bind, Except.bind, pure, Except.pure]

theorem ofString_text (F : Form α) {a : α} (hkept : F.Kept a)
    (hdepth : (F.encode a).depth ≤ maxLevels) : F.reader.ofString (F.encode a).text = .ok a :=
  F.ofString_eq hkept (by simpa [Json.text] using F.printed a) hdepth

/-- The same form, of which only the printed text is admitted. -/
def exact (F : Form α) : Form α where
  encode := F.encode
  layout := .exact
  reader := F.reader
  Kept := F.Kept
  printed _ := rfl
  stores a hkept text htext := F.stores a hkept text (by rw [htext]; exact F.printed a)

/-- Plain values that are read back from their own draft. -/
def ofPlain (encode : α → Json) (reader : Reader α) (Kept : α → Prop)
    (plain : ∀ a, Kept a → (encode a).Plain)
    (yields : ∀ a, Kept a → reader.Yields (encode a).depth (.ofJson (encode a)) a) : Form α where
  encode := encode
  layout := .exact
  reader := reader
  Kept := Kept
  printed _ := rfl
  stores a hkept text htext := by
    obtain rfl := htext
    exact ⟨_, (plain a hkept).writes, yields a hkept⟩

/-! ### Scalars -/

def string : Form String :=
  ofPlain .string Reader.string (fun _ => True) (fun s _ => .string s) fun _ _ _ _ => rfl

def bool : Form Bool :=
  ofPlain .bool Reader.bool (fun _ => True) (fun b _ => .bool b) fun _ _ _ _ => rfl

theorem integer_yields {low high n : Int} (hlow : low ≤ n) (hhigh : n ≤ high) (expected : String) :
    (Reader.integer low high expected).Yields 0 (.ofJson (.integer n)) n := fun _ _ => by
  simp [Reader.integer, Draft.ofJson, hlow, hhigh, pure, Except.pure]

def size : Form UInt64 :=
  ofPlain (fun n => .integer n.toNat) Reader.size (fun _ => True)
    (fun n _ => .integer (by omega) (by have := n.toNat_lt; omega))
    fun n _ => by
      have hn := n.toNat_lt
      have hlow : (0 : Int) ≤ n.toNat := by omega
      have hhigh : (n.toNat : Int) ≤ UInt64.size - 1 := by simp [UInt64.size]; omega
      have hread := (integer_yields hlow hhigh "usize").map (UInt64.ofNat ·.toNat)
      rwa [Int.toNat_natCast, UInt64.ofNat_toNat] at hread

def byte : Form UInt8 :=
  ofPlain (fun n => .integer n.toNat) Reader.byte (fun _ => True)
    (fun n _ => .integer (by omega) (by have := n.toNat_lt; omega))
    fun n _ => by
      have hn := n.toNat_lt
      have hlow : (0 : Int) ≤ n.toNat := by omega
      have hhigh : (n.toNat : Int) ≤ 255 := by omega
      have hread := (integer_yields hlow hhigh "u8").map (UInt8.ofNat ·.toNat)
      rwa [Int.toNat_natCast, UInt8.ofNat_toNat] at hread

def int64 : Form Int64 :=
  ofPlain (fun n => .integer n.toInt) Reader.int64 (fun _ => True)
    (fun n _ => .integer (by have := n.le_toInt; omega) (by have := n.toInt_lt; omega))
    fun n _ => by
      have hread := (integer_yields n.minValue_le_toInt n.toInt_le "i64").map Int64.ofInt
      rwa [Int64.ofInt_toInt] at hread

/-! ### Collections -/

theorem items_stored (F : Form α) {as : List α} {texts : List (List Char)}
    (hkept : ∀ a ∈ as, F.Kept a) (h : List.Forall₂ F.layout (as.map F.encode) texts) :
    ∃ ds, List.Forall₂ Writes texts ds ∧ ∀ inner, (∀ a ∈ as, (F.encode a).depth ≤ inner) →
      ds.mapM (F.reader (.text inner)) = .ok as := by
  induction as generalizing texts with
  | nil =>
    cases h
    exact ⟨[], .nil, fun _ _ => rfl⟩
  | cons a as ih =>
    obtain _ | ⟨ha, has⟩ := h
    obtain ⟨hkept, hrest⟩ := List.forall_mem_cons.mp hkept
    obtain ⟨d, hwrites, hyields⟩ := F.stores a hkept _ ha
    obtain ⟨ds, hds, hread⟩ := ih hrest has
    refine ⟨d :: ds, .cons hwrites hds, fun inner hdepth => ?_⟩
    obtain ⟨hfirst, hothers⟩ := List.forall_mem_cons.mp hdepth
    rw [List.mapM_cons, hyields inner hfirst, hread inner hothers]
    rfl

theorem items_printed (F : Form α) (as : List α) :
    List.Forall₂ F.layout (as.map F.encode) ((as.map F.encode).map chars) := by
  rw [List.forall₂_map_right_iff, List.forall₂_same]
  exact List.forall_mem_map.mpr fun a _ => F.printed a

def list (F : Form α) : Form (List α) where
  encode as := .array (as.map F.encode)
  layout := .list F.layout
  reader := Reader.list F.reader
  Kept as := ∀ a ∈ as, F.Kept a
  printed as := ⟨_, _, rfl, F.items_printed as, chars_array _⟩
  stores as hkept text htext := by
    obtain ⟨_, texts, ⟨⟩, htexts, rfl⟩ := htext
    obtain ⟨ds, hds, hread⟩ := F.items_stored hkept htexts
    refine ⟨_, .array hds, fun levels hlevels => ?_⟩
    obtain ⟨inner, rfl, hinner⟩ := depth_array_le hlevels
    have hvalues := hread inner (List.forall_mem_map.mp hinner)
    simp [Reader.list, Origin.enter, Reader.ensureClosed, bind, Except.bind, pure, Except.pure,
      hvalues]

/-- Reads a key and its value. -/
def readEntry (r : Reader α) (inner : Origin) (e : Option String × Draft) :
    Except ReadError (String × α) := do
  let name ← Reader.readable e.1
  let value ← r inner e.2
  pure (name, value)

theorem entries_stored (F : Form α) {es : List (String × α)} {texts : List (List Char)}
    (hkept : ∀ e ∈ es, F.Kept e.2)
    (h : List.Forall₂ (fun e text => F.layout (F.encode e.2) text) es texts) :
    ∃ ds, List.Forall₂ WritesMember
        (List.zipWith (fun e text => stringChars e.1 ++ ':' :: text) es texts) ds ∧
      ∀ inner, (∀ e ∈ es, (F.encode e.2).depth ≤ inner) →
        ds.mapM (readEntry F.reader (.text inner)) = .ok es := by
  induction h with
  | nil => exact ⟨[], .nil, fun _ _ => rfl⟩
  | @cons e text es texts he _ ih =>
    obtain ⟨hkept, hrest⟩ := List.forall_mem_cons.mp hkept
    obtain ⟨d, hwrites, hyields⟩ := F.stores e.2 hkept _ he
    obtain ⟨ds, hds, hread⟩ := ih hrest
    refine ⟨(some e.1, d) :: ds, .cons (.of_key (stringChars_lexes e.1) hwrites) hds,
      fun inner hdepth => ?_⟩
    obtain ⟨hfirst, hothers⟩ := List.forall_mem_cons.mp hdepth
    rw [List.mapM_cons, readEntry, hyields inner hfirst, hread inner hothers]
    rfl

def map (F : Form α) : Form (NameMap α) where
  encode m := .object (m.entries.map fun e => (e.1, F.encode e.2))
  layout := .map F.layout
  reader := Reader.map F.reader
  Kept m := ∀ e ∈ m.entries, F.Kept e.2
  printed m := by
    refine ⟨_, m.entries.map fun e => (F.encode e.2).chars, rfl, ?_, ?_⟩
    · rw [List.forall₂_map_left_iff, List.forall₂_map_right_iff, List.forall₂_same]
      exact fun e _ => F.printed e.2
    · rw [chars_object]
      simp [List.zipWith_map, memberChars, Function.comp_def]
  stores m hkept text htext := by
    obtain ⟨_, texts, ⟨⟩, htexts, rfl⟩ := htext
    rw [List.forall₂_map_left_iff] at htexts
    obtain ⟨ds, hds, hread⟩ := F.entries_stored hkept htexts
    refine ⟨_, .object (by simpa [List.zipWith_map_left] using hds), fun levels hlevels => ?_⟩
    obtain ⟨inner, rfl, hinner⟩ := depth_object_le hlevels
    have hvalues := hread inner (List.forall_mem_map.mp hinner)
    change (do
      let values ← ds.mapM (readEntry F.reader (.text inner))
      Reader.ensureClosed true
      pure (NameMap.ofList values)) = Except.ok m
    rw [hvalues]
    exact congrArg Except.ok (NameMap.ofList_entries m)

/-! ### Tagged values -/

/-- Contents under their tag are read by the variant of that tag. -/
theorem tagged_stores {β : Type} (F : Form α) {a : α} (hkept : F.Kept a)
    {variants : List (Variant β)} {tag : String} {make : α → β}
    (hnamed : Variant.named variants (some tag) = .ok (.holding tag F.reader make)) :
    ∃ d, Writes (chars (.object [(tag, F.encode a)])) d ∧
      (Reader.tagged variants).Yields (Json.object [(tag, F.encode a)]).depth d (make a) := by
  obtain ⟨d, hwrites, hyields⟩ := F.stores a hkept _ (F.printed a)
  refine ⟨.object [(some tag, d)] true, ?_, fun levels hlevels => ?_⟩
  · rw [chars_object]
    exact .object (.cons (.of_key (stringChars_lexes tag) hwrites) .nil)
  · obtain ⟨inner, rfl, hinner⟩ := depth_object_le hlevels
    have hcontents := hyields inner (hinner (tag, F.encode a) (by simp))
    simp [Reader.tagged, Origin.enter, hnamed, Variant.holding, hcontents, Reader.ensureClosed,
      bind, Except.bind, pure, Except.pure, Functor.map, Except.map]

/-! ### Any value -/

theorem jsonItems_eq_ok {items : List Json} {inner : Nat}
    (h : ∀ item ∈ items, Reader.json (.text inner) (.ofJson item) = .ok item) :
    Reader.jsonItems (.text inner) (items.map Draft.ofJson) = .ok items := by
  induction items with
  | nil => rfl
  | cons item rest ih =>
    obtain ⟨hitem, hrest⟩ := List.forall_mem_cons.mp h
    rw [List.map_cons, Reader.jsonItems, hitem, ih hrest]
    rfl

theorem jsonEntries_eq_ok {entries : List (String × Json)} {inner : Nat}
    (h : ∀ e ∈ entries, Reader.json (.text inner) (.ofJson e.2) = .ok e.2) :
    Reader.jsonEntries (.text inner) (entries.map fun e => (some e.1, .ofJson e.2)) =
      .ok entries := by
  induction entries with
  | nil => rfl
  | cons e rest ih =>
    obtain ⟨he, hrest⟩ := List.forall_mem_cons.mp h
    rw [List.map_cons, Reader.jsonEntries, he, ih hrest]
    rfl

theorem plain_yields {j : Json} (h : j.Plain) : Reader.json.Yields j.depth (.ofJson j) j := by
  induction h with
  | null | bool | integer | string => exact fun _ _ => rfl
  | @array items _ ih =>
    intro levels hlevels
    obtain ⟨inner, rfl, hinner⟩ := depth_array_le hlevels
    have hvalues := jsonItems_eq_ok fun item hitem => ih item hitem inner (hinner item hitem)
    rw [Draft.ofJson_array]
    simp [Reader.json, Origin.enter, Reader.ensureClosed, bind, Except.bind, pure, Except.pure,
      hvalues]
  | @object entries hkeys _ ih =>
    intro levels hlevels
    obtain ⟨inner, rfl, hinner⟩ := depth_object_le hlevels
    have hvalues := jsonEntries_eq_ok fun e he => ih e he inner (hinner e he)
    rw [Draft.ofJson_object]
    simp [Reader.json, Origin.enter, Reader.ensureClosed, bind, Except.bind, pure, Except.pure,
      hvalues, Json.ofEntries, NameMap.entries_ofList hkeys]

def json : Form Json :=
  ofPlain id Reader.json Plain (fun _ h => h) fun _ h => plain_yields h

end Form

end SchemaCatalog.Json
