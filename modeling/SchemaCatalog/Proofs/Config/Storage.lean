import SchemaCatalog.Proofs.Config.Forms
import SchemaCatalog.Table.Index
import SchemaCatalog.Value

/-!
Records survive storage: what is written as text and read back is the record that was written, but
for the servers of its schemas, which are not stored.
-/

namespace SchemaCatalog

open Json (Column Form Scheme Variant maxLevels chars)

/-! ### Indexes and values -/

namespace Index

def columns : List (Column Index) := [
  .mandatory "fields" .strings (·.fields) (fun v i => { i with fields := v }),
  .mandatory "hash_partition" .strings (·.hashPartition) (fun v i => { i with hashPartition := v }),
  .mandatory "name" .string (·.name) (fun v i => { i with name := v }),
  .mandatory "partition_size" .size (·.partitionSize) (fun v i => { i with partitionSize := v }),
  .mandatory "primary_key" .bool (·.primaryKey) (fun v i => { i with primaryKey := v })]

def scheme : Scheme Index where
  title := "Index"
  slots := slots
  blank := { name := "" }
  columns := columns
  Kept _ := True
  lawful := by
    simp only [columns, List.forall_mem_cons]
    exact ⟨.mandatory fun _ _ _ _ => trivial, .mandatory fun _ _ _ _ => trivial,
      .mandatory fun _ _ => trivial, .mandatory fun _ _ => trivial, .mandatory fun _ _ => trivial,
      nofun⟩
  keys_nodup := by decide
  slot_mem := by simp [columns, slots]
  mem_slot := by simp [columns, slots]
  copy_comm x := by simp [columns]
  copy_all _ _ := rfl

def form : Form Index :=
  scheme.form

theorem form_encode : form.encode = toJson := rfl

theorem form_reader : form.reader = reader := rfl

end Index

namespace Value

/-- Values whose text says all of them. -/
def Exact (v : Value) : Prop :=
  v.type ≠ .number ∧ v.type ≠ .time

def form : Form Value where
  encode := toJson
  layout := .exact
  reader := reader
  Kept := Exact
  printed _ := rfl
  stores v hexact text htext := by
    obtain rfl := htext
    cases v with
    | string s => exact Form.string.tagged_stores trivial rfl
    | int n => exact Form.int64.tagged_stores trivial rfl
    | number x => exact absurd rfl hexact.1
    | boolean b => exact Form.bool.tagged_stores trivial rfl
    | bytes octets => exact (Form.list .byte).tagged_stores (fun _ _ => trivial) rfl
    | time t => exact absurd rfl hexact.2
    | strings items => exact (Form.list .string).tagged_stores (fun _ _ => trivial) rfl
    | null =>
      exact ⟨_, .string (Json.stringChars_lexes "Null"), fun _ _ => rfl⟩

end Value

/-! ### What is stored -/

def SchemaConfig.stored (s : SchemaConfig) : SchemaConfig :=
  { s with servers := [] }

theorem SchemaConfig.toJson_stored (s : SchemaConfig) : s.stored.toJson = s.toJson := rfl

/-- The configuration without the servers of its schemas. -/
def CatalogConfig.stored (c : CatalogConfig) : CatalogConfig :=
  { c with schemas := c.schemas.map SchemaConfig.stored }

theorem CatalogConfig.toJson_stored (c : CatalogConfig) : c.stored.toJson = c.toJson := by
  simp [toJson, stored, SchemaConfig.toJson_stored]

/-! ### Records of bounded depth -/

theorem stringsJson_depth_le (items : List String) : (stringsJson items).depth ≤ 1 :=
  Json.depth_array_le_iff.mpr (List.forall_mem_map.mpr fun _ _ => Nat.le_refl 0)

theorem SchemaConfig.depth_le (s : SchemaConfig) : s.toJson.depth ≤ 2 := by
  rw [toJson, Json.depth_object_le_iff]
  simp [Json.depth, stringsJson_depth_le]

theorem Partition.depth_le (p : Partition) : p.toJson.depth ≤ 1 := by
  rw [toJson, Json.depth_object_le_iff]
  simp [Json.depth]

theorem TablePartition.depth_le (p : TablePartition) : p.toJson.depth ≤ 3 := by
  have hkeys : (stringsJson p.keys).depth ≤ 2 := (stringsJson_depth_le p.keys).trans (by decide)
  have hpartitions : (Json.array (p.partitions.map Partition.toJson)).depth ≤ 2 :=
    Json.depth_array_le_iff.mpr (List.forall_mem_map.mpr fun q _ => q.depth_le)
  rw [toJson, Json.depth_object_le_iff]
  simp only [List.forall_mem_cons]
  exact ⟨hkeys, hpartitions, Nat.zero_le 2, nofun⟩

theorem Index.depth_le (i : Index) : i.toJson.depth ≤ 2 := by
  rw [toJson, Json.depth_object_le_iff]
  simp [Json.depth, stringsJson_depth_le]

theorem Value.depth_le {v : Value} (h : v.Exact) : v.toJson.depth ≤ 2 := by
  have hitems {α : Type} (as : List α) (f : α → Json) (hf : ∀ a, (f a).depth = 0) :
      (Json.array (as.map f)).depth ≤ 1 :=
    Json.depth_array_le_iff.mpr (List.forall_mem_map.mpr fun a _ => (hf a).le)
  cases v with
  | number => exact absurd rfl h.1
  | time => exact absurd rfl h.2
  | bytes octets =>
    exact Json.depth_object_le_iff.mpr (by simpa using hitems octets _ fun _ => rfl)
  | strings items =>
    exact Json.depth_object_le_iff.mpr (by simpa using hitems items _ fun _ => rfl)
  | string | int | boolean =>
    exact Json.depth_object_le_iff.mpr (by simp [Json.depth])
  | null => exact Nat.zero_le 2

/-! ### Survival -/

theorem CatalogConfig.ofString_eq {c : CatalogConfig} {text : String}
    (h : form.reader.ofString text = .ok c) : CatalogConfig.ofString text = .ok c := by
  rw [form_reader] at h
  rw [ofString, h]
  rfl

theorem CatalogConfig.ofString_toJson {c : CatalogConfig} (plain : c.Plain)
    (depth : c.toJson.depth ≤ maxLevels) : CatalogConfig.ofString c.toJson.text = .ok c.stored := by
  have bare : ∀ s ∈ c.stored.schemas, s.servers = [] := List.forall_mem_map.mpr fun s _ => rfl
  rw [← c.toJson_stored, ← form_encode] at depth ⊢
  exact ofString_eq (form.ofString_text ⟨plain, bare⟩ depth)

theorem SourceConfig.ofString_toJson {s : SourceConfig} (plain : s.Plain)
    (depth : s.toJson.depth ≤ maxLevels) : reader.ofString s.toJson.text = .ok s := by
  rw [← form_encode] at depth ⊢
  exact form_reader ▸ form.ofString_text plain depth

theorem ServerConfig.ofString_toJson {s : ServerConfig} (plain : s.Plain)
    (depth : s.toJson.depth ≤ maxLevels) : reader.ofString s.toJson.text = .ok s := by
  rw [← form_encode] at depth ⊢
  exact form_reader ▸ form.ofString_text plain depth

theorem SchemaConfig.ofString_toJson (s : SchemaConfig) :
    reader.ofString s.toJson.text = .ok s.stored := by
  have depth := s.depth_le.trans (by decide : 2 ≤ maxLevels)
  rw [← s.toJson_stored, ← form_encode] at depth ⊢
  exact form_reader ▸ form.ofString_text rfl depth

theorem TablePartition.ofString_toJson (p : TablePartition) :
    reader.ofString p.toJson.text = .ok p := by
  have depth := p.depth_le.trans (by decide : 3 ≤ maxLevels)
  rw [← form_encode] at depth ⊢
  exact form_reader ▸ form.ofString_text trivial depth

theorem Partition.ofString_toJson (p : Partition) : reader.ofString p.toJson.text = .ok p := by
  have depth := p.depth_le.trans (by decide : 1 ≤ maxLevels)
  rw [← form_encode] at depth ⊢
  exact form_reader ▸ form.ofString_text trivial depth

theorem Index.ofString_toJson (i : Index) : reader.ofString i.toJson.text = .ok i := by
  have depth := i.depth_le.trans (by decide : 2 ≤ maxLevels)
  rw [← form_encode] at depth ⊢
  exact form_reader ▸ form.ofString_text trivial depth

theorem Value.ofString_toJson {v : Value} (h : v.Exact) : reader.ofString v.toJson.text = .ok v :=
  form.ofString_text h ((Value.depth_le h).trans (by decide : 2 ≤ maxLevels))

/-- Reading the text of a record gives the record back. Only settings can hold floats or nest
deeper than a reader goes. -/
theorem records_survive_storage :
    (∀ c : CatalogConfig, c.Plain → c.toJson.depth ≤ maxLevels →
      CatalogConfig.ofString c.toJson.text = .ok c.stored) ∧
    (∀ s : SourceConfig, s.Plain → s.toJson.depth ≤ maxLevels →
      SourceConfig.reader.ofString s.toJson.text = .ok s) ∧
    (∀ s : ServerConfig, s.Plain → s.toJson.depth ≤ maxLevels →
      ServerConfig.reader.ofString s.toJson.text = .ok s) ∧
    (∀ s : SchemaConfig, SchemaConfig.reader.ofString s.toJson.text = .ok s.stored) ∧
    (∀ p : TablePartition, TablePartition.reader.ofString p.toJson.text = .ok p) ∧
    (∀ p : Partition, Partition.reader.ofString p.toJson.text = .ok p) ∧
    (∀ i : Index, Index.reader.ofString i.toJson.text = .ok i) ∧
    ∀ v : Value, v.type ≠ .number → v.type ≠ .time →
      Value.reader.ofString v.toJson.text = .ok v := by
  refine ⟨fun c plain depth => ?catalog, fun s plain depth => ?source, fun s plain depth => ?server,
    fun s => s.ofString_toJson, fun p => p.ofString_toJson, fun p => p.ofString_toJson,
    fun i => i.ofString_toJson, fun v number time => ?value⟩
  case catalog => exact CatalogConfig.ofString_toJson plain depth
  case source => exact SourceConfig.ofString_toJson plain depth
  case server => exact ServerConfig.ofString_toJson plain depth
  case value => exact Value.ofString_toJson ⟨number, time⟩

/-- A server with nested settings. -/
def tunedServer : ServerConfig where
  name := "n1"
  source := "kv"
  settings := .ofList [("tags", .array [.bool true, .null, .string "a\nb"])]

/-- A source with whole numbers at both ends of their range. -/
def tunedSource : SourceConfig where
  name := "\"kv\" \u0001"
  type := "memory"
  tableAliases := .ofList [("o", "Orders")]
  nodes := [tunedServer]
  settings := .ofList [("limits", .object [
    ("high", .integer 18446744073709551615), ("low", .integer (-9223372036854775808))])]
  partitions := [{ table := "Orders", keys := ["id"], partitions := [{ left := "a" }] }]
  partitionCount := 3

def tunedCatalog : CatalogConfig where
  schemas := [{ name := "main", sources := ["kv"], servers := ["n1"] }]
  sources := [tunedSource]
  nodes := [tunedServer]

theorem tunedServer_plain : tunedServer.Plain := by
  refine List.forall_mem_singleton.mpr (.array ?_)
  simp only [List.forall_mem_cons]
  exact ⟨.bool true, .null, .string "a\nb", nofun⟩

theorem tunedSource_plain : tunedSource.Plain := by
  refine ⟨List.forall_mem_singleton.mpr (.object (by decide) ?_),
    List.forall_mem_singleton.mpr tunedServer_plain⟩
  simp only [List.forall_mem_cons]
  exact ⟨.integer (by decide) (by decide), .integer (by decide) (by decide), nofun⟩

theorem tunedCatalog_plain : tunedCatalog.Plain :=
  ⟨List.forall_mem_singleton.mpr tunedSource_plain, List.forall_mem_singleton.mpr tunedServer_plain⟩

theorem records_survive_storage_tuned :
    (tunedCatalog.Plain ∧ tunedCatalog.toJson.depth ≤ maxLevels ∧
      CatalogConfig.ofString tunedCatalog.toJson.text = .ok tunedCatalog.stored) ∧
    (tunedSource.Plain ∧ tunedSource.toJson.depth ≤ maxLevels ∧
      SourceConfig.reader.ofString tunedSource.toJson.text = .ok tunedSource) ∧
    (tunedServer.Plain ∧ tunedServer.toJson.depth ≤ maxLevels ∧
      ServerConfig.reader.ofString tunedServer.toJson.text = .ok tunedServer) ∧
    Value.reader.ofString (Value.bytes [0, 255]).toJson.text = .ok (.bytes [0, 255]) := by
  obtain ⟨catalog, source, server, -, -, -, -, value⟩ := records_survive_storage
  have depth : tunedCatalog.toJson.depth ≤ maxLevels ∧ tunedSource.toJson.depth ≤ maxLevels ∧
      tunedServer.toJson.depth ≤ maxLevels := by decide
  exact ⟨⟨tunedCatalog_plain, depth.1, catalog _ tunedCatalog_plain depth.1⟩,
    ⟨tunedSource_plain, depth.2.1, source _ tunedSource_plain depth.2.1⟩,
    ⟨tunedServer_plain, depth.2.2, server _ tunedServer_plain depth.2.2⟩,
    value _ (by decide) (by decide)⟩

/-! ### Variants of a text -/

/-- In a stored configuration, and in every record within it, keys may change places, keys of no
field may be added with any value, and fields that have their default may be left out. -/
theorem CatalogConfig.ofString_variant {c : CatalogConfig} (plain : c.Plain)
    (bare : ∀ s ∈ c.schemas, s.servers = []) (depth : c.toJson.depth ≤ maxLevels) {text : String}
    (variant : CatalogConfig.layout c.toJson text.toList) : CatalogConfig.ofString text = .ok c := by
  rw [← form_encode] at depth
  rw [← form_layout, ← form_encode] at variant
  exact ofString_eq (form.ofString_eq ⟨plain, bare⟩ variant depth)

def plainSource : SourceConfig where
  name := "kv"
  settings := .ofList [("depth", .integer 3)]

def plainSchema : SchemaConfig where
  name := "main"
  sources := ["kv"]

def plainCatalog : CatalogConfig where
  schemas := [plainSchema]
  sources := [plainSource]

theorem hugeNumber_value : Json.IsValue [' ', '1', 'e', '9', '9', '9'] := by
  have sign : ([] : List Char) ∈ [[], ['-']] := by decide
  have whole : Json.IsWhole ['1'] := .digits (by decide) (by decide)
  have plus : ([] : List Char) ∈ [[], ['+'], ['-']] := by decide
  have exponent : Json.IsExponent ['e', '9', '9', '9'] :=
    .digits (by decide : 'e' ∈ ['e', 'E']) plus (by decide)
  have number : Json.IsValue ['1', 'e', '9', '9', '9'] :=
    .number (.mk sign whole .none exponent)
  have blank : Json.Blanks [' '] := by decide
  exact .padded blank number (by decide : Json.Blanks [])

theorem plainSource_variant : SourceConfig.layout plainSource.toJson
    "\x7b\"settings\":\x7b\"depth\":3\x7d,\"name\":\"kv\"\x7d".toList :=
  ⟨_, _, [], _, rfl,
    .leave rfl (.keep rfl (.leave rfl (.leave rfl (.leave rfl (.keep rfl (.leave rfl (.leave rfl
      (.leave rfl .nil)))))))),
    List.forall_mem_nil _, .swap _ _ _, by decide⟩

theorem plainSchema_variant : SchemaConfig.layout plainSchema.toJson
    "\x7b\"config_nodes\": 1e999,\"sources\":[\"kv\"],\"name\":\"main\"\x7d".toList := by
  have blank : Json.Blanks [] := by decide
  have foreign (fields : List Json.Field) (h : "config_nodes" ∉ fields.map (·.key)) :
      Json.Foreign fields "\"config_nodes\": 1e999".toList :=
    .mk blank (Json.escaped_spells "config_nodes".toList) blank h hugeNumber_value
  exact ⟨_, _, ["\"config_nodes\": 1e999".toList], _, rfl, .keep rfl (.keep rfl .nil),
    List.forall_mem_singleton.mpr (foreign _ (by decide)), List.reverse_perm _, by decide⟩

theorem CatalogConfig.ofString_variant_plain :
    CatalogConfig.ofString (
      "\x7b\"sources\":[\x7b\"settings\":\x7b\"depth\":3\x7d,\"name\":\"kv\"\x7d]," ++
      "\"schemas\":[\x7b\"config_nodes\": 1e999,\"sources\":[\"kv\"],\"name\":\"main\"\x7d]\x7d")
      = .ok plainCatalog := by
  have plain : plainCatalog.Plain :=
    ⟨List.forall_mem_singleton.mpr
      ⟨List.forall_mem_singleton.mpr (.integer (by decide) (by decide)), List.forall_mem_nil _⟩,
      List.forall_mem_nil _⟩
  refine CatalogConfig.ofString_variant plain (by decide) (by decide)
    ⟨_, _, [], _, rfl,
      .leave rfl (.keep ⟨_, _, rfl, .cons plainSchema_variant .nil, rfl⟩
        (.keep ⟨_, _, rfl, .cons plainSource_variant .nil, rfl⟩ .nil)),
      List.forall_mem_nil _, .swap _ _ _, by decide +kernel⟩

end SchemaCatalog
