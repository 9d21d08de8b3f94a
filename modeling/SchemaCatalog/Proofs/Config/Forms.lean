import SchemaCatalog.Config.Stored
import SchemaCatalog.Proofs.Json.Record

/-!
The stored forms of configuration records. Each layout lists the fields of a record in the order of
its encoding, with the defaults for which their keys may be left out.
-/

namespace SchemaCatalog

open Json (Column Field Form Layout Scheme)

/-! ### Texts -/

def Partition.layout : Layout :=
  .record [
    ⟨"id", some (.string ""), .exact⟩,
    ⟨"left", some (.string ""), .exact⟩,
    ⟨"right", some (.string ""), .exact⟩]

def TablePartition.layout : Layout :=
  .record [
    ⟨"keys", some (.array []), .exact⟩,
    ⟨"partitions", some (.array []), .list Partition.layout⟩,
    ⟨"table", none, .exact⟩]

def ServerConfig.layout : Layout :=
  .record [
    ⟨"address", some (.string ""), .exact⟩,
    ⟨"name", some (.string ""), .exact⟩,
    ⟨"settings", some (.object []), .exact⟩,
    ⟨"source", some (.string ""), .exact⟩]

def SourceConfig.layout : Layout :=
  .record [
    ⟨"hosts", some (.array []), .exact⟩,
    ⟨"name", none, .exact⟩,
    ⟨"nodes", some (.array []), .list ServerConfig.layout⟩,
    ⟨"partition_count", some (.integer 0), .exact⟩,
    ⟨"partitions", some (.array []), .list TablePartition.layout⟩,
    ⟨"settings", some (.object []), .exact⟩,
    ⟨"table_aliases", some (.object []), .exact⟩,
    ⟨"tables_to_load", some (.array []), .exact⟩,
    ⟨"type", some (.string ""), .exact⟩]

def SchemaConfig.layout : Layout :=
  .record [
    ⟨"name", none, .exact⟩,
    ⟨"sources", some (.array []), .exact⟩]

def CatalogConfig.layout : Layout :=
  .record [
    ⟨"nodes", some (.array []), .list ServerConfig.layout⟩,
    ⟨"schemas", some (.array []), .list SchemaConfig.layout⟩,
    ⟨"sources", some (.array []), .list SourceConfig.layout⟩]

/-! ### Settings -/

/-- Settings that hold no floats. -/
def PlainSettings (settings : NameMap Json) : Prop :=
  ∀ e ∈ settings.entries, e.2.Plain

def ServerConfig.Plain (s : ServerConfig) : Prop :=
  PlainSettings s.settings

def SourceConfig.Plain (s : SourceConfig) : Prop :=
  PlainSettings s.settings ∧ ∀ n ∈ s.nodes, n.Plain

/-- No settings in the configuration hold floats. -/
def CatalogConfig.Plain (c : CatalogConfig) : Prop :=
  (∀ s ∈ c.sources, s.Plain) ∧ ∀ n ∈ c.nodes, n.Plain

/-! ### Values of fields -/

namespace Json.Form

def strings : Form (List String) :=
  (list string).exact

theorem map_json_encode (m : NameMap Json) : (map json).encode m = .ofMap m := by
  simp [map, json, ofPlain, Json.ofMap]

def settings : Form (NameMap Json) where
  encode := Json.ofMap
  layout := .exact
  reader := Reader.map Reader.json
  Kept := PlainSettings
  printed _ := rfl
  stores m hkept text htext := by
    rw [← map_json_encode] at htext ⊢
    exact (map json).exact.stores m hkept text htext

def aliases : Form (NameMap String) :=
  (map string).exact

@[simp] theorem string_reader : string.reader = Reader.string := rfl

@[simp] theorem bool_reader : bool.reader = Reader.bool := rfl

@[simp] theorem size_reader : size.reader = Reader.size := rfl

@[simp] theorem strings_reader : strings.reader = Reader.list Reader.string := rfl

@[simp] theorem settings_reader : settings.reader = Reader.map Reader.json := rfl

@[simp] theorem aliases_reader : aliases.reader = Reader.map Reader.string := rfl

variable {α : Type} {F : Form α}

@[simp] theorem list_reader : F.list.reader = Reader.list F.reader := rfl

theorem string_default (s : String) (h : string.encode s = string.encode "") : s = "" := by
  simpa [string, ofPlain] using h

theorem size_default (n : UInt64) (h : size.encode n = size.encode 0) : n = 0 := by
  have hn : n.toNat = 0 := by simpa [size, ofPlain] using h
  exact UInt64.toNat_inj.mp hn

theorem list_default (as : List α) (h : F.list.encode as = F.list.encode []) : as = [] := by
  simpa [list] using h

theorem settings_default (m : NameMap Json) (h : settings.encode m = settings.encode ∅) :
    m = ∅ := by
  obtain ⟨entries, hentries⟩ := m
  obtain rfl : entries = [] := Json.object.inj h
  rfl

theorem map_default (m : NameMap α) (h : F.map.encode m = F.map.encode ∅) : m = ∅ := by
  obtain ⟨entries, hentries⟩ := m
  obtain rfl : entries = [] := List.map_eq_nil_iff.mp (Json.object.inj h)
  rfl

end Json.Form

/-! ### Records -/

namespace Partition

def columns : List (Column Partition) := [
  .optional "id" .string (·.id) (fun v p => { p with id := v }) "",
  .optional "left" .string (·.left) (fun v p => { p with left := v }) "",
  .optional "right" .string (·.right) (fun v p => { p with right := v }) ""]

def scheme : Scheme Partition where
  title := "Partition"
  slots := slots
  blank := {}
  columns := columns
  Kept _ := True
  lawful := by
    simp only [columns, List.forall_mem_cons]
    exact ⟨.optional (fun _ _ => trivial) Form.string_default rfl,
      .optional (fun _ _ => trivial) Form.string_default rfl,
      .optional (fun _ _ => trivial) Form.string_default rfl, nofun⟩
  keys_nodup := by decide
  slot_mem := by simp [columns, slots]
  mem_slot := by simp [columns, slots]
  copy_comm x := by simp [columns]
  copy_all _ _ := rfl

def form : Form Partition :=
  scheme.form

theorem form_encode : form.encode = toJson := rfl

@[simp] theorem form_reader : form.reader = reader := rfl

end Partition

namespace TablePartition

def columns : List (Column TablePartition) := [
  .optional "keys" .strings (·.keys) (fun v p => { p with keys := v }) [],
  .optional "partitions" (.list Partition.form) (·.partitions)
    (fun v p => { p with partitions := v }) [],
  .mandatory "table" .string (·.table) fun v p => { p with table := v }]

def scheme : Scheme TablePartition where
  title := "TablePartition"
  slots := slots
  blank := { table := "" }
  columns := columns
  Kept _ := True
  lawful := by
    simp only [columns, List.forall_mem_cons]
    exact ⟨.optional (fun _ _ _ _ => trivial) Form.list_default rfl,
      .optional (fun _ _ _ _ => trivial) Form.list_default rfl,
      .mandatory fun _ _ => trivial, nofun⟩
  keys_nodup := by decide
  slot_mem := by simp [columns, slots]
  mem_slot := by simp [columns, slots]
  copy_comm x := by simp [columns]
  copy_all _ _ := rfl

def form : Form TablePartition :=
  scheme.form

theorem form_encode : form.encode = toJson := rfl

@[simp] theorem form_reader : form.reader = reader := rfl

end TablePartition

namespace ServerConfig

def columns : List (Column ServerConfig) := [
  .optional "address" .string (·.address) (fun v s => { s with address := v }) "",
  .optional "name" .string (·.name) (fun v s => { s with name := v }) "",
  .optional "settings" .settings (·.settings) (fun v s => { s with settings := v }) ∅,
  .optional "source" .string (·.source) (fun v s => { s with source := v }) ""]

def scheme : Scheme ServerConfig where
  title := "ConfigNode"
  slots := slots
  blank := {}
  columns := columns
  Kept := Plain
  lawful := by
    simp only [columns, List.forall_mem_cons]
    exact ⟨.optional (fun _ _ => trivial) Form.string_default rfl,
      .optional (fun _ _ => trivial) Form.string_default rfl,
      .optional (fun _ h => h) Form.settings_default rfl,
      .optional (fun _ _ => trivial) Form.string_default rfl, nofun⟩
  keys_nodup := by decide
  slot_mem := by simp [columns, slots]
  mem_slot := by simp [columns, slots]
  copy_comm x := by simp [columns]
  copy_all _ _ := rfl

def form : Form ServerConfig :=
  scheme.form

theorem form_encode : form.encode = toJson := rfl

@[simp] theorem form_reader : form.reader = reader := rfl

end ServerConfig

namespace SourceConfig

def columns : List (Column SourceConfig) := [
  .optional "hosts" .strings (·.hosts) (fun v s => { s with hosts := v }) [],
  .mandatory "name" .string (·.name) (fun v s => { s with name := v }),
  .optional "nodes" (.list ServerConfig.form) (·.nodes) (fun v s => { s with nodes := v }) [],
  .optional "partition_count" .size (·.partitionCount)
    (fun v s => { s with partitionCount := v }) 0,
  .optional "partitions" (.list TablePartition.form) (·.partitions)
    (fun v s => { s with partitions := v }) [],
  .optional "settings" .settings (·.settings) (fun v s => { s with settings := v }) ∅,
  .optional "table_aliases" .aliases (·.tableAliases) (fun v s => { s with tableAliases := v }) ∅,
  .optional "tables_to_load" .strings (·.tablesToLoad) (fun v s => { s with tablesToLoad := v }) [],
  .optional "type" .string (·.type) (fun v s => { s with type := v }) ""]

def scheme : Scheme SourceConfig where
  title := "ConfigSource"
  slots := slots
  blank := { name := "" }
  columns := columns
  Kept := Plain
  lawful := by
    simp only [columns, List.forall_mem_cons]
    exact ⟨.optional (fun _ _ _ _ => trivial) Form.list_default rfl,
      .mandatory fun _ _ => trivial,
      .optional (fun _ h => h.2) Form.list_default rfl,
      .optional (fun _ _ => trivial) Form.size_default rfl,
      .optional (fun _ _ _ _ => trivial) Form.list_default rfl,
      .optional (fun _ h => h.1) Form.settings_default rfl,
      .optional (fun _ _ _ _ => trivial) Form.map_default rfl,
      .optional (fun _ _ _ _ => trivial) Form.list_default rfl,
      .optional (fun _ _ => trivial) Form.string_default rfl, nofun⟩
  keys_nodup := by decide
  slot_mem := by simp [columns, slots]
  mem_slot := by simp [columns, slots]
  copy_comm x := by simp [columns]
  copy_all _ _ := rfl

def form : Form SourceConfig :=
  scheme.form

theorem form_encode : form.encode = toJson := rfl

@[simp] theorem form_reader : form.reader = reader := rfl

end SourceConfig

namespace SchemaConfig

def columns : List (Column SchemaConfig) := [
  .mandatory "name" .string (·.name) (fun v s => { s with name := v }),
  .optional "sources" .strings (·.sources) (fun v s => { s with sources := v }) []]

def scheme : Scheme SchemaConfig where
  title := "ConfigSchema"
  slots := slots
  blank := { name := "" }
  columns := columns
  Kept s := s.servers = []
  lawful := by
    simp only [columns, List.forall_mem_cons]
    exact ⟨.mandatory fun _ _ => trivial,
      .optional (fun _ _ _ _ => trivial) Form.list_default rfl, nofun⟩
  keys_nodup := by decide
  slot_mem := by simp [columns, slots]
  mem_slot := by simp [columns, slots]
  copy_comm x := by simp [columns]
  copy_all := by
    rintro ⟨name, sources, servers⟩ rfl
    rfl

def form : Form SchemaConfig :=
  scheme.form

theorem form_encode : form.encode = toJson := rfl

@[simp] theorem form_reader : form.reader = reader := rfl

end SchemaConfig

namespace CatalogConfig

def columns : List (Column CatalogConfig) := [
  .optional "nodes" (.list ServerConfig.form) (·.nodes) (fun v c => { c with nodes := v }) [],
  .optional "schemas" (.list SchemaConfig.form) (·.schemas) (fun v c => { c with schemas := v }) [],
  .optional "sources" (.list SourceConfig.form) (·.sources) (fun v c => { c with sources := v }) []]

def scheme : Scheme CatalogConfig where
  title := "CatalogConfig"
  slots := slots
  blank := {}
  columns := columns
  Kept c := c.Plain ∧ ∀ s ∈ c.schemas, s.servers = []
  lawful := by
    simp only [columns, List.forall_mem_cons]
    exact ⟨.optional (fun _ h => h.1.2) Form.list_default rfl,
      .optional (fun _ h => h.2) Form.list_default rfl,
      .optional (fun _ h => h.1.1) Form.list_default rfl, nofun⟩
  keys_nodup := by decide
  slot_mem := by simp [columns, slots]
  mem_slot := by simp [columns, slots]
  copy_comm x := by simp [columns]
  copy_all _ _ := rfl

def form : Form CatalogConfig :=
  scheme.form

theorem form_encode : form.encode = toJson := rfl

theorem form_layout : form.layout = layout := rfl

@[simp] theorem form_reader : form.reader = reader := rfl

end CatalogConfig

end SchemaCatalog
