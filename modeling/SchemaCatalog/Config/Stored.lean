import SchemaCatalog.Config.Basic
import SchemaCatalog.CatalogError
import SchemaCatalog.Text.Utf8

/-!
The stored form of configuration records. Only names must be present; everything else has a
default, and keys that are not known are passed over.
-/

namespace SchemaCatalog

open Json (Reader Slot)

def stringsJson (items : List String) : Json :=
  .array (items.map .string)

namespace Partition

def toJson (p : Partition) : Json :=
  .object [("id", .string p.id), ("left", .string p.left), ("right", .string p.right)]

def slots : List (Slot Partition) := [
  .optional "id" Reader.string fun v p => { p with id := v },
  .optional "left" Reader.string fun v p => { p with left := v },
  .optional "right" Reader.string fun v p => { p with right := v }]

def reader : Reader Partition :=
  Reader.record "Partition" slots {}

end Partition

namespace TablePartition

def toJson (p : TablePartition) : Json :=
  .object [
    ("keys", stringsJson p.keys),
    ("partitions", .array (p.partitions.map Partition.toJson)),
    ("table", .string p.table)]

def slots : List (Slot TablePartition) := [
  .mandatory "table" Reader.string fun v p => { p with table := v },
  .optional "keys" (Reader.list Reader.string) fun v p => { p with keys := v },
  .optional "partitions" (Reader.list Partition.reader) fun v p => { p with partitions := v }]

def reader : Reader TablePartition :=
  Reader.record "TablePartition" slots { table := "" }

end TablePartition

namespace ServerConfig

def toJson (s : ServerConfig) : Json :=
  .object [
    ("address", .string s.address),
    ("name", .string s.name),
    ("settings", .ofMap s.settings),
    ("source", .string s.source)]

def slots : List (Slot ServerConfig) := [
  .optional "name" Reader.string fun v s => { s with name := v },
  .optional "source" Reader.string fun v s => { s with source := v },
  .optional "address" Reader.string fun v s => { s with address := v },
  .optional "settings" (Reader.map Reader.json) fun v s => { s with settings := v }]

def reader : Reader ServerConfig :=
  Reader.record "ConfigNode" slots {}

end ServerConfig

namespace SourceConfig

def toJson (s : SourceConfig) : Json :=
  .object [
    ("hosts", stringsJson s.hosts),
    ("name", .string s.name),
    ("nodes", .array (s.nodes.map ServerConfig.toJson)),
    ("partition_count", .integer s.partitionCount.toNat),
    ("partitions", .array (s.partitions.map TablePartition.toJson)),
    ("settings", .ofMap s.settings),
    ("table_aliases", .object (s.tableAliases.entries.map fun e => (e.1, .string e.2))),
    ("tables_to_load", stringsJson s.tablesToLoad),
    ("type", .string s.type)]

def slots : List (Slot SourceConfig) := [
  .mandatory "name" Reader.string fun v s => { s with name := v },
  .optional "type" Reader.string fun v s => { s with type := v },
  .optional "tables_to_load" (Reader.list Reader.string) fun v s => { s with tablesToLoad := v },
  .optional "table_aliases" (Reader.map Reader.string) fun v s => { s with tableAliases := v },
  .optional "nodes" (Reader.list ServerConfig.reader) fun v s => { s with nodes := v },
  .optional "hosts" (Reader.list Reader.string) fun v s => { s with hosts := v },
  .optional "settings" (Reader.map Reader.json) fun v s => { s with settings := v },
  .optional "partitions" (Reader.list TablePartition.reader) fun v s => { s with partitions := v },
  .optional "partition_count" Reader.size fun v s => { s with partitionCount := v }]

def reader : Reader SourceConfig :=
  Reader.record "ConfigSource" slots { name := "" }

end SourceConfig

namespace SchemaConfig

def toJson (s : SchemaConfig) : Json :=
  .object [("name", .string s.name), ("sources", stringsJson s.sources)]

def slots : List (Slot SchemaConfig) := [
  .mandatory "name" Reader.string fun v s => { s with name := v },
  .optional "sources" (Reader.list Reader.string) fun v s => { s with sources := v }]

def reader : Reader SchemaConfig :=
  Reader.record "ConfigSchema" slots { name := "" }

end SchemaConfig

namespace CatalogConfig

def toJson (c : CatalogConfig) : Json :=
  .object [
    ("nodes", .array (c.nodes.map ServerConfig.toJson)),
    ("schemas", .array (c.schemas.map SchemaConfig.toJson)),
    ("sources", .array (c.sources.map SourceConfig.toJson))]

def slots : List (Slot CatalogConfig) := [
  .optional "schemas" (Reader.list SchemaConfig.reader) fun v c => { c with schemas := v },
  .optional "sources" (Reader.list SourceConfig.reader) fun v c => { c with sources := v },
  .optional "nodes" (Reader.list ServerConfig.reader) fun v c => { c with nodes := v }]

def reader : Reader CatalogConfig :=
  Reader.record "CatalogConfig" slots {}

def ofString (text : String) : Except CatalogError CatalogConfig :=
  (reader.ofString text).mapError .unreadable

/-- Reads stored bytes, which need not be text. -/
def ofBytes (bytes : List UInt8) : Except CatalogError CatalogConfig :=
  (reader.ofText (Text.Utf8.decode bytes)).mapError .unreadable

end CatalogConfig

end SchemaCatalog
