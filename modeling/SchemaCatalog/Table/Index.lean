import SchemaCatalog.Config.Stored

/-! How fields of a table are indexed. -/

namespace SchemaCatalog

structure Index where
  name : String
  fields : List String := []
  primaryKey : Bool := false
  hashPartition : List String := []
  partitionSize : UInt64 := 0
deriving DecidableEq, Repr, Inhabited

namespace Index

open Json (Reader Slot)

def toJson (i : Index) : Json :=
  .object [
    ("fields", stringsJson i.fields),
    ("hash_partition", stringsJson i.hashPartition),
    ("name", .string i.name),
    ("partition_size", .integer i.partitionSize.toNat),
    ("primary_key", .bool i.primaryKey)]

def slots : List (Slot Index) := [
  .mandatory "name" Reader.string fun v i => { i with name := v },
  .mandatory "fields" (Reader.list Reader.string) fun v i => { i with fields := v },
  .mandatory "primary_key" Reader.bool fun v i => { i with primaryKey := v },
  .mandatory "hash_partition" (Reader.list Reader.string) fun v i => { i with hashPartition := v },
  .mandatory "partition_size" Reader.size fun v i => { i with partitionSize := v }]

def reader : Reader Index :=
  Reader.record "Index" slots { name := "" }

end Index

end SchemaCatalog
