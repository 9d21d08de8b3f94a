import SchemaCatalog.Json.Reader

/-! Handles of schema nodes. A node keeps its handle for the lifetime of its catalog. -/

namespace SchemaCatalog

structure NodeId where
  index : Nat
deriving DecidableEq, Repr, Inhabited

namespace NodeId

def display (id : NodeId) : String :=
  s!"schema#{id.index}"

def debugText (id : NodeId) : String :=
  s!"SchemaId({id.index})"

def toJson (id : NodeId) : Json :=
  .integer id.index

def reader : Json.Reader NodeId := fun origin d =>
  (fun n => ⟨n.toNat⟩) <$> Json.Reader.size origin d

end NodeId

end SchemaCatalog
