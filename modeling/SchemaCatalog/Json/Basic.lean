import SchemaCatalog.NameMap

/-!
JSON values. Whole numbers of 64 bits are kept apart from floating point ones, and the entries of an
object are in ascending order of their keys.
-/

namespace SchemaCatalog

inductive Json where
  | null
  | bool (b : Bool)
  | integer (n : Int)
  | float (x : Float)
  | string (s : String)
  | array (items : List Json)
  | object (entries : List (String × Json))
deriving BEq, Inhabited

namespace Json

/-- The object of some entries, of which the last of a key counts. -/
def ofEntries (entries : List (String × Json)) : Json :=
  .object (NameMap.ofList entries).entries

def ofMap (m : NameMap Json) : Json :=
  .object m.entries

end Json

end SchemaCatalog
