import SchemaCatalog.Text.Lowercase
import SchemaCatalog.Text.Utf8

/-! The 64-bit hash by which tables are known: one multiplication and one exclusive or a byte. -/

namespace SchemaCatalog.NameHash

def offsetBasis : UInt64 := 0xcbf29ce484222325

def prime : UInt64 := 0x100000001b3

def ofBytes (bytes : List UInt8) : UInt64 :=
  bytes.foldl (fun hash b => (hash * prime) ^^^ b.toUInt64) offsetBasis

/-- Names that differ in case alone have one hash. -/
def ofName (name : String) : UInt64 :=
  ofBytes (Text.Utf8.encode (Text.lowercase name))

theorem ofBytes_append (p s : List UInt8) :
    ofBytes (p ++ s) = s.foldl (fun hash b => (hash * prime) ^^^ b.toUInt64) (ofBytes p) := by
  simp [ofBytes]

end SchemaCatalog.NameHash
