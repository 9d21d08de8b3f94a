/-!
References of the form `schema.table`. Either side may be wrapped in backticks or double quotes,
and the first dot divides them.
-/

namespace SchemaCatalog

structure QualifiedName where
  schema : String
  table : String
deriving DecidableEq, Repr

namespace QualifiedName

def isQuote (c : Char) : Bool :=
  c == '\x60' || c == '"'

/-- Drops quotes from both ends. -/
def stripQuotes (side : List Char) : List Char :=
  ((side.dropWhile isQuote).reverse.dropWhile isQuote).reverse

/-- A reference without a dot, or with a side that holds nothing but quotes, is not qualified. -/
def ofString? (ident : String) : Option QualifiedName :=
  match ident.toList.dropWhile (· != '.') with
  | [] => none
  | _ :: right =>
    let schema := stripQuotes (ident.toList.takeWhile (· != '.'))
    let table := stripQuotes right
    if schema.isEmpty || table.isEmpty then none
    else some ⟨String.ofList schema, String.ofList table⟩

end QualifiedName

end SchemaCatalog
