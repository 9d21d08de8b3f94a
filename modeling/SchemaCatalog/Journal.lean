/-! What a catalog reports of its work, in order. -/

namespace SchemaCatalog

inductive Level where
  | error
  | warn
  | info
  | debug
  | trace
deriving DecidableEq, Repr

namespace Level

def name : Level → String
  | error => "ERROR"
  | warn => "WARN"
  | info => "INFO"
  | debug => "DEBUG"
  | trace => "TRACE"

/-- The most severe level comes first. -/
def rank : Level → Nat
  | error => 0
  | warn => 1
  | info => 2
  | debug => 3
  | trace => 4

end Level

structure LogEntry where
  level : Level
  message : String
deriving DecidableEq, Repr

namespace LogEntry

def text (e : LogEntry) : String :=
  s!"{e.level.name} {e.message}"

/-- Whether an entry is at least as severe as a level. -/
def reaches (e : LogEntry) (level : Level) : Bool :=
  e.level.rank ≤ level.rank

end LogEntry

abbrev Journal := List LogEntry

end SchemaCatalog
