/-!
# The log

What the machine reports while it works, each line with a level. A log keeps the lines up to its
most verbose level and forgets the others.
-/

namespace ScriptVm

/-- How important a line is. -/
inductive Level where
  | error | warn | info | debug | trace
deriving DecidableEq, Inhabited

namespace Level

/-- The place of a level, from the most important. -/
def rank : Level → Nat
  | .error => 1
  | .warn => 2
  | .info => 3
  | .debug => 4
  | .trace => 5

/-- The name of a level. -/
def name : Level → String
  | .error => "error"
  | .warn => "warn"
  | .info => "info"
  | .debug => "debug"
  | .trace => "trace"

end Level

/-- One line. -/
structure LogEntry where
  level : Level
  text : String
deriving DecidableEq, Inhabited

/-- The lines kept so far; lines that rank above `limit` are not kept. -/
structure Log where
  limit : Nat
  entries : Array LogEntry
deriving DecidableEq, Inhabited

namespace Log

/-- Keeps nothing. -/
def off : Log := ⟨0, #[]⟩

/-- Keeps lines up to a level. -/
def upTo (level : Level) : Log := ⟨level.rank, #[]⟩

/-- Whether lines of a level are kept. -/
def keeps (log : Log) (level : Level) : Bool := decide (level.rank ≤ log.limit)

/-- Adds a line if its level is kept. -/
@[inline] def add (log : Log) (level : Level) (text : Unit → String) : Log :=
  if log.keeps level then { log with entries := log.entries.push ⟨level, text ()⟩ } else log

end Log
end ScriptVm
