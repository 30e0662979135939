import PolyQuery.Error
import PolyQuery.Text.Letters

/-! Log lines. A logger has a scope and a threshold; lines below the threshold are not written. -/
namespace PolyQuery

/-- The levels of log lines, and the threshold that lets nothing pass. -/
inductive Level where
  | debug
  | info
  | warn
  | error
  | silent
  deriving DecidableEq, Repr

namespace Level

/-- The word for a level. -/
def name : Level → String
  | .debug => "debug"
  | .info => "info"
  | .warn => "warn"
  | .error => "error"
  | .silent => "silent"

/-- The weight of a level. -/
def rank : Level → Nat
  | .debug => 10
  | .info => 20
  | .warn => 30
  | .error => 40
  | .silent => 100

/-- All levels. -/
def all : List Level := [.debug, .info, .warn, .error, .silent]

/-- The level that a word names. -/
def ofName? (word : String) : Option Level := all.find? (·.name == word)

/-- The level that a configured text names in any letter case, else the one for warnings. -/
def configured (text : String) : Level := (ofName? (Text.lower text)).getD .warn

/-- Whether a level passes a threshold. -/
def passes (level threshold : Level) : Bool := threshold.rank ≤ level.rank

end Level

/-- What a line carries beside its message. -/
inductive LogDetail where
  | value (v : Value)
  | error (e : Error)
  deriving Repr

/-- A line of a log. -/
structure LogLine where
  level : Level
  text : String
  details : List LogDetail
  deriving Repr

/-- A line under a scope. -/
def LogLine.make (scope : String) (level : Level) (message : String) (details : List LogDetail) :
    LogLine :=
  ⟨level, "[sqlweave:" ++ scope ++ "] " ++ message, details⟩

/-- A logger. Without a threshold it writes nothing. -/
structure Logger where
  scope : String
  threshold : Option Level

namespace Logger

/-- Whether a level passes the threshold; what is no level never does. -/
def isEnabled (l : Logger) (level : Option Level) : Bool :=
  match level, l.threshold with
  | some level, some threshold => level.passes threshold
  | _, _ => false

/-- The lines that a logger writes for a message: one, or none. -/
def write (l : Logger) (level : Level) (message : String) (details : List LogDetail) :
    List LogLine :=
  if l.isEnabled (some level) then [LogLine.make l.scope level message details] else []

end Logger

end PolyQuery
