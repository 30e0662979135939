import PolyQuery.Builder.Any
import PolyQuery.Session.Fetch

/-! The ways to run a query to its end, by their words, with a value as the result. -/
namespace PolyQuery

/-- A way to run a query: all records, the first one, whether there are any, their number, or plain
rows. -/
inductive Ending where
  | all
  | one
  | exists_
  | count
  | aggregate
  deriving DecidableEq, Repr

namespace Ending

/-- The word for a way. -/
def word : Ending → String
  | .all => "all"
  | .one => "one"
  | .exists_ => "exists"
  | .count => "count"
  | .aggregate => "aggregate"

/-- What is written behind the word of a way that blocks. -/
def suffix : Waiting → String
  | .awaiting => ""
  | .blocking => "Sync"

/-- All ways, awaited and blocking. -/
def ways : List (Waiting × Ending) :=
  [Waiting.awaiting, .blocking].flatMap fun w =>
    [Ending.all, .one, .exists_, .count, .aggregate].map fun e => (w, e)

/-- The way that a word names. -/
def ofWord? (text : String) : Option (Waiting × Ending) :=
  ways.find? fun (w, e) => e.word ++ suffix w == text

end Ending

/-- Records as a list. -/
def Value.ofRecords (ids : List Nat) : Value := .array (ids.map .record)

/-- A record, or nothing. -/
def Value.ofRecord? (id : Option Nat) : Value := (id.map Value.record).getD .null

namespace Run

/-- Runs a selection to its end. -/
def finishSelection (w : Waiting) (b : Builder) : Ending → Run Value
  | .all => return .ofRecords (← all w b)
  | .one => return .ofRecord? (← one w b)
  | .exists_ => return .bool (← exists_ w b)
  | .count => return .number (← count w b)
  | .aggregate => return .ofRecords (← aggregate w b)

/-- Runs a query to its end in the way that a word names, if there is such a way. Of a combination
all rows can be had. -/
def finish? (b : AnyBuilder) (word : String) : Option (Run Value) :=
  (Ending.ofWord? word).bind fun (w, e) =>
    match b, e with
    | .selection b, e => some (finishSelection w b e)
    | .combination b, .all => some (do return .ofRecords (← allCombined w b))
    | .combination _, _ => none

end Run

end PolyQuery
