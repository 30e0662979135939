import PolyQuery.Description.Call
import PolyQuery.Log

/-! What a logger is told by descriptions: its levels, and messages with details of any kind. -/
namespace PolyQuery.Description

/-- The level that a description names, if there is one of that name. -/
def level? (d : Description) : Except Error (Option Level) := do
  return Level.ofName? (← readable d.toValue.text?)

/-- The level for a configured text. -/
def configuredLevel (d : Description) : Except Error Level := do
  return Level.configured (← d.requiredText)

/-- The lines that a logger writes for a message and the details after it. A message that is not
written is not read either. -/
def logLines (arguments : Description) (l : Logger) (level : Level) :
    Except Error (List LogLine) := do
  if l.isEnabled (some level) then
    let message ← readable (arguments.item 0).toValue.text?
    return l.write level message ((arguments.behind 1).map fun d => .value d.toValue)
  else return []

end PolyQuery.Description
