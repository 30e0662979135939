import PolyQuery.Builder
import PolyQuery.Text.Blank

/-! The tree of relations to load with the records of a query. Requests that share the beginning of
their paths share nodes; among the nodes under one parent each slot occurs once. -/
namespace PolyQuery

/-- A relation to load into a slot of its parent's records. The modifier adjusts the query, the path
lists the slots from the root, and `passing` marks a node that so far only leads to deeper ones. -/
structure LoadNode where
  relation : String
  slot : String
  modifier : Option String
  path : String
  passing : Bool
  children : List LoadNode

/-- The end of a request: a relation, its slot and its modifier. -/
structure LoadGoal where
  relation : String
  slot : String
  modifier : Option String

/-- A path with a slot behind it. -/
def extendPath (parent slot : String) : String :=
  if parent = "" then slot else parent ++ "." ++ slot

namespace LoadNode

/-- A node for the goal of a request. -/
def ofGoal (parent : String) (g : LoadGoal) : LoadNode :=
  ⟨g.relation, g.slot, g.modifier, extendPath parent g.slot, false, []⟩

/-- A node on the way to deeper ones. -/
def onTheWay (parent segment : String) : LoadNode :=
  ⟨segment, segment, none, extendPath parent segment, true, []⟩

/-- A node that a goal meets in its slot. The same goal changes nothing, and a node that only led to
deeper ones takes the goal's modifier. -/
def meet (parent : String) (g : LoadGoal) (n : LoadNode) : Except PlanFault LoadNode :=
  if n.relation = g.relation ∧ n.modifier = g.modifier then .ok { n with passing := false }
  else if n.passing ∧ n.relation = g.relation then
    .ok { n with modifier := g.modifier, passing := false }
  else .error (.slotConflict g.slot parent)

/-- Applies a change to the first node with a slot, or to a new last one. -/
def changeSlot (slot : String) (change : LoadNode → Except PlanFault LoadNode) (fresh : LoadNode) :
    List LoadNode → Except PlanFault (List LoadNode)
  | [] => do
    let n ← change fresh
    return [n]
  | n :: rest =>
    if n.slot = slot then do
      let changed ← change n
      return changed :: rest
    else do
      let others ← changeSlot slot change fresh rest
      return n :: others

/-- Adds a goal among the nodes under a path, behind the segments that lead to it. -/
def insert (g : LoadGoal) (parent : String) : List String → List LoadNode →
    Except PlanFault (List LoadNode)
  | [], siblings => changeSlot g.slot (meet parent g) (ofGoal parent g) siblings
  | segment :: rest, siblings =>
    changeSlot segment
      (fun n => do
        let below ← insert g n.path rest n.children
        return { n with children := below })
      (onTheWay parent segment) siblings

mutual

/-- The paths below a node by level, the node's own first. -/
def levels : LoadNode → List (List String)
  | ⟨_, _, _, path, _, children⟩ => [path] :: forestLevels children

/-- The paths of nodes side by side, by level. -/
def forestLevels : List LoadNode → List (List String)
  | [] => []
  | n :: rest => mergeLevels n.levels (forestLevels rest)
where
  /-- Level by level, one list behind the other. -/
  mergeLevels : List (List String) → List (List String) → List (List String)
    | [], ys => ys
    | xs, [] => xs
    | x :: xs, y :: ys => (x ++ y) :: mergeLevels xs ys

end

/-- All paths of a forest, level by level. -/
def paths (forest : List LoadNode) : List String := (forestLevels forest).flatten

end LoadNode

namespace LoadRequest

/-- The segments of a path without blanks around them. -/
def segments (path : String) : List String :=
  (Dialect.dottedParts path.toList).map fun s => Text.trim (String.ofList s)

/-- Adds a request to a forest. The last segment is the relation, and its slot unless another is
named. -/
def addTo (forest : List LoadNode) (r : LoadRequest) : Except PlanFault (List LoadNode) :=
  let parts := segments r.path
  if parts.contains "" then .error (.badPath r.path)
  else
    match parts.getLast? with
    | some relation =>
      LoadNode.insert ⟨relation, r.slot.getD relation, r.modifier⟩ "" parts.dropLast forest
    | none => .error (.badPath r.path)

/-- The forest of requests, in order. -/
def forest (requests : List LoadRequest) : Except PlanFault (List LoadNode) :=
  requests.foldlM addTo []

end LoadRequest

end PolyQuery
