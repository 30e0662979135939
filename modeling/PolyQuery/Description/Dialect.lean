import PolyQuery.Description.Call
import PolyQuery.Dialect.Function

/-! Questions to a dialect and to capabilities by their words, with arguments of any kind. -/
namespace PolyQuery.Description

/-- The mask that a description is, none where it is no word or no number. -/
def mask? (d : Description) : Except Error (Option Mask) :=
  match d.toValue with
  | .number n => .ok (Mask.ofNumber? n)
  | .bigint _ => .error .inapplicable
  | v => do
    let _ ← readable v.toNumber?
    return none

/-- The features that a description adds: the lowest bits of the number that it stands for. -/
def addedMask (d : Description) : Except Error Mask :=
  match d.toValue with
  | .bigint _ => .error .inapplicable
  | v => do return Mask.ofNumber (← readable v.toNumber?)

/-- Whether capabilities have all features that are described. -/
def supported (c : Capabilities) (d : Description) (flags : Description) : Except Error Bool := do
  let k ← d.category
  match ← flags.mask? with
  | some m => return c.supports k m
  | none => return false

/-- A requirement: a category, and features of it unless any will do. -/
def requirement (d : Description) : Except Error Requirement := do
  let k ← (d.item 0).category
  match (d.item 1).given? with
  | none => return ⟨k, .any⟩
  | some flags =>
    match ← flags.mask? with
    | some m => return ⟨k, .all m⟩
    | none => return ⟨k, .impossible⟩

/-- A step that puts capabilities together or asks what they have: the capabilities after it, and
the answer to a question. -/
def capabilityStep (c : Capabilities) (word : String) (arguments : Description) :
    Except Error (Capabilities × Option Bool) := do
  let d (place : Nat) : Description := arguments.item place
  match word with
  | "supports" => return (c, some (← supported c (d 0) (d 1)))
  | "supportsCategory" => return (c, some (c.supportsCategory (← (d 0).category)))
  | "add" => return (c.add (← (d 0).category) (← (arguments.behind 1).mapM addedMask), none)
  | "addSince" =>
    if ← versionAtLeast (d 0) (d 1) then
      return (c.add (← (d 2).category) (← (arguments.behind 3).mapM addedMask), none)
    else return (c, none)
  | _ => return (c, none)

/-- What the dialect makes of a call whose arguments are any values. A call joins the texts of a
list, in which a missing one is empty; an aggregate takes the first two as they read. -/
def renderCall (t : Dialect) (name : String) (arguments : Description) (distinct : Bool) :
    Except Error String := do
  let form := (t.functionForm? name).getD (.call name)
  let plain (texts : List String) : String := t.renderFunction name texts distinct
  let joined : Except Error String :=
    match arguments.toValue with
    | .array vs => do return plain (← readable (Value.itemTexts? vs))
    | _ => .error .inapplicable
  let aggregate : Except Error String := do
    let first ← arguments.partAt 0
    let second ← arguments.partAt 1
    let rest ← if second.isMissing then pure [] else do pure [← readable second.text?]
    return plain ((← readable first.text?) :: rest)
  match form with
  | .constant _ => return plain []
  | .call _ => joined
  | .joined _ => joined
  | .stringAggregate _ => aggregate
  | .listAggregate => aggregate

/-- A question to a dialect. -/
def askDialect (t : Dialect) (word : String) (arguments : Description) : Except Error Value := do
  let d (place : Nat) : Description := arguments.item place
  match word with
  | "quoteIdentifier" => return .string (t.quoteIdentifier (← (d 0).requiredText))
  | "quoteQualified" => return .string (t.quoteQualified (← (d 0).requiredText))
  | "placeholder" =>
    if t.numbersParameters then
      return .string (t.placeholderOf (← readable (d 0).toValue.text?))
    else return .string (t.placeholderOf "")
  | "setOperatorKeyword" =>
    match (d 0).text? with
    | some s => return .string (t.setOperatorKeyword s)
    | none => return (d 0).toValue
  | "mapsFunction" => return .bool (t.mapsFunction (← (d 0).requiredText))
  | "renderFunction" =>
    return .string (← renderCall t (← (d 0).requiredText) (d 1) (d 2).toValue.isTruthy)
  | "explainPrefix" =>
    if t.takesExplainOptions && (d 0).toValue matches .null then .error .inapplicable
    else return .string (← t.explainWords (d 0).explain)
  | "suggestDbType" =>
    return .ofText? (((d 0).text?.bind t.suggestRepresentation).map Representation.name)
  | "supports" => return .bool (← supported t.capabilities (d 0) (d 1))
  | "supportsCategory" => return .bool (t.capabilities.supportsCategory (← (d 0).category))
  | "mask" => return .number (.int (t.capabilities.mask (← (d 0).category)).toInt)
  | _ => return t.reflect

end PolyQuery.Description
