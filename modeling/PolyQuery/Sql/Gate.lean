import PolyQuery.Dialect
import PolyQuery.Expr

/-! The features that parts of a statement need, and the refusal of those that a server lacks. -/
namespace PolyQuery

/-- Refuses features that the dialect lacks. -/
def Dialect.require (d : Dialect) (category : Category) (flags : Mask) : Except Error Unit :=
  if d.capabilities.supports category flags then .ok ()
  else .error (.unsupportedFeature d.label (some category)
    ((Capability.describe? category flags.toNat).getD category.name) none)

/-- The window functions, by name in upper case, with their features. -/
def windowFunctions : List (String × Mask) :=
  [("ROW_NUMBER", WindowFeature.rowNumber), ("RANK", WindowFeature.rank),
    ("DENSE_RANK", WindowFeature.denseRank), ("LAG", WindowFeature.lag),
    ("LEAD", WindowFeature.lead), ("FIRST_VALUE", WindowFeature.firstValue),
    ("LAST_VALUE", WindowFeature.lastValue), ("NTH_VALUE", WindowFeature.nthValue),
    ("CUME_DIST", WindowFeature.cumeDist), ("PERCENT_RANK", WindowFeature.percentRank),
    ("NTILE", WindowFeature.ntile)]

/-- The functions on JSON documents, by name in upper case, with their features. -/
def jsonFunctions : List (String × Mask) :=
  [("JSON_EXTRACT", JsonFeature.extract), ("JSON_CONTAINS", JsonFeature.contains),
    ("JSON_EXISTS", JsonFeature.exists_), ("JSON_SET", JsonFeature.set),
    ("JSON_INSERT", JsonFeature.insert), ("JSON_REPLACE", JsonFeature.replace),
    ("JSON_REMOVE", JsonFeature.remove), ("JSON_KEYS", JsonFeature.keys),
    ("JSON_ARRAY", JsonFeature.array), ("JSON_OBJECT", JsonFeature.object)]

namespace Dialect

/-- Checks what a call needs of windows: a window function must have one, and any function with one
needs a server that knows windows. -/
def checkWindowUse (d : Dialect) (upperName : String) (hasWindow : Bool) : Except Error Unit :=
  match windowFunctions.lookup upperName with
  | some feature =>
    if hasWindow then d.require .windowFunctions feature else fault (.windowMissing upperName)
  | none =>
    if hasWindow && !d.capabilities.supportsCategory .windowFunctions then
      .error (.unsupportedFeature d.label (some .windowFunctions) Category.windowFunctions.name
        (some (upperName ++ " OVER (...)")))
    else .ok ()

/-- Checks what a call needs of JSON documents. -/
def checkJsonUse (d : Dialect) (upperName : String) : Except Error Unit :=
  match jsonFunctions.lookup upperName with
  | some feature => d.require .jsonOperations feature
  | none => .ok ()

/-- Checks that the server has what a call needs. -/
def checkCall (d : Dialect) (name : String) (hasWindow : Bool) : Except Error Unit := do
  let upperName := Text.upper name
  d.checkWindowUse upperName hasWindow
  d.checkJsonUse upperName

end Dialect

/-- The feature of a set operator, with or without `ALL`. -/
def SetOperator.feature : SetOperator → Bool → Mask
  | .union, false => SetFeature.union
  | .union, true => SetFeature.unionAll
  | .intersect, false => SetFeature.intersect
  | .intersect, true => SetFeature.intersectAll
  | .except, false => SetFeature.except
  | .except, true => SetFeature.exceptAll

/-- The feature of a join. -/
def JoinKind.feature : JoinKind → Mask
  | .inner => JoinFeature.inner
  | .left => JoinFeature.left
  | .right => JoinFeature.right
  | .full => JoinFeature.full
  | .cross => JoinFeature.cross

end PolyQuery
