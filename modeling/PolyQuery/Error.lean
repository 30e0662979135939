import PolyQuery.Value
import PolyQuery.Capability
import PolyQuery.Representation

/-! Everything that can go wrong, as causes. Structural faults of a plan and missing features of a
backend are found before any statement is sent; failures of a driver pass through as they are.
`Error.message` gives each cause its wording. -/
namespace PolyQuery

/-- The number of columns of a query, unknown when it selects everything. -/
inductive Width where
  | columns (n : Nat)
  | wildcard
  deriving DecidableEq, Repr

/-- The text of a width. -/
def Width.text : Width → String
  | .columns n => toString n
  | .wildcard => "wildcard"

/-- What makes a plan impossible on every backend, or a request for relations impossible on every
model. -/
inductive PlanFault where
  | havingWithoutGroups
  | joinWithoutSource
  | crossJoinCondition
  | joinWithoutCondition (kind : String)
  | repeatedSource (name : String)
  | badBound (label given : String)
  | repeatedCte (name : String)
  | recursiveBody (name : String)
  | noCteColumns (name : String)
  | cteInOperand
  | insertWithoutColumns (table : String)
  | insertWithoutRows (table : String)
  | insertRowWidth (values columns : Nat)
  | updateWithoutAssignments
  | updateWithoutCondition
  | deleteWithoutCondition
  | cteColumnsUnknown (name backend : String)
  | windowMissing (function : String)
  | rawParameters (placeholders parameters : Nat)
  | joinedQueryUnnamed
  | relationsWithoutModel
  | slotConflict (slot parent : String)
  | badPath (path : String)
  | modelRepeated (name : String)
  | modelMissing (name : String)
  | connectionMissing (name : String)
  | badDepth (given : String)
  deriving Repr

/-- The wording of a fault. -/
def PlanFault.message : PlanFault → String
  | .havingWithoutGroups => "HAVING requires a GROUP BY clause"
  | .joinWithoutSource => "JOIN requires a FROM clause"
  | .crossJoinCondition => "CROSS JOIN cannot have an ON condition"
  | .joinWithoutCondition kind => kind ++ " JOIN requires an ON condition"
  | .repeatedSource name =>
    "\"" ++ name ++ "\" appears more than once in FROM/JOIN; give the join target an alias"
  | .badBound label given => label ++ " must be a non-negative integer, got " ++ given
  | .repeatedCte name => "Duplicate CTE name \"" ++ name ++ "\""
  | .recursiveBody name =>
    "Recursive CTE \"" ++ name ++
      "\" must combine its anchor and recursive member with UNION or UNION ALL"
  | .noCteColumns name => "CTE \"" ++ name ++ "\" has an empty column list"
  | .cteInOperand => "WITH clauses belong to the outermost query, not to set-operation operands"
  | .insertWithoutColumns table => "INSERT into " ++ table ++ " has no columns"
  | .insertWithoutRows table => "INSERT into " ++ table ++ " has no rows"
  | .insertRowWidth values columns =>
    "INSERT row has " ++ toString values ++ " values for " ++ toString columns ++ " columns"
  | .updateWithoutAssignments => "UPDATE requires at least one assignment"
  | .updateWithoutCondition => "UPDATE requires at least one WHERE condition for safety"
  | .deleteWithoutCondition => "DELETE requires at least one WHERE condition for safety"
  | .cteColumnsUnknown name backend =>
    "Recursive CTE \"" ++ name ++ "\" needs an explicit column list on " ++ backend
  | .windowMissing function => function ++ " requires an OVER clause"
  | .rawParameters placeholders parameters =>
    "Raw SQL has " ++ toString placeholders ++ " placeholder(s) but " ++ toString parameters ++
      " parameter(s)"
  | .joinedQueryUnnamed => "A joined subquery needs an alias"
  | .relationsWithoutModel => "Eager loading needs a model; start the query from a table"
  | .slotConflict slot parent =>
    "Relation slot \"" ++ slot ++ "\"" ++
      (if parent = "" then "" else " under \"" ++ parent ++ "\"") ++
      " is requested twice with different options; give one of them a name with \"as\""
  | .badPath path => "Invalid relation path \"" ++ path ++ "\""
  | .modelRepeated name => "Model \"" ++ name ++ "\" is already defined"
  | .modelMissing name => "Model \"" ++ name ++ "\" is not defined"
  | .connectionMissing name => "Connection \"" ++ name ++ "\" is not configured"
  | .badDepth given => "maxDepth must be a non-negative integer, got " ++ given

/-- A cause of failure. `inapplicable` is an operation that what it is asked of does not have, such
as a text of an object that has none. -/
inductive Error where
  | invalidPlan (fault : PlanFault)
  | arityMismatch (left right : Width)
  | unsupportedFeature (dialect : String) (category : Option Category) (feature : String)
      (detail : Option String)
  | unregisteredType (hostType : Option String) (representation : Option Representation)
  | unknownRelation (model relation : String) (missingTarget : Option String)
  | loadCancelled (completed pending : List String) (reason : Option Value)
  | transactionClosed
  | unreadableVersion (text : String)
  | unexpectedVersionNumber (text : String)
  | notBlocking (dialect : String)
  | failure (text : String)
  | unconvertible (adapter kind target : String)
  | malformedJson (adapter target : String)
  | malformedUuid
  | malformedInteger
  | noJsonText
  | invalidDate
  | inapplicable
  deriving Repr

/-- The wording of an error, empty where only its kind is said. -/
def Error.message : Error → String
  | .invalidPlan fault => fault.message
  | .arityMismatch left right =>
    "Set operation operands must select the same number of columns (left: " ++ left.text ++
      ", right: " ++ right.text ++ ")"
  | .unsupportedFeature dialect _ feature detail =>
    feature ++ " is not supported by " ++ dialect ++
      (match detail with
        | some d => if d = "" then "" else ": " ++ d
        | none => "")
  | .unregisteredType hostType representation =>
    "No type adapter registered for " ++ hostType.getD "undefined" ++
      (match representation with
        | some r => " -> " ++ r.name
        | none => "")
  | .unknownRelation model relation missingTarget =>
    "Unknown relation \"" ++ relation ++ "\" on " ++ model ++
      (match missingTarget with
        | some t => " (target model \"" ++ t ++ "\" is not defined)"
        | none => "")
  | .loadCancelled _ pending _ =>
    "Eager loading cancelled with " ++ toString pending.length ++ " relation path(s) pending"
  | .transactionClosed => "Transaction has already been completed"
  | .unreadableVersion text => "Cannot parse server version \"" ++ text ++ "\""
  | .unexpectedVersionNumber text => "Unexpected server_version_num: " ++ text
  | .notBlocking dialect => "Executor for " ++ dialect ++ " does not support blocking queries"
  | .failure text => text
  | .unconvertible adapter kind target =>
    adapter ++ ": cannot convert " ++ kind ++ " to " ++ target
  | .malformedJson adapter target => adapter ++ ": invalid JSON in " ++ target ++ " column"
  | .malformedUuid => "Stringified UUID is invalid"
  | .malformedInteger => ""
  | .noJsonText => ""
  | .invalidDate => ""
  | .inapplicable => ""

/-- The code of an error of this library; failures of the driver and malformed input have none. -/
def Error.code? : Error → Option String
  | .invalidPlan _ => some "INVALID_PLAN"
  | .arityMismatch _ _ => some "ARITY_MISMATCH"
  | .unsupportedFeature _ _ _ _ => some "UNSUPPORTED_FEATURE"
  | .unregisteredType _ _ => some "UNREGISTERED_TYPE"
  | .unknownRelation _ _ _ => some "UNKNOWN_RELATION"
  | .loadCancelled _ _ _ => some "EAGER_LOAD_CANCELLED"
  | .transactionClosed => some "TRANSACTION_CLOSED"
  | _ => none

/-- A width as a value. -/
def Width.value : Width → Value
  | .columns n => .number (.int n)
  | .wildcard => .string "wildcard"

/-- What an error tells beside its message and its code. -/
def Error.details : Error → List (String × Value)
  | .arityMismatch left right => [("left", left.value), ("right", right.value)]
  | .unsupportedFeature dialect category feature _ =>
    [("dialect", .string dialect), ("feature", .string feature)] ++
      (category.map fun c => ("category", .string c.name)).toList
  | .unregisteredType hostType representation =>
    (hostType.map fun h => ("hostType", .string h)).toList ++
      (representation.map fun r => ("dbType", .string r.name)).toList
  | .unknownRelation model relation _ =>
    [("model", .string model), ("relation", .string relation)]
  | .loadCancelled completed pending reason =>
    [("completed", .array (completed.map Value.string)),
      ("pending", .array (pending.map Value.string))] ++
      (reason.map fun v => ("cause", v)).toList
  | _ => []

/-- What a value is read as, or the error that it cannot be read. -/
def readable {α : Type} (x : Option α) : Except Error α :=
  match x with
  | some a => .ok a
  | none => .error .inapplicable

/-- A plan's fault as an error. -/
def fault {α : Type} (f : PlanFault) : Except Error α := .error (.invalidPlan f)

end PolyQuery
