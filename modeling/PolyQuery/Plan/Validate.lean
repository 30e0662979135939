import PolyQuery.Plan.Arity

/-! The checks that a statement must pass on every backend, before any of it is written. A query is
checked together with the queries that its sources, operands, common table expressions and
expressions hold. -/
namespace PolyQuery.Plan

/-- A natural number that is exact as a number. -/
def isBound (v : Value) : Bool :=
  match v with
  | .number n => n.isSafeInteger && !(n.lt (.int 0))
  | _ => false

/-- Checks one end of a pagination. -/
def checkBound (label : String) : Option Value → Except Error Unit
  | none => .ok ()
  | some v =>
    if isBound v then .ok ()
    else do
      let given ← readable v.text?
      fault (.badBound label given)

/-- Checks the limit, then the offset. -/
def checkPagination : Option Pagination → Except Error Unit
  | none => .ok ()
  | some p => do
    checkBound "LIMIT" p.limit
    checkBound "OFFSET" p.offset

/-- Checks that a join has a condition exactly when its kind asks for one. -/
def checkJoinCondition (kind : JoinKind) (hasCondition : Bool) : Except Error Unit :=
  if kind = .cross then (if hasCondition then fault .crossJoinCondition else .ok ())
  else if hasCondition then .ok () else fault (.joinWithoutCondition kind.keyword)

/-- Checks that the body of a recursive expression is a union. -/
def checkRecursiveBody (name : String) (recursive : Bool) : Query → Except Error Unit
  | .combined p =>
    if recursive && p.operator != .union then fault (.recursiveBody name) else .ok ()
  | .select _ => if recursive then fault (.recursiveBody name) else .ok ()

mutual

/-- Checks a query. -/
def checkQuery : Query → Except Error Unit
  | .select p => checkSelect p
  | .combined p => checkSet p

/-- Checks a selection: its clauses, its sources, its bounds, its common table expressions, and
last the queries inside its expressions. -/
def checkSelect : SelectPlan → Except Error Unit
  | ⟨items, source, joins, condition, groupBy, having, orderBy, pagination, _, ctes⟩ => do
    if having.isSome && groupBy.isEmpty then fault .havingWithoutGroups
    if !joins.isEmpty && source.isNone then fault .joinWithoutSource
    checkOptionalSource source
    checkJoins (source.map Source.name).toList joins
    checkPagination pagination
    checkCtes [] ctes
    checkExprs items
    checkOptional condition
    checkExprs groupBy
    checkOptional having
    checkTerms orderBy
    checkJoinExprs joins

/-- Checks both operands, their arity, the bounds and the common table expressions. -/
def checkSet : SetPlan → Except Error Unit
  | ⟨_, _, left, right, _, pagination, ctes⟩ => do
    if !left.ctes.isEmpty then fault .cteInOperand
    checkQuery left
    if !right.ctes.isEmpty then fault .cteInOperand
    checkQuery right
    checkSameArity left right
    checkPagination pagination
    checkCtes [] ctes

/-- Checks a source. -/
def checkSource : Source → Except Error Unit
  | .table _ _ => .ok ()
  | .query q _ => checkQuery q

/-- Checks a source, if there is one. -/
def checkOptionalSource : Option Source → Except Error Unit
  | none => .ok ()
  | some s => checkSource s

/-- Checks joins in order, given the names of the sources before them. -/
def checkJoins (seen : List String) : List Join → Except Error Unit
  | [] => .ok ()
  | j :: rest => do
    checkJoin seen j
    checkJoins (j.target.name :: seen) rest

/-- Checks a join. -/
def checkJoin (seen : List String) : Join → Except Error Unit
  | ⟨kind, target, on, _⟩ => do
    checkJoinCondition kind on.isSome
    if seen.contains target.name then fault (.repeatedSource target.name)
    checkSource target

/-- Checks common table expressions in order, given the names before them. -/
def checkCtes (names : List String) : List Cte → Except Error Unit
  | [] => .ok ()
  | c :: rest => do
    checkCte names c
    checkCtes (c.name :: names) rest

/-- Checks a common table expression. -/
def checkCte (names : List String) : Cte → Except Error Unit
  | ⟨name, query, columns, _, recursive⟩ => do
    if names.contains name then fault (.repeatedCte name)
    checkRecursiveBody name recursive query
    if columns = some [] then fault (.noCteColumns name)
    checkQuery query

/-- Checks the queries inside an expression. -/
def checkExpr : Expr → Except Error Unit
  | .column _ _ _ => .ok ()
  | .star _ => .ok ()
  | .literal _ _ => .ok ()
  | .raw _ _ => .ok ()
  | .subquery q => checkQuery q
  | .inQuery operand q _ => do
    checkExpr operand
    checkQuery q
  | .binary _ left right => do
    checkExpr left
    checkExpr right
  | .unary _ operand => checkExpr operand
  | .inList operand values _ => do
    checkExpr operand
    checkExprs values
  | .call _ arguments _ windowed => do
    checkExprs arguments
    checkOptionalWindow windowed
  | .window w => checkWindow w
  | .cases branches otherwise => do
    checkBranches branches
    checkOptional otherwise
  | .named e _ => checkExpr e

/-- Checks the queries inside expressions. -/
def checkExprs : List Expr → Except Error Unit
  | [] => .ok ()
  | e :: es => do
    checkExpr e
    checkExprs es

/-- Checks the queries inside an expression, if there is one. -/
def checkOptional : Option Expr → Except Error Unit
  | none => .ok ()
  | some e => checkExpr e

/-- Checks the queries inside the branches of a case distinction. -/
def checkBranches : List Branch → Except Error Unit
  | [] => .ok ()
  | ⟨condition, result⟩ :: rest => do
    checkExpr condition
    checkExpr result
    checkBranches rest

/-- Checks the queries inside a window. -/
def checkWindow : Window → Except Error Unit
  | ⟨partitionBy, orderBy, _⟩ => do
    checkExprs partitionBy
    checkTerms orderBy

/-- Checks the queries inside a window, if there is one. -/
def checkOptionalWindow : Option Window → Except Error Unit
  | none => .ok ()
  | some w => checkWindow w

/-- Checks the queries inside an ordering. -/
def checkTerms : List OrderTerm → Except Error Unit
  | [] => .ok ()
  | ⟨e, _⟩ :: rest => do
    checkExpr e
    checkTerms rest

/-- Checks the queries inside the conditions of joins. -/
def checkJoinExprs : List Join → Except Error Unit
  | [] => .ok ()
  | ⟨_, _, on, _⟩ :: rest => do
    checkOptional on
    checkJoinExprs rest

end

/-- Checks the rows of an insertion against its columns. -/
def checkRows (columns : Nat) : List (List Expr) → Except Error Unit
  | [] => .ok ()
  | row :: rest => do
    if row.length != columns then fault (.insertRowWidth row.length columns)
    checkExprs row
    checkRows columns rest

/-- Checks an insertion. -/
def checkInsert (p : InsertPlan) : Except Error Unit := do
  if p.columns.isEmpty then fault (.insertWithoutColumns p.table)
  if p.rows.isEmpty then fault (.insertWithoutRows p.table)
  checkRows p.columns.length p.rows

/-- Checks a change. -/
def checkUpdate (p : UpdatePlan) : Except Error Unit := do
  if p.assignments.isEmpty then fault .updateWithoutAssignments
  if p.condition.isNone then fault .updateWithoutCondition
  checkOptional p.condition
  checkExprs (p.assignments.map Assignment.value)

/-- Checks a deletion. -/
def checkDelete (p : DeletePlan) : Except Error Unit := do
  if p.condition.isNone then fault .deleteWithoutCondition
  checkOptional p.condition

/-- Checks a statement. -/
def check : Statement → Except Error Unit
  | .query q => checkQuery q
  | .insert p => checkInsert p
  | .update p => checkUpdate p
  | .delete p => checkDelete p

end PolyQuery.Plan
