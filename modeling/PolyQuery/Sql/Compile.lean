import PolyQuery.Plan.Validate
import PolyQuery.Sql.Gate
import PolyQuery.Sql.Paging
import PolyQuery.Sql.Precedence
import PolyQuery.Sql.Raw

/-! Statements as text for one dialect. Every part becomes a fragment, parts are joined in the order
of the text, and features are required where the part that needs them begins. Main definition:
`compile`, which checks a statement and gives its text with the values to bind. -/
namespace PolyQuery

namespace Sql

/-- A list cut into pieces of a size, the last one perhaps shorter; `fuel` bounds their number. -/
def chunks {α : Type} (size : Nat) : Nat → List α → List (List α)
  | 0, _ => []
  | fuel + 1, xs => if xs.isEmpty then [] else xs.take size :: chunks size fuel (xs.drop size)

/-- The operand of a predicate, in parentheses unless it needs none anywhere. -/
def predicateOperand (e : Expr) (f : Fragment) : Fragment :=
  if e.precedence = atomicPrecedence then f else f.enclosed

/-- The operand of an operator, in parentheses where it needs them. -/
def operand (parent : BinaryOp) (side : Side) (e : Expr) (f : Fragment) : Fragment :=
  if e.needsParens parent side then f.enclosed else f

/-- A unary operator with its operand. -/
def unary (op : UnaryOp) (e : Expr) (f : Fragment) : Fragment :=
  match op with
  | .not => Fragment.text "NOT " ++ predicateOperand e f
  | .neg => Fragment.text "-" ++ predicateOperand e f
  | .isNull => predicateOperand e f ++ Fragment.text " IS NULL"
  | .isNotNull => predicateOperand e f ++ Fragment.text " IS NOT NULL"
  | .exists_ => Fragment.text "EXISTS " ++ f
  | .notExists => Fragment.text "NOT EXISTS " ++ f

/-- The keyword of a membership test. -/
def membershipKeyword (negated : Bool) : String := if negated then "NOT IN" else "IN"

/-- A membership test, split where the dialect limits the list; the parts are joined by `OR`, or by
`AND` when it is negated. -/
def membership (d : Dialect) (negated : Bool) (test : Fragment) (values : List Fragment) :
    Fragment :=
  let parts := chunks (d.maxInList.getD values.length) values.length values
  let tests := parts.map fun part =>
    test ++ Fragment.text (" " ++ membershipKeyword negated ++ " (") ++ Fragment.join ", " part ++
      Fragment.text ")"
  match tests with
  | [t] => t
  | ts => (Fragment.join (if negated then " AND " else " OR ") ts).enclosed

/-- A table's or column's name behind an optional qualifier. -/
def qualified (d : Dialect) (table : Option String) (name : String) : String :=
  match table with
  | some t => if t = "" then name else d.quoteQualified t ++ "." ++ name
  | none => name

/-- The frame of a window. -/
def frameText (f : Frame) : String :=
  match f.stop with
  | none => f.unit.keyword ++ " " ++ f.start.text
  | some stop => f.unit.keyword ++ " BETWEEN " ++ f.start.text ++ " AND " ++ stop.text

/-- The name that an item of a select list gets. -/
def itemAlias : Expr → Option String
  | .named _ name => some name
  | .column _ _ (some name) => if name = "" then none else some name
  | _ => none

/-- An item of a select list with its name. -/
def selectItem (d : Dialect) (e : Expr) (f : Fragment) : Fragment :=
  match itemAlias e with
  | some name => f ++ Fragment.text (" AS " ++ d.quoteIdentifier name)
  | none => f

/-- A source with its alias. -/
def aliased (d : Dialect) (f : Fragment) (name : String) : Fragment :=
  f ++ Fragment.text (d.tableAliasKeyword ++ d.quoteIdentifier name)

/-- A table with its alias; an empty alias is none. -/
def table (d : Dialect) (name : String) (shown : Option String) : Fragment :=
  let f := Fragment.text (d.quoteQualified name)
  match shown with
  | some a => if a = "" then f else aliased d f a
  | none => f

/-- The columns that a recursive common table expression must list, taken from the names of its
anchor's items. -/
def requiredColumns (d : Dialect) (name : String) (recursive : Bool) (query : Query) :
    Except Error (Option (List String)) :=
  if recursive && d.recursionNeedsColumns then
    let names := query.leftmost.items.map Expr.outputName
    let known := names.filterMap id
    if names.isEmpty || known.length != names.length then
      fault (.cteColumnsUnknown name d.backend.name)
    else .ok (some known)
  else .ok none

/-- The column list of a common table expression. -/
def columnList (d : Dialect) (columns : Option (List String)) : String :=
  match columns with
  | some cs => " (" ++ ", ".intercalate (cs.map d.quoteIdentifier) ++ ")"
  | none => ""

/-- The words that ask for materialization or refuse it. -/
def materialization : Option Bool → String
  | some true => " MATERIALIZED"
  | some false => " NOT MATERIALIZED"
  | none => ""

/-- The limit that stands behind `SELECT` in the `TOP` style. -/
def topLimit (d : Dialect) (pagination : Option Pagination) : Option Value :=
  if d.paginationStyle = .top then pagination.bind Pagination.limit else none

/-- The words before a select list. -/
def selectHead (distinct : Bool) (limit : Option Value) : String :=
  "SELECT" ++ (if distinct then " DISTINCT" else "") ++
    (match limit with
      | some v => " TOP " ++ v.text
      | none => "") ++ " "

/-- A keyword before a fragment. -/
def clause (keyword : String) (f : Fragment) : Fragment := Fragment.text (keyword ++ " ") ++ f

/-- An optional clause. -/
def optionalClause (keyword : String) : Option Fragment → Fragment
  | some f => clause keyword f
  | none => Fragment.empty

/-- A clause with a list, none when the list is empty. -/
def listClause (keyword : String) (fs : List Fragment) : Fragment :=
  if fs.isEmpty then Fragment.empty else clause keyword (Fragment.join ", " fs)

/-- The operand of a set operation: in parentheses where the dialect has them; else a selection from
it when it is ordered or paginated, or a combination on the right. -/
def setOperand (d : Dialect) (side : Side) (q : Query) (f : Fragment) : Fragment :=
  let isCombined := match q with
    | .combined _ => true
    | .select _ => false
  if d.parenthesizesOperands then f.enclosed
  else if !q.orderBy.isEmpty || q.pagination.isSome || (side == .right && isCombined) then
    Fragment.text "SELECT * FROM " ++ f.enclosed
  else f

/-- A `WITH` clause before a query, if there is one. -/
def withClause (d : Dialect) (recursive : Bool) (ctes : List Fragment) (body : Fragment) :
    Fragment :=
  if ctes.isEmpty then body
  else
    let keyword := if recursive && d.hasRecursiveKeyword then "WITH RECURSIVE" else "WITH"
    clause keyword (Fragment.join ", " ctes) ++ Fragment.text " " ++ body

/-- What a `WITH` clause needs of the server. -/
def requireCtes (d : Dialect) (ctes : List Cte) : Except Error Unit := do
  if !ctes.isEmpty then
    d.require .cte CteFeature.basic
    if ctes.any Cte.recursive then d.require .cte CteFeature.recursive

mutual

/-- A query. -/
def query (d : Dialect) : Query → Except Error Fragment
  | .select p => select d p
  | .combined p => combined d p

/-- A selection, clause by clause. -/
def select (d : Dialect) : SelectPlan → Except Error Fragment
  | ⟨items, source, joined, condition, groupBy, having, orderBy, pagination, distinct, ctes⟩ => do
    requireCtes d ctes
    let withFragments ← cteList d ctes
    let limit := topLimit d pagination
    let itemFragments ← itemList d items
    let itemsFragment :=
      if items.isEmpty then Fragment.text "*" else Fragment.join ", " itemFragments
    let sourceFragment ← optionalSource d source
    let joinFragment ← joins d joined
    let conditionFragment ← optional d condition
    let groupFragments ← exprs d groupBy
    let havingFragment ← optional d having
    let orderFragments ← terms d orderBy
    let core := Fragment.text (selectHead distinct limit) ++ itemsFragment ++ sourceFragment ++
      joinFragment ++ optionalClause " WHERE" conditionFragment ++
      listClause " GROUP BY" groupFragments ++ optionalClause " HAVING" havingFragment
    let body ← Paging.finish d core (listClause " ORDER BY" orderFragments) (!orderBy.isEmpty)
      pagination limit.isSome
    return withClause d (ctes.any Cte.recursive) withFragments body

/-- Two queries combined. -/
def combined (d : Dialect) : SetPlan → Except Error Fragment
  | ⟨operator, all, left, right, orderBy, pagination, ctes⟩ => do
    requireCtes d ctes
    let withFragments ← cteList d ctes
    d.require .setOperations (operator.feature all)
    let leftFragment ← query d left
    let rightFragment ← query d right
    let keyword := " " ++ d.setOperatorKeyword operator.keyword ++
      (if all then " ALL " else " ")
    let core := setOperand d .left left leftFragment ++ Fragment.text keyword ++
      setOperand d .right right rightFragment
    let orderFragments ← terms d orderBy
    let body ← Paging.finish d core (listClause " ORDER BY" orderFragments) (!orderBy.isEmpty)
      pagination false
    return withClause d (ctes.any Cte.recursive) withFragments body

/-- The common table expressions of a query. -/
def cteList (d : Dialect) : List Cte → Except Error (List Fragment)
  | [] => .ok []
  | c :: rest => do
    let here ← cte d c
    let others ← cteList d rest
    return here :: others

/-- A common table expression. -/
def cte (d : Dialect) : Cte → Except Error Fragment
  | ⟨name, body, columns, materialized, recursive⟩ => do
    if materialized.isSome then d.require .cte CteFeature.materialized
    let columns ← match columns with
      | some cs => .ok (some cs)
      | none => requiredColumns d name recursive body
    let bodyFragment ← query d body
    return Fragment.text (d.quoteIdentifier name ++ columnList d columns ++ " AS" ++
      materialization materialized ++ " ") ++ bodyFragment.enclosed

/-- A source. -/
def source (d : Dialect) : Source → Except Error Fragment
  | .table name shown => .ok (table d name shown)
  | .query q shown => do
    let f ← query d q
    return aliased d f.enclosed shown

/-- The `FROM` clause, or what stands for it where there is no source. -/
def optionalSource (d : Dialect) : Option Source → Except Error Fragment
  | none => .ok (Fragment.text d.selectWithoutSource)
  | some s => do
    let f ← source d s
    return clause " FROM" f

/-- The joins of a selection. -/
def joins (d : Dialect) : List Join → Except Error Fragment
  | [] => .ok Fragment.empty
  | j :: rest => do
    let here ← join d j
    let others ← joins d rest
    return here ++ others

/-- A join. -/
def join (d : Dialect) : Join → Except Error Fragment
  | ⟨kind, target, on, _⟩ => do
    d.require .joinOperations kind.feature
    let targetFragment ← source d target
    let onFragment ← optional d on
    return Fragment.text (" " ++ kind.keyword ++ " JOIN ") ++ targetFragment ++
      optionalClause " ON" onFragment

/-- An expression. -/
def expr (d : Dialect) : Expr → Except Error Fragment
  | .column table name _ => .ok (Fragment.text (qualified d table (d.quoteIdentifier name)))
  | .star table => .ok (Fragment.text (qualified d table "*"))
  | .literal value hint =>
    let bound := match value with
      | .undefined => .null
      | v => v
    .ok (Fragment.bind ⟨bound, hint⟩)
  | .binary op left right => do
    let l ← expr d left
    let r ← expr d right
    return operand op .left left l ++ Fragment.text (" " ++ op.symbol ++ " ") ++
      operand op .right right r
  | .unary op e => do
    let f ← expr d e
    return unary op e f
  | .inList e values negated =>
    if values.isEmpty then
      .ok (Fragment.text (if negated then d.truePredicate else d.falsePredicate))
    else do
      let f ← expr d e
      let fs ← exprs d values
      return membership d negated (predicateOperand e f) fs
  | .inQuery e q negated => do
    let f ← expr d e
    let body ← query d q
    return predicateOperand e f ++ Fragment.text (" " ++ membershipKeyword negated ++ " ") ++
      body.enclosed
  | .call name arguments distinct windowed => do
    d.checkCall name windowed.isSome
    let fs ← exprs d arguments
    let called := Fragment.ofLayout (d.functionLayout name arguments.length distinct) fs
    let overFragment ← optionalWindow d windowed
    return match overFragment with
      | some f => called ++ Fragment.text " OVER " ++ f.enclosed
      | none => called
  | .window w => window d w
  | .subquery q => do
    let f ← query d q
    return f.enclosed
  | .cases branchList otherwise => do
    let fs ← branches d branchList
    let last ← optional d otherwise
    return Fragment.text "CASE" ++ fs ++ optionalClause " ELSE" last ++ Fragment.text " END"
  | .named e _ => expr d e
  | .raw sql parameters => Raw.fragment sql parameters

/-- Expressions. -/
def exprs (d : Dialect) : List Expr → Except Error (List Fragment)
  | [] => .ok []
  | e :: es => do
    let f ← expr d e
    let fs ← exprs d es
    return f :: fs

/-- An expression, if there is one. -/
def optional (d : Dialect) : Option Expr → Except Error (Option Fragment)
  | none => .ok none
  | some e => do
    let f ← expr d e
    return some f

/-- The items of a select list. -/
def itemList (d : Dialect) : List Expr → Except Error (List Fragment)
  | [] => .ok []
  | e :: es => do
    let f ← expr d e
    let fs ← itemList d es
    return selectItem d e f :: fs

/-- The branches of a case distinction. -/
def branches (d : Dialect) : List Branch → Except Error Fragment
  | [] => .ok Fragment.empty
  | ⟨condition, result⟩ :: rest => do
    let c ← expr d condition
    let r ← expr d result
    let others ← branches d rest
    return clause " WHEN" c ++ clause " THEN" r ++ others

/-- The inside of a window. -/
def window (d : Dialect) : Window → Except Error Fragment
  | ⟨partitionBy, orderBy, frame⟩ => do
    let partitions ← exprs d partitionBy
    let orders ← terms d orderBy
    let parts :=
      (if partitions.isEmpty then [] else [clause "PARTITION BY" (Fragment.join ", " partitions)])
        ++ (if orders.isEmpty then [] else [clause "ORDER BY" (Fragment.join ", " orders)])
        ++ (match frame with
          | some f => [Fragment.text (frameText f)]
          | none => [])
    return Fragment.join " " parts

/-- The inside of a window, if there is one. -/
def optionalWindow (d : Dialect) : Option Window → Except Error (Option Fragment)
  | none => .ok none
  | some w => do
    let f ← window d w
    return some f

/-- The terms of an ordering. -/
def terms (d : Dialect) : List OrderTerm → Except Error (List Fragment)
  | [] => .ok []
  | ⟨e, direction⟩ :: rest => do
    let f ← expr d e
    let fs ← terms d rest
    return (f ++ Fragment.text (" " ++ direction.keyword)) :: fs

end

/-- A column. -/
def isColumn : Expr → Bool
  | .column _ _ _ => true
  | _ => false

/-- What an item to return needs beyond the clause itself. -/
def requireReturned (d : Dialect) (e : Expr) : Except Error Unit :=
  match e with
  | .named inner _ => do
    d.require .returningClause ReturningFeature.aliases
    if !isColumn inner then d.require .returningClause ReturningFeature.expressions
  | .column _ _ _ => .ok ()
  | .star _ => .ok ()
  | _ => d.require .returningClause ReturningFeature.expressions

/-- What the items to return need. -/
def requireAllReturned (d : Dialect) : List Expr → Except Error Unit
  | [] => .ok ()
  | e :: es => do
    requireReturned d e
    requireAllReturned d es

/-- The `RETURNING` clause, if there is one. -/
def returning (d : Dialect) (items : List Expr) : Except Error Fragment :=
  if items.isEmpty then .ok Fragment.empty
  else do
    d.require .returningClause ReturningFeature.basic
    requireAllReturned d items
    let fs ← itemList d items
    return clause " RETURNING" (Fragment.join ", " fs)

/-- The rows of an insertion. -/
def rowList (d : Dialect) : List (List Expr) → Except Error (List Fragment)
  | [] => .ok []
  | row :: rest => do
    let fs ← exprs d row
    let others ← rowList d rest
    return (Fragment.join ", " fs).enclosed :: others

/-- An insertion. -/
def insert (d : Dialect) (p : InsertPlan) : Except Error Fragment := do
  if 1 < p.rows.length then d.require .bulkOperations BulkFeature.multiRowInsert
  let rows ← rowList d p.rows
  let returned ← returning d p.returning
  return Fragment.text ("INSERT INTO " ++ d.quoteQualified p.table ++ " (" ++
    ", ".intercalate (p.columns.map d.quoteIdentifier) ++ ") VALUES ") ++
    Fragment.join ", " rows ++ returned

/-- The assignments of a change. -/
def assignments (d : Dialect) : List Assignment → Except Error (List Fragment)
  | [] => .ok []
  | a :: rest => do
    let f ← expr d a.value
    let fs ← assignments d rest
    return (Fragment.text (d.quoteIdentifier a.column ++ " = ") ++ f) :: fs

/-- A change. -/
def update (d : Dialect) (p : UpdatePlan) : Except Error Fragment := do
  let set ← assignments d p.assignments
  let condition ← optional d p.condition
  let returned ← returning d p.returning
  return Fragment.text ("UPDATE " ++ d.quoteQualified p.table ++ " SET ") ++
    Fragment.join ", " set ++ optionalClause " WHERE" condition ++ returned

/-- A deletion. -/
def delete (d : Dialect) (p : DeletePlan) : Except Error Fragment := do
  let condition ← optional d p.condition
  let returned ← returning d p.returning
  return Fragment.text ("DELETE FROM " ++ d.quoteQualified p.table) ++
    optionalClause " WHERE" condition ++ returned

/-- A statement. -/
def statement (d : Dialect) : Statement → Except Error Fragment
  | .query q => query d q
  | .insert p => insert d p
  | .update p => update d p
  | .delete p => delete d p

end Sql

/-- A statement ready to be sent: its text, and the values for its placeholders in order. -/
structure Compiled where
  sql : String
  bindings : List Binding

/-- The values of a compiled statement, before conversion. -/
def Compiled.parameters (c : Compiled) : List Value := c.bindings.map Binding.value

/-- Checks a statement and writes it for a dialect. -/
def compile (d : Dialect) (s : Statement) : Except Error Compiled := do
  Plan.check s
  let f ← Sql.statement d s
  return ⟨f.sql d, f.bindings⟩

/-- A statement behind the words that ask for its plan. -/
def compileExplain (d : Dialect) (s : Statement) (options : ExplainOptions) :
    Except Error Compiled := do
  let words ← d.explainWords options
  let c ← compile d s
  return ⟨words ++ " " ++ c.sql, c.bindings⟩

end PolyQuery
