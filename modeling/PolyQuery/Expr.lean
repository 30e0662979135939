import PolyQuery.Adapter

/-! Expressions and the query plans that they hold and are held by. Neither knows about backends; a
plan is plain data, so any part of it may be shared between queries. -/
namespace PolyQuery

/-- An operator between two operands. -/
inductive BinaryOp where
  | equal
  | notEqual
  | less
  | lessEqual
  | greater
  | greaterEqual
  | like
  | notLike
  | and
  | or
  | add
  | sub
  | mul
  | div
  | mod
  deriving DecidableEq, Repr

/-- The symbol of an operator. -/
def BinaryOp.symbol : BinaryOp → String
  | .equal => "="
  | .notEqual => "<>"
  | .less => "<"
  | .lessEqual => "<="
  | .greater => ">"
  | .greaterEqual => ">="
  | .like => "LIKE"
  | .notLike => "NOT LIKE"
  | .and => "AND"
  | .or => "OR"
  | .add => "+"
  | .sub => "-"
  | .mul => "*"
  | .div => "/"
  | .mod => "%"

/-- All operators between two operands. -/
def BinaryOp.all : List BinaryOp :=
  [.equal, .notEqual, .less, .lessEqual, .greater, .greaterEqual, .like, .notLike, .and, .or, .add,
    .sub, .mul, .div, .mod]

/-- An operator on one operand. -/
inductive UnaryOp where
  | not
  | neg
  | isNull
  | isNotNull
  | exists_
  | notExists
  deriving DecidableEq, Repr

/-- The symbol of an operator. -/
def UnaryOp.symbol : UnaryOp → String
  | .not => "NOT"
  | .neg => "-"
  | .isNull => "IS NULL"
  | .isNotNull => "IS NOT NULL"
  | .exists_ => "EXISTS"
  | .notExists => "NOT EXISTS"

/-- All operators on one operand. -/
def UnaryOp.all : List UnaryOp := [.not, .neg, .isNull, .isNotNull, .exists_, .notExists]

/-- The direction of an ordering. -/
inductive SortDirection where
  | ascending
  | descending
  deriving DecidableEq, Repr

/-- The keyword of a direction. -/
def SortDirection.keyword : SortDirection → String
  | .ascending => "ASC"
  | .descending => "DESC"

/-- Where a window frame begins or ends. -/
inductive FrameBound where
  | unboundedPreceding
  | preceding (rows : Number)
  | currentRow
  | following (rows : Number)
  | unboundedFollowing
  deriving DecidableEq, Repr

/-- The text of a bound. -/
def FrameBound.text : FrameBound → String
  | .unboundedPreceding => "UNBOUNDED PRECEDING"
  | .preceding rows => rows.text ++ " PRECEDING"
  | .currentRow => "CURRENT ROW"
  | .following rows => rows.text ++ " FOLLOWING"
  | .unboundedFollowing => "UNBOUNDED FOLLOWING"

/-- What a frame counts. -/
inductive FrameUnit where
  | rows
  | range
  | groups
  deriving DecidableEq, Repr

/-- The keyword of a unit. -/
def FrameUnit.keyword : FrameUnit → String
  | .rows => "ROWS"
  | .range => "RANGE"
  | .groups => "GROUPS"

/-- The frame of a window. -/
structure Frame where
  unit : FrameUnit
  start : FrameBound
  stop : Option FrameBound
  deriving DecidableEq, Repr

/-- How a table joins the ones before it. -/
inductive JoinKind where
  | inner
  | left
  | right
  | full
  | cross
  deriving DecidableEq, Repr

/-- The keyword of a join. -/
def JoinKind.keyword : JoinKind → String
  | .inner => "INNER"
  | .left => "LEFT"
  | .right => "RIGHT"
  | .full => "FULL"
  | .cross => "CROSS"

/-- An operator between two queries. -/
inductive SetOperator where
  | union
  | intersect
  | except
  deriving DecidableEq, Repr

/-- The keyword of an operator. -/
def SetOperator.keyword : SetOperator → String
  | .union => "UNION"
  | .intersect => "INTERSECT"
  | .except => "EXCEPT"

/-- A limit and an offset, each perhaps absent. Only natural numbers that are exact as numbers are
valid; until a plan is checked they may be any value. -/
structure Pagination where
  limit : Option Value
  offset : Option Value

/-- How a bound value is stored: its host type, and overrides of the representation and the
adapter. -/
structure Hint where
  hostType : String
  representation : Option Representation
  adapter : Option Adapter

mutual

/-- An expression. -/
inductive Expr where
  | column (table : Option String) (name : String) (shown : Option String)
  | star (table : Option String)
  | literal (value : Value) (hint : Hint)
  | binary (op : BinaryOp) (left right : Expr)
  | unary (op : UnaryOp) (operand : Expr)
  | inList (operand : Expr) (values : List Expr) (negated : Bool)
  | inQuery (operand : Expr) (query : Query) (negated : Bool)
  | call (name : String) (arguments : List Expr) (distinct : Bool) (windowed : Option Window)
  | window (w : Window)
  | subquery (query : Query)
  | cases (branches : List Branch) (otherwise : Option Expr)
  | named (expression : Expr) (name : String)
  | raw (sql : String) (parameters : List Value)

/-- A branch of a case distinction. -/
structure Branch where
  condition : Expr
  result : Expr

/-- A window over the rows of a query. -/
structure Window where
  partitionBy : List Expr
  orderBy : List OrderTerm
  frame : Option Frame

/-- An expression to order by. -/
structure OrderTerm where
  expression : Expr
  direction : SortDirection

/-- A query: a selection, or two queries combined. -/
inductive Query where
  | select (plan : SelectPlan)
  | combined (plan : SetPlan)

/-- A selection. No items mean all columns. -/
structure SelectPlan where
  items : List Expr
  source : Option Source
  joins : List Join
  condition : Option Expr
  groupBy : List Expr
  having : Option Expr
  orderBy : List OrderTerm
  pagination : Option Pagination
  distinct : Bool
  ctes : List Cte

/-- Two queries combined by a set operator. -/
structure SetPlan where
  operator : SetOperator
  all : Bool
  left : Query
  right : Query
  orderBy : List OrderTerm
  pagination : Option Pagination
  ctes : List Cte

/-- What a query reads from. -/
inductive Source where
  | table (name : String) (shown : Option String)
  | query (query : Query) (shown : String)

/-- A joined source with its condition. A condition that is absent may have been left out, or left
blank on purpose; only the plain view of the join tells the two apart. -/
structure Join where
  kind : JoinKind
  target : Source
  on : Option Expr
  blank : Bool

/-- A common table expression. Materialization is asked for, refused or left open. -/
structure Cte where
  name : String
  query : Query
  columns : Option (List String)
  materialized : Option Bool
  recursive : Bool

end

instance : Inhabited Expr := ⟨.star none⟩

/-- The name under which an expression appears in a row, when it has one. -/
def Expr.outputName : Expr → Option String
  | .named _ name => some name
  | .column _ name shown => some (shown.getD name)
  | _ => none

/-- The name by which the rest of a query refers to a source. -/
def Source.name : Source → String
  | .table name shown => shown.getD name
  | .query _ shown => shown

/-- A selection of everything from a source. -/
def SelectPlan.all (source : Option Source) : SelectPlan where
  items := []
  source := source
  joins := []
  condition := none
  groupBy := []
  having := none
  orderBy := []
  pagination := none
  distinct := false
  ctes := []

namespace Query

/-- The common table expressions of a query. -/
def ctes : Query → List Cte
  | .select p => p.ctes
  | .combined p => p.ctes

/-- The ordering of a query. -/
def orderBy : Query → List OrderTerm
  | .select p => p.orderBy
  | .combined p => p.orderBy

/-- The pagination of a query. -/
def pagination : Query → Option Pagination
  | .select p => p.pagination
  | .combined p => p.pagination

end Query

mutual

/-- The selection that the leftmost operand of a query is. -/
def Query.leftmost : Query → SelectPlan
  | .select p => p
  | .combined p => p.leftmost

/-- The selection at the left end of a combination. -/
def SetPlan.leftmost : SetPlan → SelectPlan
  | ⟨_, _, left, _, _, _, _⟩ => left.leftmost

end

/-- Rows to insert, each with one expression a column. -/
structure InsertPlan where
  table : String
  columns : List String
  rows : List (List Expr)
  returning : List Expr

/-- A column that gets a new value. -/
structure Assignment where
  column : String
  value : Expr

/-- Rows to change. -/
structure UpdatePlan where
  table : String
  assignments : List Assignment
  condition : Option Expr
  returning : List Expr

/-- Rows to delete. -/
structure DeletePlan where
  table : String
  condition : Option Expr
  returning : List Expr

/-- A statement. -/
inductive Statement where
  | query (query : Query)
  | insert (plan : InsertPlan)
  | update (plan : UpdatePlan)
  | delete (plan : DeletePlan)

end PolyQuery
