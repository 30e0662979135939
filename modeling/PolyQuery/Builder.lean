import PolyQuery.Model.Condition
import PolyQuery.Dialect
import PolyQuery.Plan.Arity

/-! Builders: selections under construction. A builder is a value, so a base query can be branched
freely; each operation gives a new one. `Builder.plan` gives the finished plan. -/
namespace PolyQuery

/-- Where statements are sent: a connection, the shared pool, or the client of the running
transaction. -/
inductive Channel where
  | connection (name : String)
  | pool
  | client
  deriving DecidableEq, Repr

/-- A request to load a relation with the records of a query: a path of relation names, a modifier
of the query for its last one, by name, and the slot that it fills. -/
structure LoadRequest where
  path : String
  modifier : Option String
  slot : Option String
  deriving DecidableEq, Repr

/-- What may be said about a common table expression. -/
structure CteOptions where
  columns : Option (List String)
  materialized : Option Bool
  recursive : Option Bool

/-- A common table expression of a builder. -/
structure CteEntry where
  name : String
  query : Query
  options : CteOptions

/-- A selection under construction, with the model whose records it gives and the connection on
which it will run. -/
structure Builder where
  source : Source
  model : Option Model
  connection : String
  items : List Expr
  joins : List Join
  condition : Option Expr
  groups : List Expr
  having : Option Expr
  order : List OrderTerm
  limit : Option Value
  offset : Option Value
  distinct : Bool
  ctes : List CteEntry
  recursive : Bool
  requests : List LoadRequest
  channel : Option Channel
  explained : Option ExplainOptions

/-- A table or a column by its property's name, or any expression. -/
inductive ColumnChoice where
  | property (name : String)
  | expression (e : Expr)

/-- The expression of a choice. -/
def ColumnChoice.toExpr : ColumnChoice → Expr
  | .property name => propertyColumn name
  | .expression e => e

/-- What a join joins: a table, or a query that needs a name. -/
inductive JoinTarget where
  | table (name : String)
  | query (q : Query)

/-- The condition of a join, if there is one, or a blank in its place. -/
structure JoinCondition where
  on : Option Expr
  blank : Bool

/-- A join without a condition. -/
def JoinCondition.none : JoinCondition := ⟨Option.none, false⟩

/-- A join on a condition. -/
def JoinCondition.of (e : Expr) : JoinCondition := ⟨some e, false⟩

/-- Values or a query in which a property is looked up. -/
inductive MemberSource where
  | values (vs : List Operand)
  | query (q : Query)

/-- A union, whose operands may refer to themselves in a recursive query. -/
def Query.isUnion : Query → Bool
  | .combined p => p.operator == .union
  | .select _ => false

namespace Builder

/-- A query for everything in a source. -/
def start (source : Source) (connection : String) : Builder where
  source := source
  model := none
  connection := connection
  items := []
  joins := []
  condition := none
  groups := []
  having := none
  order := []
  limit := none
  offset := none
  distinct := false
  ctes := []
  recursive := false
  requests := []
  channel := none
  explained := none

/-- A query for all records of a model. -/
def ofModel (m : Model) : Builder :=
  { start (.table m.table none) m.connection with model := some m }

/-- The fields of the builder's model. -/
def fields (b : Builder) : Option FieldMap := b.model.map Model.fields

/-- Replaces the columns to return; none means all. -/
def select (b : Builder) (columns : List ColumnChoice) : Builder :=
  { b with items := columns.map ColumnChoice.toExpr }

/-- Asks for distinct rows, or no longer. -/
def setDistinct (b : Builder) (flag : Bool) : Builder := { b with distinct := flag }

/-- Adds conditions that must hold too. -/
def andWhere (b : Builder) (conditions : List Expr) : Builder :=
  match Expr.conjunction? (b.condition.toList ++ conditions) with
  | some e => { b with condition := some e }
  | none => b

/-- Adds a criterion that must hold too. -/
def filter (b : Builder) (c : Criterion) : Builder := b.andWhere (c.conditions b.fields)

/-- Adds a criterion that may hold instead of everything said so far. -/
def orFilter (b : Builder) (c : Criterion) : Builder :=
  match Expr.conjunction? (c.conditions b.fields) with
  | none => b
  | some e =>
    { b with condition := some (match b.condition with
        | some before => .binary .or before e
        | none => e) }

/-- The property is missing. -/
def whereNull (b : Builder) (name : String) : Builder :=
  b.andWhere [compareProperty b.fields name .equal (.value .null)]

/-- The property is there. -/
def whereNotNull (b : Builder) (name : String) : Builder :=
  b.andWhere [compareProperty b.fields name .different (.value .null)]

/-- The property is among values or in the rows of a query, or is not. -/
def whereAmong (b : Builder) (name : String) (source : MemberSource) (negated : Bool) : Builder :=
  b.andWhere [match source with
    | .values vs => compareProperty b.fields name (.among negated) (.items vs)
    | .query q => .inQuery (propertyColumn name) q negated]

/-- Adds a term to the ordering. -/
def orderBy (b : Builder) (term : OrderTerm) : Builder := { b with order := b.order ++ [term] }

/-- Adds columns to the grouping. -/
def groupBy (b : Builder) (columns : List ColumnChoice) : Builder :=
  { b with groups := b.groups ++ columns.map ColumnChoice.toExpr }

/-- Adds a condition on groups. -/
def andHaving (b : Builder) (e : Expr) : Builder :=
  { b with having := some (match b.having with
      | some before => .binary .and before e
      | none => e) }

/-- Sets the limit, or removes it. -/
def setLimit (b : Builder) (v : Option Value) : Builder := { b with limit := v }

/-- Sets the offset, or removes it. -/
def setOffset (b : Builder) (v : Option Value) : Builder := { b with offset := v }

/-- Joins a table or a query; a query must be named. -/
def join (b : Builder) (kind : JoinKind) (target : JoinTarget) (c : JoinCondition)
    (name : Option String) : Except Error Builder :=
  match target with
  | .table table => .ok { b with joins := b.joins ++ [⟨kind, .table table name, c.on, c.blank⟩] }
  | .query q =>
    match name with
    | some n =>
      if n = "" then fault .joinedQueryUnnamed
      else .ok { b with joins := b.joins ++ [⟨kind, .query q n, c.on, c.blank⟩] }
    | none => fault .joinedQueryUnnamed

/-- Adds a common table expression. -/
def withCte (b : Builder) (name : String) (q : Query) (options : CteOptions) : Builder :=
  { b with ctes := b.ctes ++ [⟨name, q, options⟩] }

/-- Makes common table expressions recursive that are unions and do not say otherwise. -/
def setRecursive (b : Builder) (flag : Bool) : Builder := { b with recursive := flag }

/-- Adds relations to load with the records. -/
def load (b : Builder) (requests : List LoadRequest) : Builder :=
  { b with requests := b.requests ++ requests }

/-- Runs on the given channel. -/
def via (b : Builder) (c : Channel) : Builder := { b with channel := some c }

/-- Asks for the description of the plan where rows would be asked for. -/
def explain (b : Builder) (options : ExplainOptions) : Builder :=
  { b with explained := some options }

/-- A common table expression of the plan. -/
def cte (b : Builder) (c : CteEntry) : Cte :=
  ⟨c.name, c.query, c.options.columns, c.options.materialized,
    c.options.recursive.getD (b.recursive && c.query.isUnion)⟩

/-- The pagination of the plan, none when neither bound is set. -/
def pagination (b : Builder) : Option Pagination :=
  if b.limit.isNone && b.offset.isNone then none else some ⟨b.limit, b.offset⟩

/-- The finished plan. -/
def plan (b : Builder) : SelectPlan where
  items := b.items
  source := some b.source
  joins := b.joins
  condition := b.condition
  groupBy := b.groups
  having := b.having
  orderBy := b.order
  pagination := b.pagination
  distinct := b.distinct
  ctes := b.ctes.map b.cte

/-- The finished query. -/
def query (b : Builder) : Query := .select b.plan

/-- The plan that asks whether there are rows: one row of a constant. The ordering matters only
behind an offset. -/
def existsPlan (b : Builder) : SelectPlan :=
  let p := b.plan
  let skipped := p.pagination.bind Pagination.offset
  { p with
    items := [.raw "1" []]
    orderBy := if (skipped.map Value.isTruthy).getD false then p.orderBy else []
    pagination := some ⟨some (.number (.int 1)), skipped⟩ }

/-- The item that counts rows. -/
def countItem : Expr := .named (Expr.callOf "COUNT" [.expr (.star none)]) "count"

/-- The plan that counts rows. Groups, distinct rows and pages are counted around the query. -/
def countPlan (b : Builder) : SelectPlan :=
  let p := b.plan
  if p.groupBy.isEmpty && !p.distinct && p.pagination.isNone then
    { p with items := [countItem], orderBy := [] }
  else
    let inner := { p with ctes := [], orderBy := if p.pagination.isSome then p.orderBy else [] }
    { SelectPlan.all (some (.query (.select inner) "count_q")) with
      items := [countItem], ctes := p.ctes }

end Builder

end PolyQuery
