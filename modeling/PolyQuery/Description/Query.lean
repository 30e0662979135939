import PolyQuery.Description

/-! Reading the parts of queries from descriptions: windows, order terms, sources, plans, and what a
builder is told. -/
namespace PolyQuery.Description

/-- An adapter. -/
def adapter? : Description → Option Adapter
  | .adapter a => some a
  | _ => none

/-- A representation by its word. -/
def representation? (d : Description) : Option Representation :=
  d.text?.bind Representation.ofName?

/-- A sort direction, ascending unless a word for the other one is given. -/
def direction (d : Description) : SortDirection :=
  if d.text == "DESC" || d.text == "desc" then .descending else .ascending

/-- An order term, as such or as an object. -/
def toTerm : Description → OrderTerm
  | .term t => t
  | d => ⟨(d.get "expression").toExpr, (d.get "direction").direction⟩

/-- A term for an ordering by a property, by an expression, or as such. -/
def orderTerm (d : Description) (direction : SortDirection) : OrderTerm :=
  match d.text?, d with
  | some name, _ => ⟨propertyColumn name, direction⟩
  | none, .expr e => ⟨e, direction⟩
  | none, d => d.toTerm

/-- A frame bound: a keyword, or a number of rows to one side. -/
def frameBound? (d : Description) : Option FrameBound :=
  match d.text?, (d.get "preceding").number?, (d.get "following").number? with
  | some word, _, _ =>
    [FrameBound.unboundedPreceding, .currentRow, .unboundedFollowing].find? (·.text == word)
  | none, some n, _ => some (.preceding n)
  | none, none, some n => some (.following n)
  | none, none, none => none

/-- A frame. -/
def frame? (d : Description) : Option Frame := do
  let unit ← [FrameUnit.rows, .range, .groups].find? (·.keyword == (d.get "unit").text)
  let start ← (d.get "start").frameBound?
  return ⟨unit, start, (d.get "end").present?.bind frameBound?⟩

/-- A window, as such or as an object. -/
def window : Description → Window
  | .expr (.window w) => w
  | d => ⟨(d.get "partitionBy").exprs, (d.get "orderBy").list.map toTerm,
      (d.get "frame").present?.bind frame?⟩

/-- The literal of a value with what is said about its type. -/
def literal (v hint : Description) : Expr :=
  Expr.literalOf v.toValue (hint.get "type").text?
    (hint.get "dbType").representation? (hint.get "adapter").adapter?

/-- The branches of a case distinction, each a condition and a result. -/
def branches (d : Description) : List (Expr × Operand) :=
  d.list.map fun b => ((b.item 0).toExpr, (b.item 1).toOperand)

/-- A builder. -/
def builder? : Description → Option AnyBuilder
  | .builder b => some b
  | _ => none

/-- A statement that is ready. -/
def statement? : Description → Option Statement
  | .builder b => some (.query b.query)
  | .plan s => some s
  | _ => none

/-- A query that is ready. -/
def query? (d : Description) : Option Query :=
  match d.statement? with
  | some (.query q) => some q
  | _ => none

/-- A source: the name of a table, or an object that describes a table or a query. -/
def source? (d : Description) : Option Source :=
  match d.text? with
  | some name => some (.table name none)
  | none =>
    if (d.get "kind").text == "subquery" then
      (d.get "plan").query?.map fun q => .query q (d.get "alias").text
    else some (.table (d.get "name").text (d.get "alias").text?)

/-- A pagination. -/
def pagination (d : Description) : Pagination :=
  ⟨(d.get "limit").given?.map toValue, (d.get "offset").given?.map toValue⟩

/-- Whether a description counts as true. -/
def isTruthy (d : Description) : Bool := d.toValue.isTruthy

/-- Whether a switch is on, as it is when nothing is said. -/
def isOn (d : Description) : Bool := (d.given?.map isTruthy).getD true

/-- What is said about a common table expression. -/
def cteOptions (d : Description) : CteOptions :=
  ⟨(d.get "columns").present?.map texts, (d.get "materialized").given?.map isTruthy,
    (d.get "recursive").present?.map isTruthy⟩

/-- A common table expression of a plan. -/
def cte? (d : Description) : Option Cte :=
  let options := d.cteOptions
  (d.get "plan").query?.map fun q =>
    ⟨(d.get "name").text, q, options.columns, options.materialized, options.recursive.getD false⟩

/-- The condition of a join, which may be left blank. -/
def joinCondition (d : Description) : JoinCondition :=
  ⟨d.expr?, d.given?.isSome && d.present?.isNone⟩

/-- A join of a plan. -/
def join? (d : Description) : Option Join := do
  let kind ← [JoinKind.inner, .left, .right, .full, .cross].find?
    (·.keyword == (d.get "kind").text)
  let target ← (d.get "target").source?
  let c := (d.get "on").joinCondition
  return ⟨kind, target, c.on, c.blank⟩

/-- A selection. -/
def select? (d : Description) : Option SelectPlan := do
  let joins ← (d.get "joins").list.mapM join?
  let ctes ← (d.get "ctes").list.mapM cte?
  return {
    items := (d.get "select").exprs
    source := (d.get "from").present?.bind source?
    joins := joins
    condition := (d.get "where").expr?
    groupBy := (d.get "groupBy").exprs
    having := (d.get "having").expr?
    orderBy := (d.get "orderBy").list.map toTerm
    pagination := (d.get "pagination").present?.map pagination
    distinct := (d.get "distinct").flag
    ctes := ctes }

/-- A combination of two queries. -/
def combined? (d : Description) : Option SetPlan := do
  let operator ← [SetOperator.union, .intersect, .except].find?
    (·.keyword == (d.get "operator").text)
  let left ← (d.get "left").query?
  let right ← (d.get "right").query?
  let ctes ← (d.get "ctes").list.mapM cte?
  return {
    operator := operator
    all := (d.get "all").flag
    left := left
    right := right
    orderBy := (d.get "orderBy").list.map toTerm
    pagination := (d.get "pagination").present?.map pagination
    ctes := ctes }

/-- A plan, whose parts that are plans themselves are ready. -/
def plan? (d : Description) : Option Statement :=
  let table := (d.get "table").text
  let condition := (d.get "where").expr?
  let returning := (d.get "returning").exprs
  match (d.get "kind").text with
  | "select" => d.select?.map fun p => .query (.select p)
  | "setOperation" => d.combined?.map fun p => .query (.combined p)
  | "insert" =>
    some (.insert ⟨table, (d.get "columns").texts, (d.get "rows").list.map exprs, returning⟩)
  | "update" =>
    some (.update ⟨table, (d.get "assignments").list.map fun a =>
      ⟨(a.get "column").text, (a.get "value").toExpr⟩, condition, returning⟩)
  | "delete" => some (.delete ⟨table, condition, returning⟩)
  | _ => none

/-- The description of a plan made ready; any other stays as it is. -/
def ready (d : Description) : Description :=
  match d.plan? with
  | some s => .plan s
  | none => d

/-- A column by a property's name or as an expression. -/
def column (d : Description) : ColumnChoice :=
  match d.text? with
  | some name => .property name
  | none => .expression d.toExpr

/-- A criterion: an expression or a filter, a property with a value, or the two with an operator
between them. -/
def criterion? (ds : List Description) : Option Criterion :=
  match ds with
  | [.expr e] => some (.expression e)
  | [d] => d.present?.map fun d => .filter d.toOperand.entries
  | [name, v] => name.text?.map fun s => .comparison s .equal v.toOperand
  | [name, operator, v] => do
    let s ← name.text?
    let c ← Comparison.ofSymbol? operator.text
    return .comparison s c v.toOperand
  | _ => none

/-- What a join joins: a table by name, or a query. -/
def joinTarget? (d : Description) : Option JoinTarget :=
  match d.text? with
  | some name => some (.table name)
  | none => d.query?.map .query

/-- What a property is looked up in: a query, or a list of values. -/
def memberSource? (d : Description) : Option MemberSource :=
  match d.query?, d.toOperand.items? with
  | some q, _ => some (.query q)
  | none, some xs => some (.values xs)
  | none, none => none

/-- A bound of a pagination. -/
def bound? (d : Description) : Option Value := d.given?.map toValue

/-- How a plan is to be described by the server. -/
def explain (d : Description) : ExplainOptions :=
  ⟨(d.get "analyze").isTruthy, (d.get "format").text == "json"⟩

end PolyQuery.Description
