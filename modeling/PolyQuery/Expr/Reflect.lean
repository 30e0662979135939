import PolyQuery.Expr

/-! Expressions and plans as plain objects. An expression that stands where a value is expected is
such an object, with a field `kind` that tells what it is; a part that is absent has no field. -/
namespace PolyQuery

/-- An optional field. -/
def optionalField (name : String) (v : Option Value) : List (String × Value) :=
  match v with
  | some v => [(name, v)]
  | none => []

/-- An optional field of text. -/
def optionalText (name : String) (s : Option String) : List (String × Value) :=
  optionalField name (s.map Value.string)

/-- A node of some kind. -/
def kindNode (kind : String) (fields : List (String × Value)) : Value :=
  .node (("kind", .string kind) :: fields)

/-- An adapter as an object. -/
def Adapter.reflect (a : Adapter) : Value :=
  .object ([("name", .string a.name), ("hostType", .string a.hostType),
    ("dbTypes", .array (a.representations.map fun r => .string r.name)),
    ("toDatabase", .callable), ("fromDatabase", .callable)] ++
    (if a.detects.isSome then [("detect", .callable)] else []))

/-- A frame bound as a value. -/
def FrameBound.reflect : FrameBound → Value
  | .preceding n => .object [("preceding", .number n)]
  | .following n => .object [("following", .number n)]
  | b => .string b.text

/-- A frame as an object. -/
def Frame.reflect (f : Frame) : Value :=
  .object ([("unit", .string f.unit.keyword), ("start", f.start.reflect)] ++
    optionalField "end" (f.stop.map FrameBound.reflect))

/-- A pagination as an object. -/
def Pagination.reflect (p : Pagination) : Value :=
  .node (optionalField "limit" p.limit ++ optionalField "offset" p.offset)

/-- The kind word of an expression's node. -/
def Expr.kindName : Expr → String
  | .column _ _ _ => "column"
  | .star _ => "star"
  | .literal _ _ => "literal"
  | .binary _ _ _ => "binary"
  | .unary _ _ => "unary"
  | .inList _ _ _ => "in"
  | .inQuery _ _ _ => "inSubquery"
  | .call _ _ _ _ => "function"
  | .window _ => "window"
  | .subquery _ => "subquery"
  | .cases _ _ => "case"
  | .named _ _ => "alias"
  | .raw _ _ => "raw"

mutual

/-- An expression as a node. -/
def Expr.reflect : Expr → Value
  | .column table name shown =>
    kindNode "column" (optionalText "table" table ++ [("name", .string name)] ++
      optionalText "alias" shown)
  | .star table => kindNode "star" (optionalText "table" table)
  | .literal value hint =>
    kindNode "literal" ([("value", value), ("inferredType", .string hint.hostType)] ++
      optionalText "dbType" (hint.representation.map Representation.name) ++
      optionalField "adapter" (hint.adapter.map Adapter.reflect))
  | .binary op left right =>
    kindNode "binary" [("op", .string op.symbol), ("left", left.reflect),
      ("right", right.reflect)]
  | .unary op operand =>
    kindNode "unary" [("op", .string op.symbol), ("operand", operand.reflect)]
  | .inList operand values negated =>
    kindNode "in" [("operand", operand.reflect), ("values", .array (reflectExprs values)),
      ("negated", .bool negated)]
  | .inQuery operand query negated =>
    kindNode "inSubquery" [("operand", operand.reflect), ("plan", query.reflect),
      ("negated", .bool negated)]
  | .call name arguments distinct windowed =>
    kindNode "function" ([("name", .string name), ("args", .array (reflectExprs arguments)),
      ("distinct", .bool distinct)] ++ optionalField "over" (reflectWindow windowed))
  | .window w => w.reflect
  | .subquery query => kindNode "subquery" [("plan", query.reflect)]
  | .cases branches otherwise =>
    kindNode "case" ([("branches", .array (reflectBranches branches))] ++
      optionalField "else" (reflectExpr otherwise))
  | .named expression name =>
    kindNode "alias" [("expression", expression.reflect), ("alias", .string name)]
  | .raw sql parameters =>
    kindNode "raw" [("sql", .string sql), ("params", .array parameters)]

/-- An optional expression as a node. -/
def reflectExpr : Option Expr → Option Value
  | none => none
  | some e => some e.reflect

/-- Expressions as nodes. -/
def reflectExprs : List Expr → List Value
  | [] => []
  | e :: es => e.reflect :: reflectExprs es

/-- Branches as objects. -/
def reflectBranches : List Branch → List Value
  | [] => []
  | ⟨condition, result⟩ :: rest =>
    .node [("when", condition.reflect), ("then", result.reflect)] :: reflectBranches rest

/-- A window as a node. -/
def Window.reflect : Window → Value
  | ⟨partitionBy, orderBy, frame⟩ =>
    kindNode "window" ([("partitionBy", .array (reflectExprs partitionBy)),
      ("orderBy", .array (reflectTerms orderBy))] ++
      optionalField "frame" (frame.map Frame.reflect))

/-- An optional window as a node. -/
def reflectWindow : Option Window → Option Value
  | none => none
  | some w => some w.reflect

/-- An order term as an object. -/
def OrderTerm.reflect : OrderTerm → Value
  | ⟨expression, direction⟩ =>
    .node [("expression", expression.reflect), ("direction", .string direction.keyword)]

/-- Order terms as objects. -/
def reflectTerms : List OrderTerm → List Value
  | [] => []
  | t :: ts => t.reflect :: reflectTerms ts

/-- A query as an object. -/
def Query.reflect : Query → Value
  | .select plan => plan.reflect
  | .combined plan => plan.reflect

/-- A selection as an object. -/
def SelectPlan.reflect : SelectPlan → Value
  | ⟨items, source, joins, condition, groupBy, having, orderBy, pagination, distinct, ctes⟩ =>
    kindNode "select" ([("select", .array (reflectExprs items))] ++
      optionalField "from" (reflectSource source) ++
      [("joins", .array (reflectJoins joins)), ("groupBy", .array (reflectExprs groupBy)),
        ("orderBy", .array (reflectTerms orderBy)), ("distinct", .bool distinct),
        ("ctes", .array (reflectCtes ctes))] ++
      optionalField "where" (reflectExpr condition) ++
      optionalField "having" (reflectExpr having) ++
      optionalField "pagination" (pagination.map Pagination.reflect))

/-- A combination as an object. -/
def SetPlan.reflect : SetPlan → Value
  | ⟨operator, all, left, right, orderBy, pagination, ctes⟩ =>
    kindNode "setOperation" ([("operator", .string operator.keyword), ("all", .bool all),
      ("left", left.reflect), ("right", right.reflect),
      ("orderBy", .array (reflectTerms orderBy)), ("ctes", .array (reflectCtes ctes))] ++
      optionalField "pagination" (pagination.map Pagination.reflect))

/-- A source as an object. -/
def Source.reflect : Source → Value
  | .table name shown => kindNode "table" ([("name", .string name)] ++ optionalText "alias" shown)
  | .query query name => kindNode "subquery" [("plan", query.reflect), ("alias", .string name)]

/-- An optional source as an object. -/
def reflectSource : Option Source → Option Value
  | none => none
  | some s => some s.reflect

/-- Joins as objects. -/
def reflectJoins : List Join → List Value
  | [] => []
  | ⟨kind, target, on, blank⟩ :: rest =>
    .node ([("kind", .string kind.keyword), ("target", target.reflect)] ++
      optionalField "on" ((reflectExpr on).or (if blank then some .null else none))) ::
      reflectJoins rest

/-- Common table expressions as objects. -/
def reflectCtes : List Cte → List Value
  | [] => []
  | ⟨name, query, columns, materialized, recursive⟩ :: rest =>
    .node ([("name", .string name), ("plan", query.reflect)] ++
      optionalField "columns" (columns.map fun cs => .array (cs.map Value.string)) ++
      optionalField "materialized" (materialized.map Value.bool) ++
      [("recursive", .bool recursive)]) :: reflectCtes rest

end

/-- A statement as an object. -/
def Statement.reflect : Statement → Value
  | .query q => q.reflect
  | .insert p =>
    kindNode "insert" [("table", .string p.table),
      ("columns", .array (p.columns.map Value.string)),
      ("rows", .array (p.rows.map fun r => .array (reflectExprs r))),
      ("returning", .array (reflectExprs p.returning))]
  | .update p =>
    kindNode "update" ([("table", .string p.table),
      ("assignments", .array (p.assignments.map fun a =>
        .node [("column", .string a.column), ("value", a.value.reflect)]))] ++
      optionalField "where" (reflectExpr p.condition) ++
      [("returning", .array (reflectExprs p.returning))])
  | .delete p =>
    kindNode "delete" ([("table", .string p.table)] ++
      optionalField "where" (reflectExpr p.condition) ++
      [("returning", .array (reflectExprs p.returning))])

end PolyQuery
