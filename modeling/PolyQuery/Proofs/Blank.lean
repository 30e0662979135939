import PolyQuery.Proofs.Parameters

/-! Statements without their values. `Blank` empties every literal and every parameter of raw text
and leaves all else, so two statements with the same blank differ at most in those values. What is
decided before any text is written is decided by the blank alone. -/
namespace PolyQuery

namespace Blank

mutual

/-- A query without its values. -/
def query : Query → Query
  | .select p => .select (select p)
  | .combined p => .combined (combined p)

/-- A selection without its values. Its pages keep their bounds, which are text and not values. -/
def select : SelectPlan → SelectPlan
  | ⟨items, source, joined, condition, groupBy, having, orderBy, pagination, distinct, ctes⟩ =>
    ⟨exprs items, optionalSource source, joins joined, optional condition, exprs groupBy,
      optional having, terms orderBy, pagination, distinct, cteList ctes⟩

/-- Two combined queries without their values. -/
def combined : SetPlan → SetPlan
  | ⟨operator, all, left, right, orderBy, pagination, ctes⟩ =>
    ⟨operator, all, query left, query right, terms orderBy, pagination, cteList ctes⟩

/-- Common table expressions without their values. -/
def cteList : List Cte → List Cte
  | [] => []
  | c :: rest => cte c :: cteList rest

/-- A common table expression without its values. -/
def cte : Cte → Cte
  | ⟨name, body, columns, materialized, recursive⟩ =>
    ⟨name, query body, columns, materialized, recursive⟩

/-- A source without its values. -/
def source : Source → Source
  | .table name shown => .table name shown
  | .query q shown => .query (query q) shown

/-- A source without its values, if there is one. -/
def optionalSource : Option Source → Option Source
  | none => none
  | some s => some (source s)

/-- Joins without their values. -/
def joins : List Join → List Join
  | [] => []
  | j :: rest => join j :: joins rest

/-- A join without its values. -/
def join : Join → Join
  | ⟨kind, target, on, blank⟩ => ⟨kind, source target, optional on, blank⟩

/-- An expression without its values. A literal keeps what is known about its storage. -/
def expr : Expr → Expr
  | .column table name shown => .column table name shown
  | .star table => .star table
  | .literal _ hint => .literal .null hint
  | .binary op left right => .binary op (expr left) (expr right)
  | .unary op e => .unary op (expr e)
  | .inList e values negated => .inList (expr e) (exprs values) negated
  | .inQuery e q negated => .inQuery (expr e) (query q) negated
  | .call name arguments distinct windowed =>
    .call name (exprs arguments) distinct (optionalWindow windowed)
  | .window w => .window (window w)
  | .subquery q => .subquery (query q)
  | .cases branchList otherwise => .cases (branches branchList) (optional otherwise)
  | .named e name => .named (expr e) name
  | .raw sql parameters => .raw sql (parameters.map fun _ => .null)

/-- Expressions without their values. -/
def exprs : List Expr → List Expr
  | [] => []
  | e :: es => expr e :: exprs es

/-- An expression without its values, if there is one. -/
def optional : Option Expr → Option Expr
  | none => none
  | some e => some (expr e)

/-- Branches without their values. -/
def branches : List Branch → List Branch
  | [] => []
  | ⟨condition, result⟩ :: rest => ⟨expr condition, expr result⟩ :: branches rest

/-- A window without its values. -/
def window : Window → Window
  | ⟨partitionBy, orderBy, frame⟩ => ⟨exprs partitionBy, terms orderBy, frame⟩

/-- A window without its values, if there is one. -/
def optionalWindow : Option Window → Option Window
  | none => none
  | some w => some (window w)

/-- An ordering without its values. -/
def terms : List OrderTerm → List OrderTerm
  | [] => []
  | ⟨e, direction⟩ :: rest => ⟨expr e, direction⟩ :: terms rest

end

/-- An assignment without its value. -/
def assignment (a : Assignment) : Assignment := ⟨a.column, expr a.value⟩

/-- A statement without its values. -/
def statement : Statement → Statement
  | .query q => .query (query q)
  | .insert p => .insert ⟨p.table, p.columns, p.rows.map exprs, exprs p.returning⟩
  | .update p =>
    .update ⟨p.table, p.assignments.map assignment, optional p.condition, exprs p.returning⟩
  | .delete p => .delete ⟨p.table, optional p.condition, exprs p.returning⟩

theorem exprs_eq_map (es : List Expr) : exprs es = es.map expr := by
  induction es with
  | nil => rfl
  | cons e es ih => rw [exprs, ih, List.map_cons]

@[simp] theorem exprs_isEmpty (es : List Expr) : (exprs es).isEmpty = es.isEmpty := by
  cases es <;> rfl

@[simp] theorem exprs_length (es : List Expr) : (exprs es).length = es.length := by
  rw [exprs_eq_map, List.length_map]

@[simp] theorem optional_isSome (e : Option Expr) : (optional e).isSome = e.isSome := by
  cases e <;> rfl

@[simp] theorem optional_isNone (e : Option Expr) : (optional e).isNone = e.isNone := by
  cases e <;> rfl

@[simp] theorem optionalSource_isNone (s : Option Source) :
    (optionalSource s).isNone = s.isNone := by cases s <;> rfl

@[simp] theorem optionalWindow_isSome (w : Option Window) :
    (optionalWindow w).isSome = w.isSome := by cases w <;> rfl

@[simp] theorem terms_isEmpty (ts : List OrderTerm) : (terms ts).isEmpty = ts.isEmpty := by
  cases ts with
  | nil => rfl
  | cons t ts => cases t; rfl

@[simp] theorem joins_isEmpty (js : List Join) : (joins js).isEmpty = js.isEmpty := by
  cases js <;> rfl

@[simp] theorem cteList_isEmpty (cs : List Cte) : (cteList cs).isEmpty = cs.isEmpty := by
  cases cs <;> rfl

theorem any_recursive (cs : List Cte) :
    (cteList cs).any Cte.recursive = cs.any Cte.recursive := by
  induction cs with
  | nil => rfl
  | cons c cs ih =>
    cases c with
    | mk name body columns materialized recursive =>
    rw [cteList, List.any_cons, List.any_cons, ih]
    rfl

@[simp] theorem source_name (s : Source) : (source s).name = s.name := by cases s <;> rfl

@[simp] theorem source_tableName? (s : Source) : (source s).tableName? = s.tableName? := by
  cases s <;> rfl

@[simp] theorem outputName_expr (e : Expr) : (expr e).outputName = e.outputName := by
  cases e <;> rfl

@[simp] theorem isStar_expr (e : Expr) : (expr e).isStar = e.isStar := by cases e <;> rfl

@[simp] theorem precedence_expr (e : Expr) : (expr e).precedence = e.precedence := by
  cases e with
  | unary op e => cases op <;> rfl
  | _ => rfl

@[simp] theorem needsParens_expr (op : BinaryOp) (side : Side) (e : Expr) :
    (expr e).needsParens op side = e.needsParens op side := by
  cases e with
  | binary child left right => rfl
  | unary child e => cases child <;> rfl
  | _ => rfl

@[simp] theorem itemAlias_expr (e : Expr) : Sql.itemAlias (expr e) = Sql.itemAlias e := by
  cases e <;> rfl

@[simp] theorem isColumn_expr (e : Expr) : Sql.isColumn (expr e) = Sql.isColumn e := by
  cases e <;> rfl

@[simp] theorem ctes_query (q : Query) : (query q).ctes = cteList q.ctes := by
  cases q with
  | select p => cases p; rfl
  | combined p => cases p; rfl

@[simp] theorem orderBy_query (q : Query) : (query q).orderBy = terms q.orderBy := by
  cases q with
  | select p => cases p; rfl
  | combined p => cases p; rfl

@[simp] theorem pagination_query (q : Query) : (query q).pagination = q.pagination := by
  cases q with
  | select p => cases p; rfl
  | combined p => cases p; rfl

mutual

theorem leftmost_query (q : Query) : (query q).leftmost = select q.leftmost := by
  cases q with
  | select p => rw [query, Query.leftmost, Query.leftmost]
  | combined p => rw [query, Query.leftmost, Query.leftmost, leftmost_combined p]

theorem leftmost_combined (p : SetPlan) : (combined p).leftmost = select p.leftmost := by
  cases p with
  | mk operator all left right orderBy pagination ctes =>
  rw [combined, SetPlan.leftmost, SetPlan.leftmost, leftmost_query left]

end

/-- The number of columns does not depend on values. -/
theorem arity_query (q : Query) : (query q).arity = q.arity := by
  have hselect (p : SelectPlan) : (select p).arity = p.arity := by
    cases p with
    | mk items source joined condition groupBy having orderBy pagination distinct ctes =>
    have hstar : (exprs items).any Expr.isStar = items.any Expr.isStar := by
      rw [exprs_eq_map, List.any_map]
      exact congrArg (items.any ·) (funext isStar_expr)
    have htable : (optionalSource source).bind Source.tableName? =
        source.bind Source.tableName? := by
      cases source with
      | none => rfl
      | some s => exact source_tableName? s
    simp only [select, SelectPlan.arity, exprs_isEmpty, exprs_length, joins_isEmpty, hstar, htable]
  rw [Query.arity, Query.arity, leftmost_query, hselect]

section Checks
open Plan

theorem checkRecursiveBody_query (name : String) (recursive : Bool) (q : Query) :
    checkRecursiveBody name recursive (query q) = checkRecursiveBody name recursive q := by
  cases q with
  | select p => rfl
  | combined p => cases p; rfl

mutual

theorem checkQuery_blank (q : Query) : checkQuery (query q) = checkQuery q := by
  cases q with
  | select p => rw [query, checkQuery, checkQuery, checkSelect_blank p]
  | combined p => rw [query, checkQuery, checkQuery, checkSet_blank p]

theorem checkSelect_blank (p : SelectPlan) : checkSelect (select p) = checkSelect p := by
  cases p with
  | mk items source joined condition groupBy having orderBy pagination distinct ctes =>
  have hnames : (Blank.optionalSource source).map Source.name = source.map Source.name := by
    cases source with
    | none => rfl
    | some s => exact congrArg some (source_name s)
  simp only [select, checkSelect, optional_isSome, exprs_isEmpty, joins_isEmpty,
    optionalSource_isNone, hnames, checkOptionalSource_blank source, checkJoins_blank _ joined,
    checkCtes_blank _ ctes, checkExprs_blank items, checkOptional_blank condition,
    checkExprs_blank groupBy, checkOptional_blank having, checkTerms_blank orderBy,
    checkJoinExprs_blank joined]

theorem checkSet_blank (p : SetPlan) : checkSet (combined p) = checkSet p := by
  cases p with
  | mk operator all left right orderBy pagination ctes =>
  have harity : checkSameArity (query left) (query right) = checkSameArity left right := by
    rw [checkSameArity, checkSameArity, arity_query, arity_query]
  simp only [combined, checkSet, ctes_query, cteList_isEmpty, checkQuery_blank left,
    checkQuery_blank right, harity, checkCtes_blank _ ctes]

theorem checkSource_blank (s : Source) : checkSource (source s) = checkSource s := by
  cases s with
  | table name shown => rfl
  | query q shown => rw [source, checkSource, checkSource, checkQuery_blank q]

theorem checkOptionalSource_blank (s : Option Source) :
    checkOptionalSource (optionalSource s) = checkOptionalSource s := by
  cases s with
  | none => rfl
  | some s =>
    rw [optionalSource, checkOptionalSource, checkOptionalSource, checkSource_blank s]

theorem checkJoins_blank (seen : List String) (js : List Join) :
    checkJoins seen (joins js) = checkJoins seen js := by
  cases js with
  | nil => rfl
  | cons j js =>
    have htarget : (join j).target.name = j.target.name := by
      cases j with
      | mk kind target on blank => exact source_name target
    rw [joins, checkJoins, checkJoins, checkJoin_blank seen j, checkJoins_blank _ js, htarget]

theorem checkJoin_blank (seen : List String) (j : Join) :
    checkJoin seen (join j) = checkJoin seen j := by
  cases j with
  | mk kind target on blank =>
  simp only [join, checkJoin, optional_isSome, source_name, checkSource_blank target]

theorem checkCtes_blank (names : List String) (cs : List Cte) :
    checkCtes names (cteList cs) = checkCtes names cs := by
  cases cs with
  | nil => rfl
  | cons c cs =>
    have hname : (cte c).name = c.name := by cases c; rfl
    rw [cteList, checkCtes, checkCtes, checkCte_blank names c, checkCtes_blank _ cs, hname]

theorem checkCte_blank (names : List String) (c : Cte) :
    checkCte names (cte c) = checkCte names c := by
  cases c with
  | mk name body columns materialized recursive =>
  simp only [cte, checkCte, checkRecursiveBody_query, checkQuery_blank body]

theorem checkExpr_blank (e : Expr) : checkExpr (expr e) = checkExpr e := by
  cases e with
  | column table name shown => rfl
  | star table => rfl
  | literal value hint => rfl
  | raw sql parameters => rfl
  | subquery q => rw [expr, checkExpr, checkExpr, checkQuery_blank q]
  | inQuery e q negated =>
    rw [expr, checkExpr, checkExpr, checkExpr_blank e, checkQuery_blank q]
  | binary op left right =>
    rw [expr, checkExpr, checkExpr, checkExpr_blank left, checkExpr_blank right]
  | unary op e => rw [expr, checkExpr, checkExpr, checkExpr_blank e]
  | inList e values negated =>
    rw [expr, checkExpr, checkExpr, checkExpr_blank e, checkExprs_blank values]
  | call name arguments distinct windowed =>
    rw [expr, checkExpr, checkExpr, checkExprs_blank arguments,
      checkOptionalWindow_blank windowed]
  | window w => rw [expr, checkExpr, checkExpr, checkWindow_blank w]
  | cases bs otherwise =>
    rw [expr, checkExpr, checkExpr, checkBranches_blank bs, checkOptional_blank otherwise]
  | named e name => rw [expr, checkExpr, checkExpr, checkExpr_blank e]

theorem checkExprs_blank (es : List Expr) : checkExprs (exprs es) = checkExprs es := by
  cases es with
  | nil => rfl
  | cons e es => rw [exprs, checkExprs, checkExprs, checkExpr_blank e, checkExprs_blank es]

theorem checkOptional_blank (e : Option Expr) : checkOptional (optional e) = checkOptional e := by
  cases e with
  | none => rfl
  | some e => rw [optional, checkOptional, checkOptional, checkExpr_blank e]

theorem checkBranches_blank (bs : List Branch) : checkBranches (branches bs) = checkBranches bs := by
  cases bs with
  | nil => rfl
  | cons b bs =>
    cases b with
    | mk condition result =>
    rw [branches, checkBranches, checkBranches, checkExpr_blank condition, checkExpr_blank result,
      checkBranches_blank bs]

theorem checkWindow_blank (w : Window) : checkWindow (window w) = checkWindow w := by
  cases w with
  | mk partitionBy orderBy frame =>
  rw [window, checkWindow, checkWindow, checkExprs_blank partitionBy, checkTerms_blank orderBy]

theorem checkOptionalWindow_blank (w : Option Window) :
    checkOptionalWindow (optionalWindow w) = checkOptionalWindow w := by
  cases w with
  | none => rfl
  | some w =>
    rw [optionalWindow, checkOptionalWindow, checkOptionalWindow, checkWindow_blank w]

theorem checkTerms_blank (ts : List OrderTerm) : checkTerms (terms ts) = checkTerms ts := by
  cases ts with
  | nil => rfl
  | cons t ts =>
    cases t with
    | mk e direction => rw [terms, checkTerms, checkTerms, checkExpr_blank e, checkTerms_blank ts]

theorem checkJoinExprs_blank (js : List Join) : checkJoinExprs (joins js) = checkJoinExprs js := by
  cases js with
  | nil => rfl
  | cons j js =>
    cases j with
    | mk kind target on blank =>
    rw [joins, join, checkJoinExprs, checkJoinExprs, checkOptional_blank on,
      checkJoinExprs_blank js]

end

theorem checkRows_blank (columns : Nat) (rows : List (List Expr)) :
    checkRows columns (rows.map exprs) = checkRows columns rows := by
  induction rows with
  | nil => rfl
  | cons row rows ih =>
    rw [List.map_cons, checkRows, checkRows, exprs_length, checkExprs_blank, ih]

theorem map_assignment_value (as : List Assignment) :
    (as.map assignment).map Assignment.value = exprs (as.map Assignment.value) := by
  rw [exprs_eq_map, List.map_map, List.map_map]
  rfl

/-- Whether a statement passes the checks, and with what fault it does not, is decided by its
blank. -/
theorem check_statement (s : Statement) : check (statement s) = check s := by
  cases s with
  | query q => exact checkQuery_blank q
  | insert p =>
    have hrows : (p.rows.map exprs).isEmpty = p.rows.isEmpty := by cases p.rows <;> rfl
    simp only [statement, check, checkInsert, hrows, checkRows_blank]
  | update p =>
    have hassignments : (p.assignments.map assignment).isEmpty = p.assignments.isEmpty := by
      cases p.assignments <;> rfl
    simp only [statement, check, checkUpdate, hassignments, optional_isNone, checkOptional_blank,
      map_assignment_value, checkExprs_blank]
  | delete p => simp only [statement, check, checkDelete, optional_isNone, checkOptional_blank]

end Checks

section Places
variable (d : Dialect)

/-- A place without its value. -/
def place : Slot → Slot
  | .literal _ hint => .literal .null hint
  | .parameter _ => .parameter .null

mutual

theorem slots_query (q : Query) : Slots.query d (query q) = (Slots.query d q).map place := by
  cases q with
  | select p => rw [query, Slots.query, Slots.query, slots_select p]
  | combined p => rw [query, Slots.query, Slots.query, slots_combined p]

theorem slots_select (p : SelectPlan) :
    Slots.select d (select p) = (Slots.select d p).map place := by
  cases p with
  | mk items source joined condition groupBy having orderBy pagination distinct ctes =>
  simp only [select, Slots.select, List.map_append, List.map_flatten, slots_cteList ctes,
    slots_exprs items, slots_optionalSource source, slots_joins joined, slots_optional condition,
    slots_exprs groupBy, slots_optional having, slots_terms orderBy]

theorem slots_combined (p : SetPlan) :
    Slots.combined d (combined p) = (Slots.combined d p).map place := by
  cases p with
  | mk operator all left right orderBy pagination ctes =>
  simp only [combined, Slots.combined, List.map_append, slots_cteList ctes, slots_query left,
    slots_query right, slots_terms orderBy]

theorem slots_cteList (cs : List Cte) :
    Slots.cteList d (cteList cs) = (Slots.cteList d cs).map place := by
  cases cs with
  | nil => rfl
  | cons c cs =>
    rw [cteList, Slots.cteList, Slots.cteList, slots_cte c, slots_cteList cs, List.map_append]

theorem slots_cte (c : Cte) : Slots.cte d (cte c) = (Slots.cte d c).map place := by
  cases c with
  | mk name body columns materialized recursive =>
  rw [cte, Slots.cte, Slots.cte, slots_query body]

theorem slots_source (s : Source) : Slots.source d (source s) = (Slots.source d s).map place := by
  cases s with
  | table name shown => rfl
  | query q shown => rw [source, Slots.source, Slots.source, slots_query q]

theorem slots_optionalSource (s : Option Source) :
    Slots.optionalSource d (optionalSource s) = (Slots.optionalSource d s).map place := by
  cases s with
  | none => rfl
  | some s =>
    rw [optionalSource, Slots.optionalSource, Slots.optionalSource, slots_source s]

theorem slots_joins (js : List Join) : Slots.joins d (joins js) = (Slots.joins d js).map place := by
  cases js with
  | nil => rfl
  | cons j js =>
    rw [joins, Slots.joins, Slots.joins, slots_join j, slots_joins js, List.map_append]

theorem slots_join (j : Join) : Slots.join d (join j) = (Slots.join d j).map place := by
  cases j with
  | mk kind target on blank =>
  rw [join, Slots.join, Slots.join, slots_source target, slots_optional on, List.map_append]

theorem slots_expr (e : Expr) : Slots.expr d (expr e) = (Slots.expr d e).map place := by
  cases e with
  | column table name shown => rfl
  | star table => rfl
  | literal value hint => rfl
  | raw sql parameters =>
    rw [expr, Slots.expr, Slots.expr, List.map_map, List.map_map]
    rfl
  | subquery q => rw [expr, Slots.expr, Slots.expr, slots_query q]
  | inQuery e q negated =>
    rw [expr, Slots.expr, Slots.expr, slots_expr e, slots_query q, List.map_append]
  | binary op left right =>
    rw [expr, Slots.expr, Slots.expr, slots_expr left, slots_expr right, List.map_append]
  | unary op e => rw [expr, Slots.expr, Slots.expr, slots_expr e]
  | inList e values negated =>
    -- the list is cut in the same places, as only its length decides them
    simp only [expr, Slots.expr, exprs_length, slots_exprs values, slots_expr e, Sql.chunks_map,
      List.flatMap_map, List.map_flatMap, List.map_append, List.map_flatten]
  | call name arguments distinct windowed =>
    rw [expr, Slots.expr, Slots.expr, slots_exprs arguments, slots_optionalWindow windowed,
      List.map_append, List.map_flatten]
  | window w => rw [expr, Slots.expr, Slots.expr, slots_window w]
  | cases bs otherwise =>
    rw [expr, Slots.expr, Slots.expr, slots_branches bs, slots_optional otherwise,
      List.map_append]
  | named e name => rw [expr, Slots.expr, Slots.expr, slots_expr e]

theorem slots_exprs (es : List Expr) :
    Slots.exprs d (exprs es) = (Slots.exprs d es).map (List.map place) := by
  cases es with
  | nil => rfl
  | cons e es =>
    rw [exprs, Slots.exprs, Slots.exprs, slots_expr e, slots_exprs es, List.map_cons]

theorem slots_optional (e : Option Expr) :
    Slots.optional d (optional e) = (Slots.optional d e).map place := by
  cases e with
  | none => rfl
  | some e => rw [optional, Slots.optional, Slots.optional, slots_expr e]

theorem slots_branches (bs : List Branch) :
    Slots.branches d (branches bs) = (Slots.branches d bs).map place := by
  cases bs with
  | nil => rfl
  | cons b bs =>
    cases b with
    | mk condition result =>
    rw [branches, Slots.branches, Slots.branches, slots_expr condition, slots_expr result,
      slots_branches bs, List.map_append, List.map_append]

theorem slots_window (w : Window) : Slots.window d (window w) = (Slots.window d w).map place := by
  cases w with
  | mk partitionBy orderBy frame =>
  rw [window, Slots.window, Slots.window, slots_exprs partitionBy, slots_terms orderBy,
    List.map_append, List.map_flatten]

theorem slots_optionalWindow (w : Option Window) :
    Slots.optionalWindow d (optionalWindow w) = (Slots.optionalWindow d w).map place := by
  cases w with
  | none => rfl
  | some w =>
    rw [optionalWindow, Slots.optionalWindow, Slots.optionalWindow, slots_window w]

theorem slots_terms (ts : List OrderTerm) :
    Slots.terms d (terms ts) = (Slots.terms d ts).map place := by
  cases ts with
  | nil => rfl
  | cons t ts =>
    cases t with
    | mk e direction =>
    rw [terms, Slots.terms, Slots.terms, slots_expr e, slots_terms ts, List.map_append]

end

/-- The places of a statement, but for their values, are those of its blank. -/
theorem slots_statement (s : Statement) :
    Slots.statement d (statement s) = (Slots.statement d s).map place := by
  have hrows (rows : List (List Expr)) : ((rows.map exprs).flatMap (Slots.exprs d)).flatten =
      ((rows.flatMap (Slots.exprs d)).flatten).map place := by
    simp only [List.flatMap_map, slots_exprs, List.map_flatten, List.map_flatMap]
  cases s with
  | query q => exact slots_query d q
  | insert p =>
    simp only [statement, Slots.statement, hrows, slots_exprs, List.map_append, List.map_flatten]
  | update p =>
    simp only [statement, Slots.statement, map_assignment_value, slots_exprs, slots_optional,
      List.map_append, List.map_flatten]
  | delete p =>
    simp only [statement, Slots.statement, slots_exprs, slots_optional, List.map_append,
      List.map_flatten]

end Places

end Blank

end PolyQuery
