import PolyQuery.Sql.Compile

/-! Places of expressions. A spot is a statement with one expression left open, together with what
stands around that expression and how often its text is written. Main statement: whether a statement
passes the checks on every backend does not depend on a name for the expression at a spot. -/
namespace PolyQuery

/-- What stands directly around an expression: a list of items, an operator, a predicate or sign that
is about the expression, or what sets it off by itself. -/
inductive Standing where
  | item
  | operand (op : BinaryOp) (side : Side)
  | subject
  | free
  deriving DecidableEq

namespace Standing

/-- Whether the expression gets brackets there. -/
def wraps : Standing → Expr → Bool
  | item, _ => false
  | operand op side, e => e.needsParens op side
  | subject, e => e.precedence != atomicPrecedence
  | free, _ => false

/-- The text of an expression, with the brackets that it gets. -/
def dress (s : Standing) (e : Expr) (f : Fragment) : Fragment :=
  if s.wraps e then f.enclosed else f

/-- A name makes an expression one that needs no brackets anywhere. -/
theorem wraps_named (s : Standing) (e : Expr) (name : String) : s.wraps (.named e name) = false := by
  cases s with
  | operand op side => cases op <;> rfl
  | _ => rfl

end Standing

/-- What stands around the operand of an operator on one operand. -/
def UnaryOp.standing : UnaryOp → Standing
  | .exists_ => .free
  | .notExists => .free
  | _ => .subject

namespace Sql

theorem operand_eq (op : BinaryOp) (side : Side) (e : Expr) (f : Fragment) :
    operand op side e f = (Standing.operand op side).dress e f := rfl

theorem predicateOperand_eq (e : Expr) (f : Fragment) :
    predicateOperand e f = Standing.subject.dress e f := by
  rw [predicateOperand, Standing.dress, Standing.wraps]
  by_cases h : e.precedence = atomicPrecedence
  · rw [if_pos h, if_neg (by simp [h])]
  · rw [if_neg h, if_pos (bne_iff_ne.2 h)]

/-- The number of lists that the values of a membership test are cut into. -/
def listCount (d : Dialect) (values : List Expr) : Nat :=
  (chunks (d.maxInList.getD values.length) values.length values).length

end Sql

mutual

/-- An expression that stands at `place`, with one expression in it left open: `found` is what stands
around that one, and `times` how often its text is written for one text of the whole. -/
inductive Expr.Spot (d : Dialect) : (place found : Standing) → (times : Nat) → (Expr → Expr) → Prop
  | here (place) : Expr.Spot d place place 1 fun x => x
  | left {place found times c} (op right) (h : Expr.Spot d (.operand op .left) found times c) :
      Expr.Spot d place found times fun x => .binary op (c x) right
  | right {place found times c} (op left) (h : Expr.Spot d (.operand op .right) found times c) :
      Expr.Spot d place found times fun x => .binary op left (c x)
  | unary {place found times c} (op : UnaryOp) (h : Expr.Spot d op.standing found times c) :
      Expr.Spot d place found times fun x => .unary op (c x)
  | member {place found times c} (values negated) (h : Expr.Spot d .subject found times c) :
      Expr.Spot d place found (times * Sql.listCount d values) fun x => .inList (c x) values negated
  | value {place found times c} (e before after negated) (h : Expr.Spot d .free found times c) :
      Expr.Spot d place found times fun x => .inList e (before ++ c x :: after) negated
  | rowMember {place found times c} (q negated) (h : Expr.Spot d .subject found times c) :
      Expr.Spot d place found times fun x => .inQuery (c x) q negated
  | rows {place found times c} (e negated) (h : Query.Spot d found times c) :
      Expr.Spot d place found times fun x => .inQuery e (c x) negated
  | argument {place found times c} (name before after distinct windowed)
      (h : Expr.Spot d .free found times c) :
      Expr.Spot d place found
        (times * (d.functionLayout name (before.length + (after.length + 1)) distinct).count
          (.argument before.length))
        fun x => .call name (before ++ c x :: after) distinct windowed
  | framed {place found times c} (name arguments distinct) (h : Window.Spot d found times c) :
      Expr.Spot d place found times fun x => .call name arguments distinct (some (c x))
  | window {place found times c} (h : Window.Spot d found times c) :
      Expr.Spot d place found times fun x => .window (c x)
  | subquery {place found times c} (h : Query.Spot d found times c) :
      Expr.Spot d place found times fun x => .subquery (c x)
  | condition {place found times c} (before result after otherwise)
      (h : Expr.Spot d .free found times c) :
      Expr.Spot d place found times fun x =>
        .cases (before ++ ⟨c x, result⟩ :: after) otherwise
  | result {place found times c} (before condition after otherwise)
      (h : Expr.Spot d .free found times c) :
      Expr.Spot d place found times fun x =>
        .cases (before ++ ⟨condition, c x⟩ :: after) otherwise
  | otherwise {place found times c} (branches) (h : Expr.Spot d .free found times c) :
      Expr.Spot d place found times fun x => .cases branches (some (c x))
  | named {place found times c} (name) (h : Expr.Spot d .free found times c) :
      Expr.Spot d place found times fun x => .named (c x) name

/-- A window with one expression left open. -/
inductive Window.Spot (d : Dialect) : (found : Standing) → (times : Nat) → (Expr → Window) → Prop
  | partition {found times c} (before after orderBy frame) (h : Expr.Spot d .free found times c) :
      Window.Spot d found times fun x => ⟨before ++ c x :: after, orderBy, frame⟩
  | order {found times c} (partitionBy before direction after frame)
      (h : Expr.Spot d .free found times c) :
      Window.Spot d found times fun x =>
        ⟨partitionBy, before ++ ⟨c x, direction⟩ :: after, frame⟩

/-- A query with one expression left open. -/
inductive Query.Spot (d : Dialect) : (found : Standing) → (times : Nat) → (Expr → Query) → Prop
  | item {found times c} (p : SelectPlan) (before after) (h : Expr.Spot d .item found times c) :
      Query.Spot d found times fun x => .select { p with items := before ++ c x :: after }
  | source {found times c} (p : SelectPlan) (shown) (h : Query.Spot d found times c) :
      Query.Spot d found times fun x => .select { p with source := some (.query (c x) shown) }
  | joined {found times c} (p : SelectPlan) (before kind shown on blank after)
      (h : Query.Spot d found times c) :
      Query.Spot d found times fun x =>
        .select { p with joins := before ++ ⟨kind, .query (c x) shown, on, blank⟩ :: after }
  | matched {found times c} (p : SelectPlan) (before kind target blank after)
      (h : Expr.Spot d .free found times c) :
      Query.Spot d found times fun x =>
        .select { p with joins := before ++ ⟨kind, target, some (c x), blank⟩ :: after }
  | condition {found times c} (p : SelectPlan) (h : Expr.Spot d .free found times c) :
      Query.Spot d found times fun x => .select { p with condition := some (c x) }
  | group {found times c} (p : SelectPlan) (before after) (h : Expr.Spot d .free found times c) :
      Query.Spot d found times fun x => .select { p with groupBy := before ++ c x :: after }
  | having {found times c} (p : SelectPlan) (h : Expr.Spot d .free found times c) :
      Query.Spot d found times fun x => .select { p with having := some (c x) }
  | order {found times c} (p : SelectPlan) (before direction after)
      (h : Expr.Spot d .free found times c) :
      Query.Spot d found times fun x =>
        .select { p with orderBy := before ++ ⟨c x, direction⟩ :: after }
  | cte {found times c} (p : SelectPlan) (before name columns materialized recursive after)
      (h : Query.Spot d found times c) :
      Query.Spot d found times fun x =>
        .select { p with ctes := before ++ ⟨name, c x, columns, materialized, recursive⟩ :: after }
  | left {found times c} (p : SetPlan) (h : Query.Spot d found times c) :
      Query.Spot d found times fun x => .combined { p with left := c x }
  | right {found times c} (p : SetPlan) (h : Query.Spot d found times c) :
      Query.Spot d found times fun x => .combined { p with right := c x }
  | setOrder {found times c} (p : SetPlan) (before direction after)
      (h : Expr.Spot d .free found times c) :
      Query.Spot d found times fun x =>
        .combined { p with orderBy := before ++ ⟨c x, direction⟩ :: after }
  | setCte {found times c} (p : SetPlan) (before name columns materialized recursive after)
      (h : Query.Spot d found times c) :
      Query.Spot d found times fun x =>
        .combined { p with ctes := before ++ ⟨name, c x, columns, materialized, recursive⟩ :: after }

end

/-- A statement with one expression left open. -/
inductive Statement.Spot (d : Dialect) :
    (found : Standing) → (times : Nat) → (Expr → Statement) → Prop
  | query {found times c} (h : Query.Spot d found times c) :
      Statement.Spot d found times fun x => .query (c x)
  | row {found times c} (p : InsertPlan) (before left right after)
      (h : Expr.Spot d .free found times c) :
      Statement.Spot d found times fun x =>
        .insert { p with rows := before ++ (left ++ c x :: right) :: after }
  | inserted {found times c} (p : InsertPlan) (before after)
      (h : Expr.Spot d .item found times c) :
      Statement.Spot d found times fun x => .insert { p with returning := before ++ c x :: after }
  | assigned {found times c} (p : UpdatePlan) (before column after)
      (h : Expr.Spot d .free found times c) :
      Statement.Spot d found times fun x =>
        .update { p with assignments := before ++ ⟨column, c x⟩ :: after }
  | changing {found times c} (p : UpdatePlan) (h : Expr.Spot d .free found times c) :
      Statement.Spot d found times fun x => .update { p with condition := some (c x) }
  | changed {found times c} (p : UpdatePlan) (before after) (h : Expr.Spot d .item found times c) :
      Statement.Spot d found times fun x => .update { p with returning := before ++ c x :: after }
  | deleting {found times c} (p : DeletePlan) (h : Expr.Spot d .free found times c) :
      Statement.Spot d found times fun x => .delete { p with condition := some (c x) }
  | deleted {found times c} (p : DeletePlan) (before after) (h : Expr.Spot d .item found times c) :
      Statement.Spot d found times fun x => .delete { p with returning := before ++ c x :: after }

/-! ### What stays outside of a spot -/

/-- Two expressions that look the same to what stands around them. -/
structure Expr.Alike (e e' : Expr) : Prop where
  wraps : ∀ s : Standing, s.wraps e = s.wraps e'
  isStar : e.isStar = e'.isStar
  outputName : e.outputName = e'.outputName
  itemAlias : Sql.itemAlias e = Sql.itemAlias e'

/-- Two queries that look the same to what stands around them. -/
structure Query.Alike (q q' : Query) : Prop where
  arity : q.arity = q'.arity
  names : q.leftmost.items.map Expr.outputName = q'.leftmost.items.map Expr.outputName
  ctes : q.ctes.isEmpty = q'.ctes.isEmpty
  body : ∀ name recursive,
    Plan.checkRecursiveBody name recursive q = Plan.checkRecursiveBody name recursive q'
  operand : ∀ d side f, Sql.setOperand d side q f = Sql.setOperand d side q' f

/-- Unless the expression left open is the whole, what fills it is not seen from outside. -/
theorem Expr.Spot.alike {d : Dialect} {place found : Standing} {times : Nat} {c : Expr → Expr}
    (h : Expr.Spot d place found times c) :
    (found = place ∧ times = 1 ∧ c = fun x => x) ∨ ∀ x y, (c x).Alike (c y) := by
  cases h with
  | here => exact .inl ⟨rfl, rfl, rfl⟩
  | unary op _ =>
    refine .inr fun x y => ⟨fun s => ?_, rfl, rfl, rfl⟩
    cases s <;> cases op <;> rfl
  | _ =>
    refine .inr fun x y => ⟨fun s => ?_, rfl, rfl, rfl⟩
    cases s <;> rfl

/-- The number of columns asks of an item only whether it is a star, -/
theorem SelectPlan.arity_item (p : SelectPlan) (before after : List Expr) {e e' : Expr}
    (h : e.isStar = e'.isStar) : { p with items := before ++ e :: after }.arity =
      { p with items := before ++ e' :: after }.arity := by
  simp [SelectPlan.arity, h]

/-- and of the joins only whether there are any. -/
theorem SelectPlan.arity_join (p : SelectPlan) (before after : List Join) (j j' : Join) :
    { p with joins := before ++ j :: after }.arity =
      { p with joins := before ++ j' :: after }.arity := by
  simp [SelectPlan.arity]

theorem Sql.setOperand_select {p p' : SelectPlan} (horder : p.orderBy.isEmpty = p'.orderBy.isEmpty)
    (hpage : p.pagination = p'.pagination) (d : Dialect) (side : Side) (f : Fragment) :
    setOperand d side (.select p) f = setOperand d side (.select p') f := by
  simp [setOperand, Query.orderBy, Query.pagination, horder, hpage]

theorem Sql.setOperand_combined {p p' : SetPlan} (horder : p.orderBy.isEmpty = p'.orderBy.isEmpty)
    (hpage : p.pagination = p'.pagination) (d : Dialect) (side : Side) (f : Fragment) :
    setOperand d side (.combined p) f = setOperand d side (.combined p') f := by
  simp [setOperand, Query.orderBy, Query.pagination, horder, hpage]

theorem Query.Spot.alike {d : Dialect} : ∀ {found times c}, Query.Spot d found times c →
    found ≠ .item → ∀ x y, (c x).Alike (c y)
  | _, _, _, .item (c := c) p before after h, hitem, x, y => by
    -- an item that is the spot itself shows the name, and is left out here
    rcases h.alike with ⟨rfl, -⟩ | halike
    · exact absurd rfl hitem
    · have hxy := halike x y
      have harity := p.arity_item before after hxy.isStar
      have hnames : (before ++ c x :: after).map Expr.outputName =
          (before ++ c y :: after).map Expr.outputName := by
        rw [List.map_append, List.map_append, List.map_cons, List.map_cons, hxy.outputName]
      exact ⟨harity, hnames, rfl, fun _ _ => rfl, fun _ _ _ => rfl⟩
  | _, _, _, .left p h, hitem, x, y => by
    have hxy := Query.Spot.alike h hitem x y
    exact ⟨hxy.arity, hxy.names, rfl, fun _ _ => rfl, fun _ _ _ => rfl⟩
  | _, _, _, .order p before direction after h, _, x, y =>
    ⟨rfl, rfl, rfl, fun _ _ => rfl, Sql.setOperand_select (by cases before <;> rfl) rfl⟩
  | _, _, _, .setOrder p before direction after h, _, x, y =>
    ⟨rfl, rfl, rfl, fun _ _ => rfl, Sql.setOperand_combined (by cases before <;> rfl) rfl⟩
  | _, _, _, .cte p before name columns materialized recursive after h, _, x, y => by
    refine ⟨rfl, rfl, ?_, fun _ _ => rfl, fun _ _ _ => rfl⟩
    cases before <;> rfl
  | _, _, _, .setCte p before name columns materialized recursive after h, _, x, y => by
    refine ⟨rfl, rfl, ?_, fun _ _ => rfl, fun _ _ _ => rfl⟩
    cases before <;> rfl
  | _, _, _, .joined p before kind shown on blank after h, _, x, y =>
    ⟨p.arity_join before after _ _, rfl, rfl, fun _ _ => rfl, fun _ _ _ => rfl⟩
  | _, _, _, .matched p before kind target blank after h, _, x, y =>
    ⟨p.arity_join before after _ _, rfl, rfl, fun _ _ => rfl, fun _ _ _ => rfl⟩
  | _, _, _, .source p shown h, _, x, y => ⟨rfl, rfl, rfl, fun _ _ => rfl, fun _ _ _ => rfl⟩
  | _, _, _, .condition p h, _, x, y => ⟨rfl, rfl, rfl, fun _ _ => rfl, fun _ _ _ => rfl⟩
  | _, _, _, .group p before after h, _, x, y => ⟨rfl, rfl, rfl, fun _ _ => rfl, fun _ _ _ => rfl⟩
  | _, _, _, .having p h, _, x, y => ⟨rfl, rfl, rfl, fun _ _ => rfl, fun _ _ _ => rfl⟩
  | _, _, _, .right p h, _, x, y => ⟨rfl, rfl, rfl, fun _ _ => rfl, fun _ _ _ => rfl⟩

/-! ### The checks on every backend -/

namespace Plan

theorem checkExprs_at {e e' : Expr} (h : checkExpr e = checkExpr e') (before after : List Expr) :
    checkExprs (before ++ e :: after) = checkExprs (before ++ e' :: after) := by
  induction before with
  | nil => rw [List.nil_append, List.nil_append, checkExprs, checkExprs, h]
  | cons b bs ih => rw [List.cons_append, List.cons_append, checkExprs, checkExprs, ih]

theorem checkTerms_at {e e' : Expr} (h : checkExpr e = checkExpr e') (direction : SortDirection)
    (before after : List OrderTerm) :
    checkTerms (before ++ ⟨e, direction⟩ :: after) =
      checkTerms (before ++ ⟨e', direction⟩ :: after) := by
  induction before with
  | nil => rw [List.nil_append, List.nil_append, checkTerms, checkTerms, h]
  | cons b bs ih =>
    cases b
    rw [List.cons_append, List.cons_append, checkTerms, checkTerms, ih]

theorem checkBranches_at {c c' r r' : Expr} (hc : checkExpr c = checkExpr c')
    (hr : checkExpr r = checkExpr r') (before after : List Branch) :
    checkBranches (before ++ ⟨c, r⟩ :: after) = checkBranches (before ++ ⟨c', r'⟩ :: after) := by
  induction before with
  | nil => rw [List.nil_append, List.nil_append, checkBranches, checkBranches, hc, hr]
  | cons b bs ih =>
    cases b
    rw [List.cons_append, List.cons_append, checkBranches, checkBranches, ih]

theorem checkJoins_at {s s' : Source} (hs : checkSource s = checkSource s') (hname : s.name = s'.name)
    {on on' : Option Expr} (hon : on.isSome = on'.isSome) (kind : JoinKind) (blank : Bool)
    (before after : List Join) (seen : List String) :
    checkJoins seen (before ++ ⟨kind, s, on, blank⟩ :: after) =
      checkJoins seen (before ++ ⟨kind, s', on', blank⟩ :: after) := by
  induction before generalizing seen with
  | nil =>
    rw [List.nil_append, List.nil_append, checkJoins, checkJoins, checkJoin, checkJoin, hs, hname,
      hon]
  | cons b bs ih => rw [List.cons_append, List.cons_append, checkJoins, checkJoins, ih]

theorem checkJoinExprs_at {on on' : Option Expr} (h : checkOptional on = checkOptional on')
    (kind : JoinKind) (s s' : Source) (blank : Bool) (before after : List Join) :
    checkJoinExprs (before ++ ⟨kind, s, on, blank⟩ :: after) =
      checkJoinExprs (before ++ ⟨kind, s', on', blank⟩ :: after) := by
  induction before with
  | nil => rw [List.nil_append, List.nil_append, checkJoinExprs, checkJoinExprs, h]
  | cons b bs ih =>
    cases b
    rw [List.cons_append, List.cons_append, checkJoinExprs, checkJoinExprs, ih]

theorem checkCtes_at {q q' : Query} (h : checkQuery q = checkQuery q')
    (hbody : ∀ name recursive, checkRecursiveBody name recursive q =
      checkRecursiveBody name recursive q') (name : String) (columns : Option (List String))
    (materialized : Option Bool) (recursive : Bool) (before after : List Cte)
    (names : List String) :
    checkCtes names (before ++ ⟨name, q, columns, materialized, recursive⟩ :: after) =
      checkCtes names (before ++ ⟨name, q', columns, materialized, recursive⟩ :: after) := by
  induction before generalizing names with
  | nil => rw [List.nil_append, List.nil_append, checkCtes, checkCtes, checkCte, checkCte, h, hbody]
  | cons b bs ih => rw [List.cons_append, List.cons_append, checkCtes, checkCtes, ih]

theorem isEmpty_at {α : Type} (a b : α) (before after : List α) :
    (before ++ a :: after).isEmpty = (before ++ b :: after).isEmpty := by
  cases before <;> rfl

end Plan

open Plan

section
variable {d : Dialect} (e : Expr) (name : String)

mutual

/-- A name for the expression at a spot passes the checks as the expression does. -/
theorem Expr.Spot.check_named : ∀ {place found times c}, Expr.Spot d place found times c →
    found ≠ .item → checkExpr (c (.named e name)) = checkExpr (c e)
  -- the check of a name is that of what it names
  | _, _, _, _, .here place, _ => by rw [checkExpr]
  | _, _, _, _, .left op right h, hne => by rw [checkExpr, checkExpr, h.check_named hne]
  | _, _, _, _, .right op left h, hne => by rw [checkExpr, checkExpr, h.check_named hne]
  | _, _, _, _, .unary op h, hne => by rw [checkExpr, checkExpr, h.check_named hne]
  | _, _, _, _, .member values negated h, hne => by rw [checkExpr, checkExpr, h.check_named hne]
  | _, _, _, _, .value operand before after negated h, hne => by
    rw [checkExpr, checkExpr, checkExprs_at (h.check_named hne)]
  | _, _, _, _, .rowMember q negated h, hne => by rw [checkExpr, checkExpr, h.check_named hne]
  | _, _, _, _, .rows operand negated h, hne => by rw [checkExpr, checkExpr, h.check_named hne]
  | _, _, _, _, .argument called before after distinct windowed h, hne => by
    rw [checkExpr, checkExpr, checkExprs_at (h.check_named hne)]
  | _, _, _, _, .framed called arguments distinct h, hne => by
    rw [checkExpr, checkExpr, checkOptionalWindow, checkOptionalWindow, h.check_named hne]
  | _, _, _, _, .window h, hne => by rw [checkExpr, checkExpr, h.check_named hne]
  | _, _, _, _, .subquery h, hne => by rw [checkExpr, checkExpr, h.check_named hne]
  | _, _, _, _, .condition before result after otherwise h, hne => by
    rw [checkExpr, checkExpr, checkBranches_at (h.check_named hne) rfl]
  | _, _, _, _, .result before condition after otherwise h, hne => by
    rw [checkExpr, checkExpr, checkBranches_at rfl (h.check_named hne)]
  | _, _, _, _, .otherwise branches h, hne => by
    rw [checkExpr, checkExpr, checkOptional, checkOptional, h.check_named hne]
  | _, _, _, _, .named shown h, hne => by rw [checkExpr, checkExpr, h.check_named hne]

theorem Window.Spot.check_named : ∀ {found times c}, Window.Spot d found times c →
    found ≠ .item → checkWindow (c (.named e name)) = checkWindow (c e)
  | _, _, _, .partition before after orderBy frame h, hne => by
    rw [checkWindow, checkWindow, checkExprs_at (h.check_named hne)]
  | _, _, _, .order partitionBy before direction after frame h, hne => by
    rw [checkWindow, checkWindow, checkTerms_at (h.check_named hne)]

theorem Query.Spot.check_named : ∀ {found times c}, Query.Spot d found times c →
    found ≠ .item → checkQuery (c (.named e name)) = checkQuery (c e)
  | _, _, _, .item p before after h, hne => by
    rw [checkQuery, checkQuery, checkSelect, checkSelect, checkExprs_at (h.check_named hne)]
  | _, _, _, .source p shown h, hne => by
    rw [checkQuery, checkQuery, checkSelect, checkSelect, checkOptionalSource, checkOptionalSource,
      checkSource, checkSource, h.check_named hne]
    rfl
  | _, _, _, .joined (c := c) p before kind shown on blank after h, hne => by
    have hsource : checkSource (.query (c (.named e name)) shown) =
        checkSource (.query (c e) shown) := by
      rw [checkSource, checkSource, h.check_named hne]
    rw [checkQuery, checkQuery, checkSelect, checkSelect, checkJoins_at hsource rfl rfl,
      checkJoinExprs_at rfl, isEmpty_at]
  | _, _, _, .matched (c := c) p before kind target blank after h, hne => by
    have hon : checkOptional (some (c (.named e name))) = checkOptional (some (c e)) := by
      rw [checkOptional, checkOptional, h.check_named hne]
    -- a join asks whether it has a condition, not which one
    have hsome : (some (c (.named e name))).isSome = (some (c e)).isSome := rfl
    rw [checkQuery, checkQuery, checkSelect, checkSelect, checkJoins_at rfl rfl hsome,
      checkJoinExprs_at hon kind target target, isEmpty_at _ ⟨kind, target, some (c e), blank⟩]
  | _, _, _, .condition p h, hne => by
    rw [checkQuery, checkQuery, checkSelect, checkSelect, checkOptional, checkOptional,
      h.check_named hne]
  | _, _, _, .group p before after h, hne => by
    rw [checkQuery, checkQuery, checkSelect, checkSelect, checkExprs_at (h.check_named hne),
      isEmpty_at]
  | _, _, _, .having p h, hne => by
    rw [checkQuery, checkQuery, checkSelect, checkSelect, checkOptional, checkOptional,
      h.check_named hne]
    rfl
  | _, _, _, .order p before direction after h, hne => by
    rw [checkQuery, checkQuery, checkSelect, checkSelect, checkTerms_at (h.check_named hne)]
  | _, _, _, .cte p before shown columns materialized recursive after h, hne => by
    rw [checkQuery, checkQuery, checkSelect, checkSelect,
      checkCtes_at (h.check_named hne) (h.alike hne _ _).body]
  | _, _, _, .left p h, hne => by
    -- both operands must be equally wide, which a name does not change
    have halike := h.alike hne (.named e name) e
    rw [checkQuery, checkQuery, checkSet, checkSet, h.check_named hne, checkSameArity,
      checkSameArity, halike.arity, halike.ctes]
  | _, _, _, .right p h, hne => by
    have halike := h.alike hne (.named e name) e
    rw [checkQuery, checkQuery, checkSet, checkSet, h.check_named hne, checkSameArity,
      checkSameArity, halike.arity, halike.ctes]
  | _, _, _, .setOrder p before direction after h, hne => rfl
  | _, _, _, .setCte p before shown columns materialized recursive after h, hne => by
    rw [checkQuery, checkQuery, checkSet, checkSet,
      checkCtes_at (h.check_named hne) (h.alike hne _ _).body]

end

theorem Plan.checkRows_at {r r' : List Expr} (h : checkExprs r = checkExprs r')
    (hlength : r.length = r'.length) (columns : Nat) (before after : List (List Expr)) :
    checkRows columns (before ++ r :: after) = checkRows columns (before ++ r' :: after) := by
  induction before with
  | nil => rw [List.nil_append, List.nil_append, checkRows, checkRows, h, hlength]
  | cons b bs ih => rw [List.cons_append, List.cons_append, checkRows, checkRows, ih]

theorem Statement.Spot.check_named {found : Standing} {times : Nat} {c : Expr → Statement}
    (h : Statement.Spot d found times c) (hne : found ≠ .item) :
    check (c (.named e name)) = check (c e) := by
  cases h with
  | query h => exact h.check_named e name hne
  | row p before left right after h =>
    have hrow := checkExprs_at (h.check_named e name hne) left right
    rw [check, check, checkInsert, checkInsert, checkRows_at hrow (by simp), isEmpty_at]
  -- what is returned is not looked at by the check
  | inserted p before after h => rfl
  | assigned p before column after h =>
    have hvalues := checkExprs_at (h.check_named e name hne) (before.map Assignment.value)
      (after.map Assignment.value)
    rw [check, check, checkUpdate, checkUpdate, List.map_append, List.map_append, List.map_cons,
      List.map_cons, hvalues, isEmpty_at]
  | changing p h =>
    rw [check, check, checkUpdate, checkUpdate, checkOptional, checkOptional,
      h.check_named e name hne]
    rfl
  | changed p before after h => rfl
  | deleting p h =>
    rw [check, check, checkDelete, checkDelete, checkOptional, checkOptional,
      h.check_named e name hne]
    rfl
  | deleted p before after h => rfl

end

end PolyQuery
