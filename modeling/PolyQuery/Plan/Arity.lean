import PolyQuery.Expr

/-! How many columns a query has, and whether two queries may be combined. -/
namespace PolyQuery

/-- The number of columns of a query; a wildcard's is unknown, and it may be over one table. -/
inductive Arity where
  | count (n : Nat)
  | wildcard (table : Option String)
  deriving DecidableEq, Repr

/-- The width that an arity stands for in messages. -/
def Arity.width : Arity → Width
  | .count n => .columns n
  | .wildcard _ => .wildcard

/-- A star, of one table or of all. -/
def Expr.isStar : Expr → Bool
  | .star _ => true
  | _ => false

/-- The table of a source that is one. -/
def Source.tableName? : Source → Option String
  | .table name _ => some name
  | .query _ _ => none

/-- The arity of a selection: a wildcard when it has no items or a star among them, which is over
one table when that is the only source and the star, if any, the only item. -/
def SelectPlan.arity (p : SelectPlan) : Arity :=
  if p.items.isEmpty || p.items.any Expr.isStar then
    if p.joins.isEmpty && p.items.length ≤ 1 then .wildcard (p.source.bind Source.tableName?)
    else .wildcard none
  else .count p.items.length

/-- The arity of a query, that of its leftmost selection. -/
def Query.arity (q : Query) : Arity := q.leftmost.arity

/-- Whether two arities are certainly the same. -/
def Arity.agrees : Arity → Arity → Bool
  | .count m, .count n => m == n
  | .wildcard (some s), .wildcard (some t) => s == t
  | _, _ => false

/-- Refuses two queries that may not have the same columns. -/
def checkSameArity (left right : Query) : Except Error Unit :=
  if left.arity.agrees right.arity then .ok ()
  else .error (.arityMismatch left.arity.width right.arity.width)

end PolyQuery
