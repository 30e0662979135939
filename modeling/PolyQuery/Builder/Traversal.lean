import PolyQuery.Builder.Combined

/-! Traversal of trees that are kept in a table of identifiers and parents. A recursive query walks
from the starting rows to their descendants or their ancestors; every row carries its depth, and
the walk ends at a greatest depth, so that it ends on a cycle too. Each identifier is returned
once. -/
namespace PolyQuery

/-- What to traverse. The column names are those of the table, and the name is that of the recursive
query. -/
structure Traversal where
  table : String
  start : Operand
  idColumn : String
  parentColumn : String
  toDescendants : Bool
  maxDepth : Value
  name : String
  connection : String

namespace Traversal

/-- Whether a value can be the greatest depth. -/
def isDepth : Value → Bool
  | .number n => n.isSafeInteger && !n.lt (.int 0)
  | _ => false

/-- An operand that is a column, as it is written. -/
def columnOf (name : String) (table : Option String) : Operand := .expr (Expr.reference name table)

/-- The rows to start from, at depth zero. -/
def anchor (t : Traversal) : Builder :=
  ((Builder.start (.table t.table none) t.connection).select
    [.expression (Expr.reference t.idColumn none), .expression (Expr.reference t.parentColumn none),
      .expression (.named (.raw "0" []) "depth")]).whereAmong t.idColumn
    (.values (t.start.items?.getD [t.start])) false

/-- How a row is linked to one that was reached. -/
def linkCondition (t : Traversal) : Expr :=
  if t.toDescendants then
    Expr.equals (columnOf t.parentColumn (some "t")) (columnOf t.idColumn (some t.name))
  else Expr.equals (columnOf t.idColumn (some "t")) (columnOf t.parentColumn (some t.name))

/-- The rows one step further, up to the greatest depth. -/
def step (t : Traversal) : Except Error Builder := do
  let depth := columnOf "depth" (some t.name)
  let b := (Builder.start (.table t.table (some "t")) t.connection).select
    [.expression (Expr.reference t.idColumn (some "t")),
      .expression (Expr.reference t.parentColumn (some "t")),
      .expression (.named (Expr.binaryOf .add depth (.expr (.raw "1" []))) "depth")]
  let joined ← b.join .inner (.table t.name) (.of t.linkCondition) none
  return joined.filter (.expression (Expr.binaryOf .less depth (.expr (.raw t.maxDepth.text []))))

/-- The query for the identifiers that are reached. -/
def builder (t : Traversal) : Except Error Builder := do
  if !isDepth t.maxDepth then
    let given ← readable t.maxDepth.text?
    fault (.badDepth given)
  let further ← t.step
  let body ← t.anchor.combine .union further.query true
  return (((Builder.start (.table t.name none) t.connection).withCte t.name (.combined body.plan)
    ⟨none, none, some true⟩).select [.expression (Expr.reference t.idColumn none)]).setDistinct true

end Traversal

end PolyQuery
