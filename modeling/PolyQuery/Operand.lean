import PolyQuery.Expr.Reflect

/-! Operands: what a caller may write where an expression is expected. A plain value becomes a
literal there, and an expression that stands where a value is expected becomes the plain object
that it is. -/
namespace PolyQuery

/-- An expression, a value, or a list or an object with expressions inside. -/
inductive Operand where
  | expr (e : Expr)
  | value (v : Value)
  | items (xs : List Operand)
  | fields (fs : List (String × Operand))

/-- The literal of a value, whose host type is the given one, else the adapter's, else the one that
the value shows. -/
def Expr.literalOf (v : Value) (hostType : Option String)
    (representation : Option Representation) (adapter : Option Adapter) : Expr :=
  .literal v
    ⟨hostType.getD ((adapter.map Adapter.hostType).getD v.hostType), representation, adapter⟩

/-- The literal of a value about which nothing else is said. -/
def Expr.ofValue (v : Value) : Expr := literalOf v none none none

namespace Operand

mutual

/-- The value that an operand is. -/
def toValue : Operand → Value
  | .expr e => e.reflect
  | .value v => v
  | .items xs => .array (itemValues xs)
  | .fields fs => .object (fieldValues fs)

/-- The values of a list. -/
def itemValues : List Operand → List Value
  | [] => []
  | x :: xs => x.toValue :: itemValues xs

/-- The fields of an object. -/
def fieldValues : List (String × Operand) → List (String × Value)
  | [] => []
  | (name, x) :: fs => (name, x.toValue) :: fieldValues fs

end

/-- The expression that an operand is; a value becomes a literal. -/
def toExpr : Operand → Expr
  | .expr e => e
  | x => Expr.ofValue x.toValue

/-- Neither a value nor an absence of one. -/
def isMissing : Operand → Bool
  | .value v => v.isMissing
  | _ => false

/-- The items of a list. -/
def items? : Operand → Option (List Operand)
  | .items xs => some xs
  | .value (.array vs) => some (vs.map .value)
  | _ => none

/-- Things in order, each under its position. -/
def byPosition {α : Type} (f : α → Operand) (xs : List α) : List (String × Operand) :=
  xs.zipIdx.map fun (x, i) => (toString i, f x)

/-- The fields of an object, or the parts of a list, a text or bytes by their positions, in
order. -/
def entries : Operand → List (String × Operand)
  | .fields fs => fs
  | .value (.object fs) => fs.map fun (name, v) => (name, .value v)
  | .items xs => byPosition id xs
  | .value (.array vs) => byPosition .value vs
  | .value (.string s) => byPosition (fun c => .value (.string (String.ofList [c]))) s.toList
  | .value (.bytes _ data) => byPosition (fun b => .value (.number (.int b.toNat))) data
  | _ => []

end Operand

end PolyQuery
