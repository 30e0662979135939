import PolyQuery.Expr

/-! How tightly operators bind, and where an operand needs parentheses. -/
namespace PolyQuery

namespace BinaryOp

/-- The binding strength of an operator. -/
def precedence : BinaryOp → Nat
  | .or => 1
  | .and => 2
  | .add => 5
  | .sub => 5
  | .mul => 6
  | .div => 6
  | .mod => 6
  | _ => 4

/-- A connective between conditions. -/
def isLogical : BinaryOp → Bool
  | .and => true
  | .or => true
  | _ => false

/-- An operator whose grouping does not matter. -/
def isAssociative : BinaryOp → Bool
  | .and => true
  | .or => true
  | .add => true
  | .mul => true
  | _ => false

end BinaryOp

/-- The strength of a negation. -/
def negationPrecedence : Nat := 3

/-- The strength of a predicate. -/
def predicatePrecedence : Nat := 4

/-- The strength of what needs no parentheses anywhere. -/
def atomicPrecedence : Nat := 10

/-- The binding strength of an expression as a whole. -/
def Expr.precedence : Expr → Nat
  | .binary op _ _ => op.precedence
  | .unary .not _ => negationPrecedence
  | .unary .neg _ => atomicPrecedence
  | .unary _ _ => predicatePrecedence
  | .inList _ _ _ => predicatePrecedence
  | .inQuery _ _ _ => predicatePrecedence
  | _ => atomicPrecedence

/-- A side of an operator. -/
inductive Side where
  | left
  | right
  deriving DecidableEq, Repr

/-- Whether an operator under another one needs parentheses: `AND` and `OR` always do under each
other, weaker ones do, stronger ones do not; of equal strength, comparisons do, and on the right
everything but the same associative operator. -/
def BinaryOp.needsParens (parent child : BinaryOp) (side : Side) : Bool :=
  if parent.isLogical && child.isLogical && parent != child then true
  else if child.precedence < parent.precedence then true
  else if parent.precedence < child.precedence then false
  else if child.isLogical then false
  else if child.precedence = predicatePrecedence then true
  else if side = .left then false
  else !(child == parent && child.isAssociative)

/-- Whether an operand of an operator needs parentheses. -/
def Expr.needsParens (parent : BinaryOp) (side : Side) : Expr → Bool
  | .binary op _ _ => parent.needsParens op side
  | e =>
    e.precedence < parent.precedence ||
      (e.precedence == parent.precedence && e.precedence == predicatePrecedence)

end PolyQuery
