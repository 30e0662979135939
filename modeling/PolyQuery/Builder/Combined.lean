import PolyQuery.Builder

/-! Queries combined by set operators, under construction. Ordering and pagination apply to the
combined rows; a further operator takes the combination so far as its left operand. -/
namespace PolyQuery

/-- Two queries combined; they must have the same number of columns. -/
def combine (left : Query) (operator : SetOperator) (all : Bool) (right : Query) :
    Except Error SetPlan := do
  checkSameArity left right
  return ⟨operator, all, left, right, [], none, []⟩

/-- A combination under construction, with the connection on which it will run. -/
structure CombinedBuilder where
  plan : SetPlan
  connection : String
  channel : Option Channel

namespace CombinedBuilder

/-- Adds a term to the ordering. -/
def orderBy (b : CombinedBuilder) (term : OrderTerm) : CombinedBuilder :=
  { b with plan := { b.plan with orderBy := b.plan.orderBy ++ [term] } }

/-- Sets the limit, or removes it. -/
def setLimit (b : CombinedBuilder) (v : Option Value) : CombinedBuilder :=
  { b with plan := { b.plan with
      pagination := some ⟨v, b.plan.pagination.bind Pagination.offset⟩ } }

/-- Sets the offset, or removes it. -/
def setOffset (b : CombinedBuilder) (v : Option Value) : CombinedBuilder :=
  { b with plan := { b.plan with
      pagination := some ⟨b.plan.pagination.bind Pagination.limit, v⟩ } }

/-- Combines with a further query. -/
def combine (b : CombinedBuilder) (operator : SetOperator) (other : Query) (all : Bool) :
    Except Error CombinedBuilder := do
  let plan ← PolyQuery.combine (.combined b.plan) operator all other
  return { b with plan := plan }

/-- Runs on the given channel. -/
def via (b : CombinedBuilder) (c : Channel) : CombinedBuilder := { b with channel := some c }

end CombinedBuilder

/-- Combines the query of a builder with another. -/
def Builder.combine (b : Builder) (operator : SetOperator) (other : Query) (all : Bool) :
    Except Error CombinedBuilder := do
  let plan ← PolyQuery.combine b.query operator all other
  return ⟨plan, b.connection, b.channel⟩

end PolyQuery
