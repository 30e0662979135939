import PolyQuery.Builder.Combined

/-! A query under construction of either kind, selection or combination. -/
namespace PolyQuery

/-- A selection or a combination. -/
inductive AnyBuilder where
  | selection (b : Builder)
  | combination (b : CombinedBuilder)

namespace AnyBuilder

/-- The finished query. -/
def query : AnyBuilder → Query
  | .selection b => b.query
  | .combination b => .combined b.plan

/-- The connection on which the query will run. -/
def connection : AnyBuilder → String
  | .selection b => b.connection
  | .combination b => b.connection

/-- The channel that was chosen for the query. -/
def channel : AnyBuilder → Option Channel
  | .selection b => b.channel
  | .combination b => b.channel

/-- Combines the query with another. -/
def combine (operator : SetOperator) (other : Query) (all : Bool) :
    AnyBuilder → Except Error CombinedBuilder
  | .selection b => b.combine operator other all
  | .combination b => b.combine operator other all

end AnyBuilder

end PolyQuery
