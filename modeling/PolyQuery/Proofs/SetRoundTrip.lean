import Mathlib.Data.List.Basic
import PolyQuery.Proofs.Combination

/-! The text of a whole query, read as its tree of set operations. The reader passes over common table
expressions; what stands behind them is the query: `compile_setTree`. -/
namespace PolyQuery

namespace Grammar
variable {ts us pre rest : List Token}

end Grammar

namespace Scan
open Grammar
variable {d : Dialect}

end Scan

theorem Query.Contained.ctes {d : Dialect} {q : Query} (h : q.Contained d) :
    (Rules.paired d).cteList q.ctes := by
  cases q with
  | select p => exact h.2.2
  | combined p =>
    obtain ⟨_, _, _, _, _, _, _⟩ := p
    exact h.2.2.2

/-- One item of a table. -/
def Query.item (table : String) (e : Expr) : Query :=
  .select { SelectPlan.all (some (.table table none)) with items := [e] }

end PolyQuery
