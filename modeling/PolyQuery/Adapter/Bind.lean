import PolyQuery.Adapter.Registry
import PolyQuery.Sql.Fragment

/-! From the bindings of a compiled statement to what a driver takes: each value is converted by
the adapter that the registry resolves for it. -/
namespace PolyQuery

/-- The override in a hint. -/
def Hint.override (h : Hint) : Override := ⟨h.adapter, h.representation⟩

/-- The host type under which a binding is converted; an unknown one is detected. -/
def Binding.boundType (b : Binding) (r : Registry) : String :=
  if b.hint.hostType = "unknown" then r.detect b.value else b.hint.hostType

/-- The value for the driver. Nothing stays nothing, and values that every driver takes pass
unless the hint overrides it. -/
def Binding.bind (b : Binding) (d : Dialect) (r : Registry) : Except Error Value :=
  if b.value.isMissing then .ok .null
  else
    let hostType := b.boundType r
    if !b.hint.override.isGiven && isNativeType hostType then .ok b.value
    else do
      let resolved ← r.resolve (some hostType) d.suggestRepresentation b.hint.override
      resolved.convert .toDatabase none b.value

/-- The values for the driver, in order; the first failure ends it. -/
def bindAll (bindings : List Binding) (d : Dialect) (r : Registry) : Except Error (List Value) :=
  bindings.mapM fun b => b.bind d r

end PolyQuery
