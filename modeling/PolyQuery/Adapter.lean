import PolyQuery.Error

/-! Adapters: conversions between values of one host type and their representations in columns. -/
namespace PolyQuery

/-- A conversion for a target representation, which is missing only where an adapter lists none,
with the options given for it. -/
abbrev Conversion := Value → Option Representation → Option Value → Except Error Value

/-- An adapter for a host type. Its representations stand in order of preference, and `detects`,
where there is one, recognises values of the host type. The name identifies the adapter. -/
structure Adapter where
  name : String
  hostType : String
  representations : List Representation
  toDatabase : Conversion
  fromDatabase : Conversion
  detects : Option (Value → Bool)

instance : Repr Adapter where
  reprPrec a _ := a.name

/-- The conversion in a direction. -/
def Adapter.conversion (a : Adapter) : Direction → Conversion
  | .toDatabase => a.toDatabase
  | .fromDatabase => a.fromDatabase

/-- The error of an adapter that cannot convert a value. -/
def Adapter.refuse {α : Type} (name : String) (v : Value) (target : String) : Except Error α :=
  .error (.unconvertible name v.kindWord target)

/-- The word for a target that may be missing. -/
def targetWord (target : Option Representation) : String :=
  match target with
  | some r => r.name
  | none => "undefined"

/-- Host types whose values every driver takes as they are. -/
def isNativeType (hostType : String) : Bool :=
  hostType == "string" || hostType == "number" || hostType == "null"

end PolyQuery
