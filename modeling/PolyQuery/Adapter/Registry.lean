import PolyQuery.Adapter.Builtin

/-! A registry of adapters. It knows the adapter for each host type and representation, the
preferred adapter of each host type, and the adapters that recognise values. A conversion is
resolved by an explicit choice, then by what the dialect suggests, then by the preference of the
adapter. -/
namespace PolyQuery

/-- Adapters by host type and representation, preferred adapters by host type, and adapters that
recognise values, the latest first. Pairs and host types stand in the order in which they were
entered. -/
structure Registry where
  pairs : List ((String × Representation) × Adapter)
  preferred : List (String × Adapter)
  detectors : List Adapter

/-- An adapter and a representation that override what would be chosen. -/
structure Override where
  adapter : Option Adapter
  representation : Option Representation

/-- Nothing is overridden. -/
def Override.nothing : Override := ⟨none, none⟩

/-- Whether anything is overridden. -/
def Override.isGiven (o : Override) : Bool := o.adapter.isSome || o.representation.isSome

/-- A conversion that was chosen: the adapter, none where values pass unchanged, and the
representation, which is missing only where an adapter lists none. -/
structure Resolved where
  adapter : Option Adapter
  representation : Option Representation

namespace Resolved

/-- Values pass unchanged. -/
def unchanged : Resolved := ⟨none, some .native⟩

/-- The conversion in a direction, with options for the adapter. -/
def convert (r : Resolved) (direction : Direction) (options : Option Value) (v : Value) :
    Except Error Value :=
  match r.adapter with
  | some a => a.conversion direction v r.representation options
  | none => .ok v

end Resolved

namespace Registry

/-- A registry without adapters. -/
def empty : Registry := ⟨[], [], []⟩

/-- Sets the value of a key: a key that is there keeps its place. -/
def set {κ α : Type} [DecidableEq κ] (key : κ) (value : α) : List (κ × α) → List (κ × α)
  | [] => [(key, value)]
  | (k, v) :: rest => if k = key then (k, value) :: rest else (k, v) :: set key value rest

/-- Registers an adapter for each representation that it lists, as the preferred one of its host
type, and as the only one that recognises values of that type, if it recognises any. -/
def register (r : Registry) (a : Adapter) : Registry where
  pairs := a.representations.foldl (fun acc rep => set (a.hostType, rep) a acc) r.pairs
  preferred := set a.hostType a r.preferred
  detectors :=
    if a.detects.isSome then a :: r.detectors.filter (fun d => d.hostType != a.hostType)
    else r.detectors

/-- A registry with the adapters that every registry starts with. -/
def standard : Registry := Adapter.builtins.foldl register empty

/-- A host type, or one whose name continues it behind a colon. -/
def covers (hostType other : String) : Bool :=
  other == hostType || (hostType.toList ++ [':']).isPrefixOf other.toList

/-- Removes the adapter of one representation of a host type. -/
def erasePair (r : Registry) (hostType : String) (representation : Representation) : Registry :=
  { r with pairs := r.pairs.filter fun p => p.1 != (hostType, representation) }

/-- Removes the adapters of a host type and of those whose names continue it behind a colon; the
latter stay preferred. -/
def erase (r : Registry) (hostType : String) : Registry where
  pairs := r.pairs.filter fun p => !covers hostType p.1.1
  preferred := r.preferred.filter fun p => p.1 != hostType
  detectors := r.detectors.filter fun d => d.hostType != hostType

/-- The adapter for a host type and a representation. -/
def get? (r : Registry) (hostType : String) (representation : Representation) : Option Adapter :=
  r.pairs.lookup (hostType, representation)

/-- The preferred adapter of a host type. -/
def preferred? (r : Registry) (hostType : String) : Option Adapter := r.preferred.lookup hostType

/-- The pair that the word for a host type and another word name together. The two are joined by a
colon, and no word for a representation holds one, so that is what stands behind the last colon. -/
def pairNamed? (hostType word : String) : Option (String × Representation) :=
  let reversed := (hostType ++ ":" ++ word).toList.reverse
  let tail := reversed.takeWhile (· != ':')
  (Representation.ofName? (String.ofList tail.reverse)).map fun representation =>
    (String.ofList (reversed.drop (tail.length + 1)).reverse, representation)

/-- The adapter for the pair that two words name. -/
def named? (r : Registry) (hostType word : String) : Option Adapter :=
  (pairNamed? hostType word).bind fun (h, representation) => r.get? h representation

/-- Whether there is an adapter for a host type, and for a second word unless it is empty. -/
def knows (r : Registry) (hostType word : String) : Bool :=
  if word = "" then (r.preferred? hostType).isSome else (r.named? hostType word).isSome

/-- Removes the adapters of a host type, or that of one pair unless the second word is empty. -/
def remove (r : Registry) (hostType word : String) : Registry :=
  if word = "" then r.erase hostType
  else
    match pairNamed? hostType word with
    | some (h, representation) => r.erasePair h representation
    | none => r

/-- Whether two adapters are one: by their names and by what they convert. -/
def isSameAdapter (a b : Adapter) : Bool :=
  a.name == b.name && a.hostType == b.hostType && a.representations == b.representations

/-- Appends an adapter to a list unless it is there. -/
def addOnce (acc : List Adapter) (a : Adapter) : List Adapter :=
  if acc.any (isSameAdapter a) then acc else acc ++ [a]

/-- All adapters, each once. -/
def adapters (r : Registry) : List Adapter := (r.pairs.map Prod.snd).foldl addOnce []

/-- The host type of a value: that of the first adapter that recognises it, else the one that the
value shows. -/
def detect (r : Registry) (v : Value) : String :=
  match r.detectors.find? fun a => (a.detects.map (· v)).getD false with
  | some a => a.hostType
  | none => v.hostType

/-- The conversion by an adapter that was chosen explicitly: it must list the representation. -/
def resolveChosen (hostType : Option String) (a : Adapter)
    (representation : Option Representation) : Except Error Resolved :=
  match representation.or a.representations.head? with
  | some .native => .ok .unchanged
  | some rep =>
    if a.representations.contains rep then .ok ⟨some a, some rep⟩
    else .error (.unregisteredType
      (some (hostType.getD "undefined" ++ " (" ++ a.name ++ ")")) (some rep))
  | none =>
    .error (.unregisteredType (some (hostType.getD "undefined" ++ " (" ++ a.name ++ ")")) none)

/-- Whether every driver takes the values of a host type as they are. -/
def isNative (hostType : Option String) : Bool := (hostType.map isNativeType).getD false

/-- Chooses the conversion for a host type, given what the dialect suggests. A host type that
drivers take as it is needs no adapter unless a representation is demanded. -/
def resolve (r : Registry) (hostType : Option String)
    (suggest : String → Option Representation) (override : Override) : Except Error Resolved :=
  match override.adapter with
  | some a => resolveChosen hostType a override.representation
  | none =>
    match override.representation.or (hostType.bind suggest) with
    | some .native => .ok .unchanged
    | some rep =>
      match hostType.bind fun h => r.get? h rep with
      | some a => .ok ⟨some a, some rep⟩
      | none =>
        if isNative hostType && override.representation.isNone then .ok .unchanged
        else .error (.unregisteredType hostType (some rep))
    | none =>
      if isNative hostType then .ok .unchanged
      else
        match hostType.bind r.preferred? with
        | some a => .ok ⟨some a, a.representations.head?⟩
        | none => .error (.unregisteredType hostType none)

end Registry

end PolyQuery
