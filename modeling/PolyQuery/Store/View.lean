import PolyQuery.Error
import PolyQuery.Json
import PolyQuery.Store

/-! What a reader of a value sees. A view follows records into records and shows each record that it
is inside of already as the number of steps up to it, so that records that point at each other have
a finite view. A plain copy follows only what listings show, and there is none when a record
contains itself. -/
namespace PolyQuery

/-- A view of a value. An object shows the properties that listings show, and apart from them the
others; `up n` is the object that is `n` objects further up. -/
inductive View where
  | leaf (v : Value)
  | list (items : List View)
  | object (visible hidden : List (String × View))
  | up (steps : Nat)

namespace Store

mutual

/-- Applies a function to the records in a value that stand in lists and objects, in order; the
second function wraps an object of fields. -/
def mapValue {β : Type} (leaf : Value → β) (list : List β → β) (object : List (String × β) → β)
    (onRecord : Nat → Store → β × Store) : Value → Store → β × Store
  | .record id, s => onRecord id s
  | .array items, s =>
    let (vs, s) := mapItems leaf list object onRecord items s
    (list vs, s)
  | .object fields, s =>
    let (fs, s) := mapFields leaf list object onRecord fields s
    (object fs, s)
  | v, s => (leaf v, s)

/-- The same for items in order. -/
def mapItems {β : Type} (leaf : Value → β) (list : List β → β) (object : List (String × β) → β)
    (onRecord : Nat → Store → β × Store) : List Value → Store → List β × Store
  | [], s => ([], s)
  | v :: vs, s =>
    let (x, s) := mapValue leaf list object onRecord v s
    let (xs, s) := mapItems leaf list object onRecord vs s
    (x :: xs, s)

/-- The same for fields in order. -/
def mapFields {β : Type} (leaf : Value → β) (list : List β → β) (object : List (String × β) → β)
    (onRecord : Nat → Store → β × Store) :
    List (String × Value) → Store → List (String × β) × Store
  | [], s => ([], s)
  | (name, v) :: fs, s =>
    let (x, s) := mapValue leaf list object onRecord v s
    let (xs, s) := mapFields leaf list object onRecord fs s
    ((name, x) :: xs, s)

end

/-- Reads properties of a record one after another and looks at each value with `see`. -/
def seeAll {β : Type} (see : Value → Store → β × Store) (id : Nat) :
    List String → Store → List (String × β) × Store
  | [], s => ([], s)
  | name :: rest, s =>
    let (v, s) := s.read id name
    let (x, s) := see v s
    let (xs, s) := seeAll see id rest s
    ((name, x) :: xs, s)

/-- The view of a value inside the given records, the innermost first. Each step goes into a record
that is not among them, so `fuel` need only be greater than their number can become. -/
def viewWithin : Nat → List Nat → Value → Store → View × Store
  | 0, _, v, s => (.leaf v, s)
  | fuel + 1, outer, v, s =>
    mapValue .leaf .list (fun fs => .object fs [])
      (fun id s =>
        if outer.contains id then (.up (outer.idxOf id + 1), s)
        else
          let r := s.record id
          let (visible, s) := seeAll (viewWithin fuel (id :: outer)) id r.visibleNames s
          let (hidden, s) := seeAll (viewWithin fuel (id :: outer)) id r.hiddenNames s
          (.object visible hidden, s))
      v s

/-- The view of a value. -/
def view (s : Store) (v : Value) : View × Store := viewWithin (s.records.size + 2) [] v s

/-- Fields whose values are all there. -/
def allFields (fields : List (String × Option Value)) : Option Value :=
  let present : Option (List (String × Value)) :=
    fields.mapM fun (name, v) => v.map fun v => (name, v)
  present.map .object

/-- A value inside the given records with the records in it as plain objects, none where a record
contains itself. Each step goes into a record that is not among those outside. -/
def plainWithin : Nat → List Nat → Value → Store → Option Value × Store
  | 0, _, _, s => (none, s)
  | fuel + 1, outer, v, s =>
    mapValue some (fun vs => (vs.mapM id).map .array) allFields
      (fun id s =>
        if outer.contains id then (none, s)
        else
          let (fields, s) := seeAll (plainWithin fuel (id :: outer)) id (s.record id).visibleNames s
          (allFields fields, s))
      v s

/-- The plain copy of a value, none where a record contains itself. -/
def plain? (s : Store) (v : Value) : Option Value × Store :=
  plainWithin (s.records.size + 2) [] v s

/-- The JSON text of a value with the records in it, none for a value that has none. -/
def jsonText (s : Store) (v : Value) : Except Error (Option String) × Store :=
  match s.plain? v with
  | (some plain, s) => ((Json.text? plain).mapError fun _ => .noJsonText, s)
  | (none, s) => (.error .noJsonText, s)

mutual

/-- The value with its plain objects made records, so that relations can be attached to them. -/
def adopt : Value → Store → Value × Store
  | .array items, s =>
    let (vs, s) := adoptItems items s
    (.array vs, s)
  | .object fields, s =>
    let (fs, s) := adoptFields fields s
    let (id, s) := s.add (.ofRow fs)
    (.record id, s)
  | v, s => (v, s)

/-- The same for items. -/
def adoptItems : List Value → Store → List Value × Store
  | [], s => ([], s)
  | v :: vs, s =>
    let (x, s) := adopt v s
    let (xs, s) := adoptItems vs s
    (x :: xs, s)

/-- The same for fields. -/
def adoptFields : List (String × Value) → Store → List (String × Value) × Store
  | [], s => ([], s)
  | (name, v) :: fs, s =>
    let (x, s) := adopt v s
    let (xs, s) := adoptFields fs s
    ((name, x) :: xs, s)

end

end Store

end PolyQuery
