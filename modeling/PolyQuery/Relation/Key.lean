import PolyQuery.Store.View

/-! Keys by which parents and children are matched. A key is a text, and values match when their
keys are the same: drivers differ on whether they return an identifier as a number, a big integer
or a text, and these have one key. -/
namespace PolyQuery

/-- The key of a value, none for nothing. Dates, bytes and objects have keys of their own kinds; an
invalid date, or an object without JSON text, is an error. -/
def matchKey (v : Value) (s : Store) : Except Error (Option String) × Store :=
  match v with
  | .null => (.ok none, s)
  | .undefined => (.ok none, s)
  | .date (some ms) => (.ok (some ("date:" ++ Calendar.isoText ms)), s)
  | .date none => (.error .invalidDate, s)
  | .bytes _ data => (.ok (some ("bytes:" ++ String.ofList (Value.hexChars data))), s)
  | .bool b => (.ok (some (Value.bool b).text), s)
  | .number n => (.ok (some n.text), s)
  | .bigint i => (.ok (some (toString i)), s)
  | .string t => (.ok (some t), s)
  | .callable => (.ok (some Value.callable.text), s)
  | v =>
    match s.jsonText v with
    | (.ok text, s) => (.ok (some ("json:" ++ text.getD "undefined")), s)
    | (.error e, s) => (.error e, s)

/-- The first value of each key, in order of first occurrence. -/
def addKey (found : List (String × Value)) (key : String) (v : Value) : List (String × Value) :=
  if found.any (fun f => f.1 == key) then found else found ++ [(key, v)]

/-- The children of each key, in order. -/
def addToGroup (groups : List (String × List Nat)) (key : String) (child : Nat) :
    List (String × List Nat) :=
  match groups with
  | [] => [(key, [child])]
  | (k, members) :: rest =>
    if k = key then (k, members ++ [child]) :: rest else (k, members) :: addToGroup rest key child

end PolyQuery
