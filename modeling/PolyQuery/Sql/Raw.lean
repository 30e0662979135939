import PolyQuery.Sql.Fragment

/-! Raw statement text with `?` for its values. -/
namespace PolyQuery.Raw

/-- The text cut at every `?` outside single quotes; `quoted` says whether it begins inside. -/
def split (quoted : Bool) : List Char → List (List Char)
  | [] => [[]]
  | c :: cs =>
    if c = '?' ∧ quoted = false then [] :: split quoted cs
    else
      let rest := split (if c = '\'' then !quoted else quoted) cs
      match rest with
      | p :: ps => (c :: p) :: ps
      | [] => [[c]]

/-- The pieces with a bound value between each two. -/
def interleave : List (List Char) → List Value → Fragment
  | p :: ps, v :: vs =>
    Fragment.text (String.ofList p) ++ Fragment.bind (.plain v) ++ interleave ps vs
  | p :: _, [] => Fragment.text (String.ofList p)
  | [], _ => Fragment.empty

/-- The raw text with its values, which must be as many as its places for them. -/
def fragment (sql : String) (parameters : List Value) : Except Error Fragment :=
  let pieces := split false sql.toList
  if pieces.length - 1 = parameters.length then .ok (interleave pieces parameters)
  else fault (.rawParameters (pieces.length - 1) parameters.length)

end PolyQuery.Raw
