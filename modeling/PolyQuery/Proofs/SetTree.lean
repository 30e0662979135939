import PolyQuery.Proofs.Spelling

/-! The grammar of set operations, as a reader of tokens. The operands of one level are read from left
to right, and an operand that is a query of its own stands in brackets, on SQLite behind
`SELECT * FROM`. The ordering and the page of a query are its last clauses, or the selection that is
put around it. Selections, orderings and pages are kept as tokens. -/
namespace PolyQuery

/-- A tree of set operations over selections. Every query in it has the tokens of its ordering and of
its page, none where it has no such clause. -/
inductive SetTree where
  | leaf (selection order page : List Token)
  | node (operator : SetOperator) (all : Bool) (left right : SetTree) (order page : List Token)
  deriving DecidableEq, Repr

/-- The tree with clauses of its own, unless it has some already. -/
def SetTree.attach (order page : List Token) : SetTree → Option SetTree
  | .leaf selection [] [] => some (.leaf selection order page)
  | .node operator all left right [] [] => some (.node operator all left right order page)
  | t => if order.isEmpty && page.isEmpty then some t else none

namespace Token

/-- The word before a source, in any letter case. -/
def isFrom : Token → Bool
  | word s => Text.upper s == "FROM"
  | _ => false

/-- The first word of a page that stands behind its query. -/
def isPage : Token → Bool
  | word s => ["LIMIT", "OFFSET"].contains (Text.upper s)
  | _ => false

/-- The first word of an ordering or of such a page. -/
def isSection : Token → Bool
  | word s => Text.upper s == "ORDER" || isPage (word s)
  | _ => false

/-- The set operator that a token is. -/
def setOperator? : Token → Option SetOperator
  | key .union => some .union
  | key .intersect => some .intersect
  | key .except => some .except
  | _ => none

/-- The word behind `SELECT` that asks for the first rows, where it has this meaning. -/
def isTop (d : Dialect) : Token → Bool
  | word s => d.paginationStyle = .top && Text.upper s == "TOP"
  | _ => false

/-- A word that no selection has outside of brackets, but for its head. -/
def isBreak (d : Dialect) (t : Token) : Bool := t.isSection || t.setOperator?.isSome || t.isTop d

/-- A word that no part of a selection has outside of brackets. -/
def isClause (d : Dialect) (t : Token) : Bool := t.isFrom || t.isBreak d

/-- The number of open brackets behind a token. -/
def nest (k : Nat) : Token → Nat
  | opening => k + 1
  | closing => k - 1
  | _ => k

end Token

namespace Grammar

/-- The tokens before the first one of a class outside of brackets, and the rest. -/
def cut (p : Token → Bool) : Nat → List Token → List Token × List Token
  | _, [] => ([], [])
  | k, t :: ts =>
    if k = 0 ∧ t.isBracket = false ∧ p t = true then ([], t :: ts)
    else (t :: (cut p (t.nest k) ts).1, (cut p (t.nest k) ts).2)

/-- The tokens before the first set operator outside of brackets, and those behind each one. -/
def segments : Nat → List Token → List Token × List (SetOperator × List Token)
  | _, [] => ([], [])
  | k, t :: ts =>
    match if k = 0 then t.setOperator? else none with
    | some op => ([], (op, (segments k ts).1) :: (segments k ts).2)
    | none => (t :: (segments (t.nest k) ts).1, (segments (t.nest k) ts).2)

/-- What follows the given tokens. -/
def behind? : List Token → List Token → Option (List Token)
  | [], ts => some ts
  | x :: xs, t :: ts => if x = t then behind? xs ts else none
  | _ :: _, [] => none

/-- The words before a query in a selection of all its rows. -/
def selectFrom : List Token := [.key .select, .mark "*", .word "FROM", .opening]

/-- The words before a query in a selection that numbers its rows. -/
def rowNumbers : List Token :=
  [.key .select, .word "q_", .dot, .mark "*", .comma, .word "ROWNUM", .word "rn_", .word "FROM",
    .opening]

section
variable (d : Dialect) (next : List Token → Option SetTree)

/-- The words before an operand that is a query of its own. -/
def opened : List Token := if d.parenthesizesOperands then [.opening] else selectFrom

/-- The query that an operand is, if it is no selection. -/
def inside? (ts : List Token) : Option (List Token) := do
  let us ← behind? (opened d) ts
  let (inside, rest) ← close 0 us
  if rest.isEmpty then some inside else none

/-- An operand. -/
def setOperand (ts : List Token) : Option SetTree :=
  match inside? d ts with
  | some us => next us
  | none => if ts.head? = some (.key .select) then some (.leaf ts [] []) else none

/-- A tree with one more operand on its right. -/
def link (t : SetTree) (part : SetOperator × List Token) : Option SetTree :=
  match behind? [.word "ALL"] part.2 with
  | some ts => (setOperand d next ts).map fun u => .node part.1 true t u [] []
  | none => (setOperand d next part.2).map fun u => .node part.1 false t u [] []

/-- Operands with set operators between them. Only without parentheses do more than two of them
stand side by side. -/
def combination (ts : List Token) : Option SetTree :=
  if d.parenthesizesOperands = true ∧ 1 < (segments 0 ts).2.length then none
  else (setOperand d next (segments 0 ts).1).bind fun t => (segments 0 ts).2.foldlM (link d next) t

end

/-- A query taken apart. -/
structure Sections where
  body : List Token
  order : List Token
  page : List Token

/-- What stands for an ordering where a page must have one. -/
def anyOrder : List Token := [.opening, .key .select, .key .null, .closing]

/-- A query with its clauses behind it. -/
def inPlace (ts : List Token) : Sections :=
  let p := cut Token.isSection 0 ts
  match behind? [.word "ORDER", .word "BY"] p.2 with
  | some us =>
    let r := cut Token.isPage 0 us
    ⟨p.1, if r.1 = anyOrder then [] else r.1, r.2⟩
  | none => ⟨p.1, [], p.2⟩

/-- A query inside a selection by row numbers, and the bounds of the numbers. -/
def numbered? (ts : List Token) : Option (List Token × List Token) := do
  let us ← behind? selectFrom ts
  let (inside, rest) ← close 0 us
  match behind? [.word "WHERE", .word "ROWNUM"] rest with
  | some upper => some (inside, upper)
  | none => do
    let lower ← behind? [.word "WHERE", .word "rn_"] rest
    let vs ← behind? rowNumbers inside
    let (core, between) ← close 0 vs
    let upper ← behind? [.word "q_"] between
    match behind? [.word "WHERE", .word "ROWNUM"] upper with
    | some upper => some (core, upper ++ lower)
    | none => if upper.isEmpty then some (core, lower) else none

/-- A query inside a selection of its first rows, with their number and what follows. -/
def topped? (ts : List Token) : Option (Token × List Token × List Token) := do
  let us ← behind? [.key .select, .word "TOP"] ts
  let n ← us.head?
  let vs ← behind? [.mark "*", .word "FROM", .opening] us.tail
  let (inside, rest) ← close 0 vs
  let rest ← behind? [.word "AS", .word "q_"] rest
  some (n, inside, rest)

/-- A selection whose own head asks for its first rows. -/
def headed (s : Sections) : Sections :=
  match s.body with
  | .key .select :: .word "TOP" :: .word n :: ts =>
    { s with body := .key .select :: ts, page := [.word "TOP", .word n] }
  | .key .select :: .key .distinct :: .word "TOP" :: .word n :: ts =>
    { s with body := .key .select :: .key .distinct :: ts, page := [.word "TOP", .word n] }
  | _ => s

/-- The parts of a query in the style of the dialect. -/
def sections (d : Dialect) (ts : List Token) : Sections :=
  match d.paginationStyle with
  | .limitOffset => inPlace ts
  | .offsetFetch => inPlace ts
  | .rownum =>
    match numbered? ts with
    | some (inside, page) => { inPlace inside with page := page }
    | none => inPlace ts
  | .top =>
    match topped? ts with
    | some (n, inside, rest) =>
      if (inPlace rest).body.isEmpty then ⟨inside, (inPlace rest).order, [.word "TOP", n]⟩
      else headed (inPlace ts)
    | none => headed (inPlace ts)

/-- A query. -/
def readQuery (d : Dialect) : Nat → List Token → Option SetTree
  | 0, _ => none
  | fuel + 1, ts =>
    (combination d (readQuery d fuel) (sections d ts).body).bind
      (SetTree.attach (sections d ts).order (sections d ts).page)

end Grammar

end PolyQuery
