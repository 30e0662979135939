import PolyQuery.Proofs.Grouping

/-! The grammar of expressions, as a reader of tokens. An expression of a level is read up to the
first token that binds less tightly: `OR` at 1, `AND` at 2, `NOT` at 3, predicates at 4, `+` and `-`
at 5, `*`, `/` and `%` at 6, a sign at 7, an operand at 8. Binary operators group to the left, but
predicates do not group at all. -/
namespace PolyQuery

namespace Grammar

/-- Reads a tree off the front of some tokens, and leaves the rest. -/
abbrev Reader := List Token → Option (Tree × List Token)

/-- What stands before the bracket that closes an open one, and what stands behind it; `k` more
brackets have been opened since. -/
def close : Nat → List Token → Option (List Token × List Token)
  | _, [] => none
  | k, .opening :: ts => (close (k + 1) ts).map fun p => (.opening :: p.1, p.2)
  | 0, .closing :: ts => some ([], ts)
  | k + 1, .closing :: ts => (close k ts).map fun p => (.closing :: p.1, p.2)
  | k, t :: ts => (close k ts).map fun p => (t :: p.1, p.2)

/-- Whether a word of a query stands outside of brackets. -/
def announces : Nat → List Token → Bool
  | _, [] => false
  | k, .opening :: ts => announces (k + 1) ts
  | k, .closing :: ts => announces (k - 1) ts
  | 0, .key w :: ts => w.isOfQuery || announces 0 ts
  | k, _ :: ts => announces k ts

/-- The operator between two operands that some tokens begin with. -/
def infix? : List Token → Option (BinaryOp × List Token)
  | .key .or :: ts => some (.or, ts)
  | .key .and :: ts => some (.and, ts)
  | .key .like :: ts => some (.like, ts)
  | .key .not :: .key .like :: ts => some (.notLike, ts)
  | .mark "=" :: ts => some (.equal, ts)
  | .mark "<>" :: ts => some (.notEqual, ts)
  | .mark "<" :: ts => some (.less, ts)
  | .mark "<=" :: ts => some (.lessEqual, ts)
  | .mark ">" :: ts => some (.greater, ts)
  | .mark ">=" :: ts => some (.greaterEqual, ts)
  | .mark "+" :: ts => some (.add, ts)
  | .mark "-" :: ts => some (.sub, ts)
  | .mark "*" :: ts => some (.mul, ts)
  | .mark "/" :: ts => some (.div, ts)
  | .mark "%" :: ts => some (.mod, ts)
  | _ => none

/-- A part of a dotted name, none for a star. -/
def part? : Token → Option (Option String)
  | .word s => some (some s)
  | .name s => some (some s)
  | .mark "*" => some none
  | _ => none

/-- A dotted name. -/
def path : List Token → Option (List (Option String) × List Token)
  | t :: .dot :: ts => (part? t).bind fun p => (path ts).map fun ps => (p :: ps.1, ps.2)
  | t :: ts => (part? t).map fun p => ([p], ts)
  | [] => none

section
variable (next : Nat → Reader)

/-- Operators of a level with their right operands, hung behind the tree before them. -/
def chain (n : Nat) : Nat → Tree → Reader
  | 0, _, _ => none
  | fuel + 1, t, ts =>
    match infix? ts with
    | some (op, us) =>
      if op.precedence = n then
        (next (n + 1) us).bind fun p => chain n fuel (.binary op t p.1) p.2
      else some (t, ts)
    | none => some (t, ts)

/-- All of some tokens. -/
def whole (ts : List Token) : Option Tree :=
  match next 1 ts with
  | some (t, []) => some t
  | _ => none

/-- Expressions, each behind a comma. -/
def behindCommas : Nat → List Token → Option (List Tree)
  | _, [] => some []
  | fuel + 1, .comma :: ts =>
    (next 1 ts).bind fun p => (behindCommas fuel p.2).map fun us => p.1 :: us
  | _, _ => none

/-- Expressions with commas between them. -/
def list (ts : List Token) : Option (List Tree) :=
  if ts.isEmpty then some []
  else (next 1 ts).bind fun p => (behindCommas next p.2.length p.2).map fun us => p.1 :: us

/-- The parts of a case distinction up to its end. -/
def caseParts : Nat → List Token → Option (List Tree × List Token)
  | _, .key .end_ :: ts => some ([], ts)
  | _, .key .else_ :: ts =>
    match next 1 ts with
    | some (t, .key .end_ :: rest) => some ([t], rest)
    | _ => none
  | fuel + 1, .key .when_ :: ts =>
    match next 1 ts with
    | some (t, .key .then_ :: us) =>
      (next 1 us).bind fun p =>
        (caseParts fuel p.2).map fun ps => (t :: p.1 :: ps.1, ps.2)
    | _ => none
  | _, _ => none

/-- What stands behind an opening bracket: a query, or an expression in parentheses. -/
def bracketed (ts : List Token) : Option (Tree × List Token) :=
  (close 0 ts).bind fun p =>
    if announces 0 p.1 then some (.query p.1, p.2)
    else (whole next p.1).map fun t => (t, p.2)

/-- The arguments of a call behind its opening bracket. -/
def arguments (name : String) (ts : List Token) : Option (Tree × List Token) :=
  (close 0 ts).bind fun p =>
    match p.1 with
    | .key .distinct :: inside =>
      (list next inside).map fun us => (.call name us true, p.2)
    | inside => (list next inside).map fun us => (.call name us false, p.2)

/-- What stands behind `IN` and an opening bracket. -/
def membership (t : Tree) (negated : Bool) (ts : List Token) : Option (Tree × List Token) :=
  (close 0 ts).bind fun p =>
    if announces 0 p.1 then some (.inQuery t p.1 negated, p.2)
    else (list next p.1).map fun us => (.inList t us negated, p.2)

/-- An operand. -/
def operand : Reader
  | .hole :: ts => some (.hole, ts)
  | .opening :: ts => bracketed next ts
  | .key .case_ :: ts => (caseParts next ts.length ts).map fun p => (.cases p.1, p.2)
  | .word name :: .opening :: ts => arguments next name ts
  | ts => (path ts).map fun p => (.path p.1, p.2)

/-- An operand with its sign. -/
def signed : Reader
  | .mark "-" :: ts => (next 7 ts).map fun p => (.unary .neg p.1, p.2)
  | ts => next 8 ts

/-- What makes a predicate of the operand before it, if anything does. -/
def predicateTail (t : Tree) : Reader
  | .key .is :: .key .null :: ts => some (.unary .isNull t, ts)
  | .key .is :: .key .not :: .key .null :: ts => some (.unary .isNotNull t, ts)
  | .key .in_ :: .opening :: ts => membership next t false ts
  | .key .not :: .key .in_ :: .opening :: ts => membership next t true ts
  | ts =>
    match infix? ts with
    | some (op, us) =>
      if op.precedence = predicatePrecedence then
        (next 5 us).map fun p => (.binary op t p.1, p.2)
      else some (t, ts)
    | none => some (t, ts)

/-- A predicate, or what stands alone in its place. -/
def predicate : Reader
  | .key .exists_ :: ts => (next 8 ts).map fun p => (.unary .exists_ p.1, p.2)
  | .key .not :: .key .exists_ :: ts => (next 8 ts).map fun p => (.unary .notExists p.1, p.2)
  | ts => (next 5 ts).bind fun p => predicateTail next p.1 p.2

/-- A negation, or what stands alone in its place. -/
def negation : Reader
  | .key .not :: .key .exists_ :: ts => next 4 (.key .not :: .key .exists_ :: ts)
  | .key .not :: ts => (next 3 ts).map fun p => (.unary .not p.1, p.2)
  | ts => next 4 ts

end

/-- An expression of a level. -/
def level : Nat → Nat → Reader
  | 0, _ => fun _ => none
  | fuel + 1, 3 => negation (level fuel)
  | fuel + 1, 4 => predicate (level fuel)
  | fuel + 1, 7 => signed (level fuel)
  | fuel + 1, 8 => operand (level fuel)
  | fuel + 1, n => fun ts =>
    (level fuel (n + 1) ts).bind fun p => chain (level fuel) n (p.2.length + 1) p.1 p.2

/-- The steps that suffice to read tokens at a level. -/
def enough (n : Nat) (ts : List Token) : Nat := 10 * ts.length + (9 - n)

/-- A whole text, read as an expression. -/
def read (d : Dialect) (cs : List Char) : Option Tree :=
  whole (level (enough 1 (Scan.tokens d cs))) (Scan.tokens d cs)

end Grammar

end PolyQuery
