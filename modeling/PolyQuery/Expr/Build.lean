import PolyQuery.Operand

/-! The constructors of expressions that callers use. They take operands, so that plain values may
stand for literals, and say in one place how a qualified name is split, how a comparison with
nothing is written and what the named functions are called. -/
namespace PolyQuery.Expr

/-- The parts of a name around its last point: what stands before it, if it is there, and after
it. -/
def splitAtLastPoint (name : String) : Option (String × String) :=
  let reversed := name.toList.reverse
  let tail := reversed.takeWhile (· != '.')
  match reversed.drop tail.length with
  | _ :: rest => some (String.ofList rest.reverse, String.ofList tail.reverse)
  | [] => none

/-- A column. Without a table, a name such as `posts.title` is split at its last point, unless
nothing stands before it. -/
def reference (name : String) (table : Option String) : Expr :=
  match table with
  | some t => .column (some t) name none
  | none =>
    match splitAtLastPoint name with
    | some (before, after) =>
      if before = "" then .column none name none else .column (some before) after none
    | none => .column none name none

/-- The same column under another name in the rows. -/
def shownAs (name : String) : Expr → Expr
  | .column table unshown _ => .column table unshown (some name)
  | e => e

/-- Two operands with an operator. -/
def binaryOf (op : BinaryOp) (left right : Operand) : Expr :=
  .binary op left.toExpr right.toExpr

/-- An operand with an operator. -/
def unaryOf (op : UnaryOp) (operand : Operand) : Expr := .unary op operand.toExpr

/-- Equality; with nothing on the right it is `IS NULL`. -/
def equals (left right : Operand) : Expr :=
  if right.isMissing then unaryOf .isNull left else binaryOf .equal left right

/-- Inequality; with nothing on the right it is `IS NOT NULL`. -/
def differs (left right : Operand) : Expr :=
  if right.isMissing then unaryOf .isNotNull left else binaryOf .notEqual left right

/-- A chain of operands of one operator, grouped to the left. -/
def chain (op : BinaryOp) (first : Expr) (rest : List Expr) : Expr :=
  rest.foldl (fun acc next => .binary op acc next) first

/-- All conditions of a list, if there are any. -/
def conjunction? : List Expr → Option Expr
  | [] => none
  | first :: rest => some (chain .and first rest)

/-- A value between two bounds, both included. -/
def between (operand low high : Operand) : Expr :=
  chain .and (binaryOf .greaterEqual operand low) [binaryOf .lessEqual operand high]

/-- Membership in a list. -/
def memberOf (operand : Operand) (values : List Operand) (negated : Bool) : Expr :=
  .inList operand.toExpr (values.map Operand.toExpr) negated

/-- A distinction of cases. -/
def casesOf (branches : List (Expr × Operand)) (otherwise : Operand) : Expr :=
  .cases (branches.map fun (condition, result) => ⟨condition, result.toExpr⟩)
    (match otherwise with
      | .value .undefined => none
      | x => some x.toExpr)

/-- A call over a window. -/
def callOver (w : Window) : Expr → Expr
  | .call name arguments distinct _ => .call name arguments distinct (some w)
  | e => e

/-- A call of a function. -/
def callOf (name : String) (arguments : List Operand) : Expr :=
  .call name (arguments.map Operand.toExpr) false none

/-- A number of rows, written into the text, unless it has none. -/
def rowCount? (n : Operand) : Option Operand := n.toValue.text?.map fun s => .expr (.raw s [])

/-- Whether an operand was left out. -/
def isAbsent : Operand → Bool
  | .value .undefined => true
  | _ => false

/-- The names of the functions that take their operands as they are. -/
def plainFunctions : List (String × String) :=
  [("sum", "SUM"), ("avg", "AVG"), ("min", "MIN"), ("max", "MAX"), ("coalesce", "COALESCE"),
    ("ifnull", "IFNULL"), ("now", "NOW"), ("length", "LENGTH"), ("lower", "LOWER"),
    ("upper", "UPPER"), ("concat", "CONCAT"), ("groupConcat", "GROUP_CONCAT"),
    ("random", "RANDOM"), ("rowNumber", "ROW_NUMBER"), ("rank", "RANK"),
    ("denseRank", "DENSE_RANK"), ("jsonExtract", "JSON_EXTRACT")]

/-- The number of operands that a function takes, if it is fixed. -/
def operandCount : String → Option Nat
  | "coalesce" => none
  | "concat" => none
  | "ifnull" => some 2
  | "jsonExtract" => some 2
  | "now" => some 0
  | "random" => some 0
  | "rowNumber" => some 0
  | "rank" => some 0
  | "denseRank" => some 0
  | _ => some 1

/-- Exactly so many operands: what is missing is absent, what is too much is dropped. -/
def padded (n : Nat) (xs : List Operand) : List Operand :=
  xs.take n ++ List.replicate (n - xs.length) (.value .undefined)

/-- A call for the value of a neighbouring row, at a distance that is written into the text. -/
def neighbourCall (name : String) (operand distance : Operand) : Option Expr :=
  if isAbsent distance then some (callOf name [operand])
  else (rowCount? distance).map fun n => callOf name [operand, n]

/-- The call of a function by the name under which callers know it, if there is such a function and
it can be written. Counting nothing counts rows. -/
def namedCall (name : String) (arguments : List Operand) : Option Expr :=
  let first := arguments.head?.getD (.value .undefined)
  let second := arguments[1]?.getD (.value .undefined)
  let third := arguments[2]?.getD (.value .undefined)
  match name with
  | "count" => some (callOf "COUNT" [if isAbsent first then .expr (.star none) else first])
  | "countDistinct" => some (.call "COUNT" [first.toExpr] true none)
  | "substring" =>
    some (callOf "SUBSTRING" (if isAbsent third then [first, second] else [first, second, third]))
  | "lag" => neighbourCall "LAG" first second
  | "lead" => neighbourCall "LEAD" first second
  | _ =>
    (plainFunctions.lookup name).map fun sqlName =>
      callOf sqlName (match operandCount name with
        | some n => padded n arguments
        | none => arguments)

end PolyQuery.Expr
