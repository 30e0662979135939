import PolyQuery.Description.Query

/-! Expressions described by calls: the word for a form of expression, with the arguments of it. -/
namespace PolyQuery.Description

/-- The words for operators between two operands. -/
def binaryWords : List (String × BinaryOp) :=
  [("gt", .greater), ("gte", .greaterEqual), ("lt", .less), ("lte", .lessEqual), ("like", .like),
    ("notLike", .notLike), ("add", .add), ("sub", .sub), ("mul", .mul), ("div", .div)]

/-- The words for operators on one operand. -/
def unaryWords : List (String × UnaryOp) :=
  [("not_", .not), ("isNull", .isNull), ("isNotNull", .isNotNull)]

/-- The words for operators that connect any number of operands. -/
def chainWords : List (String × BinaryOp) := [("and_", .and), ("or_", .or)]

/-- The name behind the word for functions. -/
def functionName? (word : String) : Option String :=
  let start := "func.".toList
  if start.isPrefixOf word.toList then some (String.ofList (word.toList.drop start.length))
  else none

/-- The parameters of a raw text: the items of a list, the characters of a text, or bytes. Left out,
there are none. -/
def rawParameters? (d : Description) : Option (List Value) :=
  match d.toOperand with
  | .value .undefined => some []
  | .value (.string s) => some (s.toList.map fun c => .string (String.ofList [c]))
  | .value (.bytes _ data) => some (data.map fun b => .number (.int b.toNat))
  | x => x.items?.map fun xs => xs.map Operand.toValue

/-- Whether a word stands for membership in a list, and whether it denies it. -/
def membershipWords : List (String × Bool) := [("inList", false), ("notIn", true)]

/-- A column by its name, unless it has none. -/
def reference? (name table : Description) : Option Expr :=
  name.text?.map fun s => Expr.reference s table.text?

/-- A call of a function by its name, or of a function that is known by a name of its own. -/
def functionCall? (word : String) (arguments : List Description) : Option Expr :=
  let operands := arguments.map toOperand
  let named := Expr.callOf ((arguments.head?.map text).getD "") (operands.drop 1)
  if word = "fn" then some named
  else
    match functionName? word with
    | some "call" => some named
    | some name => Expr.namedCall name operands
    | none => none

/-- The expression that a word makes of arguments, if it is one of these words and the arguments can
be read. -/
def call? (word : String) (arguments : List Description) : Option Expr :=
  let d (place : Nat) : Description := (arguments[place]?).getD absent
  let x (place : Nat) : Operand := (d place).toOperand
  match binaryWords.lookup word, unaryWords.lookup word, chainWords.lookup word with
  | some op, _, _ => some (Expr.binaryOf op (x 0) (x 1))
  | none, some op, _ => some (Expr.unaryOf op (x 0))
  | none, none, some op => some (Expr.chain op (d 0).toExpr ((arguments.drop 1).map toExpr))
  | none, none, none =>
    match word with
    | "column" => reference? (d 0) (d 1)
    | "columnAs" => (reference? (d 0) (d 2)).map (Expr.shownAs (d 1).text)
    | "star" => some (.star (d 0).text?)
    | "literal" => some ((d 0).literal (d 1))
    | "raw" => (rawParameters? (d 1)).map (.raw (d 0).text)
    | "binary" =>
      (BinaryOp.all.find? (·.symbol == (d 0).text)).map fun op => Expr.binaryOf op (x 1) (x 2)
    | "unary" => (UnaryOp.all.find? (·.symbol == (d 0).text)).map fun op => Expr.unaryOf op (x 1)
    | "eq" => some (Expr.equals (x 0) (x 1))
    | "ne" => some (Expr.differs (x 0) (x 1))
    | "between" => some (Expr.between (x 0) (x 1) (x 2))
    | "inSubquery" => (d 1).query?.map fun q => .inQuery (d 0).toExpr q (d 2).toValue.isTruthy
    | "subquery" => (d 0).query?.map .subquery
    | "exists" => (d 0).query?.map fun q => .unary .exists_ (.subquery q)
    | "notExists" => (d 0).query?.map fun q => .unary .notExists (.subquery q)
    | "caseWhen" => (x 0).items?.map fun _ => Expr.casesOf (d 0).branches (x 1)
    | "alias" => some (.named (d 0).toExpr (d 1).text)
    | "window" => some (.window (d 0).window)
    | "over" => some (Expr.callOver (d 1).window (d 0).toExpr)
    | word =>
      match membershipWords.lookup word with
      | some negated => (x 1).items?.map fun members => Expr.memberOf (x 0) members negated
      | none => functionCall? word arguments

end PolyQuery.Description
