import PolyQuery.Expr.Build
import PolyQuery.Model
import PolyQuery.Naming

/-! Conditions in terms of a model's properties: a property stands for its column, and a value that
is compared with it is bound with the type of its field. -/
namespace PolyQuery

/-- The part of a property's name behind its last point. -/
def unqualified (name : String) : String :=
  match Expr.splitAtLastPoint name with
  | some (_, property) => property
  | none => name

/-- The column of a property, which may be qualified by a table. -/
def propertyColumn (name : String) : Expr := Expr.reference (Naming.camelToSnake name) none

/-- A value for a property, with the type of the property's field. -/
def propertyValue (fields : Option FieldMap) (name : String) (v : Operand) : Expr :=
  match v with
  | .expr e => e
  | v =>
    match fields.bind fun fs => fs.find? (unqualified name) with
    | some f => Expr.literalOf v.toValue f.hostType f.representation f.adapter
    | none => Expr.ofValue v.toValue

/-- How a property is compared. -/
inductive Comparison where
  | equal
  | different
  | among (negated : Bool)
  | operator (op : BinaryOp)
  deriving DecidableEq, Repr

/-- The comparison that a symbol stands for. -/
def Comparison.ofSymbol? (symbol : String) : Option Comparison :=
  match symbol with
  | "=" => some .equal
  | "!=" => some .different
  | "<>" => some .different
  | "IN" => some (.among false)
  | "NOT IN" => some (.among true)
  | s => (BinaryOp.all.find? fun op => op.symbol == s).map .operator

/-- A property compared with a value. Nothing is compared by `IS NULL` and `IS NOT NULL`, and a
single value stands for a list of one. -/
def compareProperty (fields : Option FieldMap) (name : String) (comparison : Comparison)
    (v : Operand) : Expr :=
  let target := Operand.expr (propertyColumn name)
  match comparison with
  | .equal =>
    if v.isMissing then Expr.unaryOf .isNull target
    else Expr.equals target (.expr (propertyValue fields name v))
  | .different =>
    if v.isMissing then Expr.unaryOf .isNotNull target
    else Expr.differs target (.expr (propertyValue fields name v))
  | .among negated =>
    let items := v.items?.getD [v]
    Expr.memberOf target (items.map fun x => .expr (propertyValue fields name x)) negated
  | .operator op => Expr.binaryOf op target (.expr (propertyValue fields name v))

/-- One condition for each entry of a filter; a list means membership. -/
def filterConditions (fields : Option FieldMap) (filter : List (String × Operand)) : List Expr :=
  filter.map fun (name, v) =>
    compareProperty fields name (if v.items?.isSome then .among false else .equal) v

/-- What a caller may say to narrow a query. -/
inductive Criterion where
  | expression (e : Expr)
  | filter (entries : List (String × Operand))
  | comparison (name : String) (c : Comparison) (v : Operand)

/-- The conditions that a criterion stands for; all of them must hold. -/
def Criterion.conditions (fields : Option FieldMap) : Criterion → List Expr
  | .expression e => [e]
  | .filter entries => filterConditions fields entries
  | .comparison name c v => [compareProperty fields name c v]

end PolyQuery
