import PolyQuery.Builder.Any
import PolyQuery.Store

/-! Descriptions: data from which queries, models and the arguments of calls are read, as a file or
another program may give them. A description holds plain data, and ready parts of queries among it.
Readers take what they need; what is missing or of another kind reads as the default. -/
namespace PolyQuery

/-- A description. A value of the record store stands beside the plain copy that is bound to
statements. -/
inductive Description where
  | value (v : Value)
  | stored (v copy : Value)
  | expr (e : Expr)
  | term (t : OrderTerm)
  | builder (b : AnyBuilder)
  | plan (s : Statement)
  | adapter (a : Adapter)
  | modifier (name : String)
  | channel (c : Channel)
  | items (ds : List Description)
  | fields (fs : List (String × Description))

namespace Description

/-- Nothing is described. -/
def absent : Description := .value .undefined

instance : Inhabited Description := ⟨absent⟩

/-- The fields of an object. -/
def entries : Description → List (String × Description)
  | .fields fs => fs
  | .value (.object fs) => fs.map fun (name, v) => (name, .value v)
  | .stored _ (.object fs) => fs.map fun (name, v) => (name, .value v)
  | _ => []

/-- A field of an object. -/
def get (d : Description) (key : String) : Description := (d.entries.lookup key).getD absent

/-- The items of a list. -/
def list : Description → List Description
  | .items ds => ds
  | .value (.array vs) => vs.map .value
  | .stored _ (.array vs) => vs.map .value
  | _ => []

/-- An item of a list. -/
def item (d : Description) (place : Nat) : Description := (d.list[place]?).getD absent

/-- The list without its first items. -/
def behind (d : Description) (n : Nat) : List Description := d.list.drop n

/-- A description of something, if only of nothing. -/
def given? : Description → Option Description
  | .value .undefined => none
  | d => some d

/-- A description of something other than nothing. -/
def present? : Description → Option Description
  | .value v => if v.isMissing then none else some (.value v)
  | d => some d

mutual

/-- The operand that is described. -/
def toOperand : Description → Operand
  | .value v => .value v
  | .stored _ copy => .value copy
  | .expr e => .expr e
  | .term t => .value t.reflect
  | .builder _ => .value (.foreign "Object")
  | .plan s => .value s.reflect
  | .adapter a => .value a.reflect
  | .modifier _ => .value .callable
  | .channel _ => .value (.foreign "Object")
  | .items ds => .items (itemOperands ds)
  | .fields fs => .fields (fieldOperands fs)

/-- The operands in a list. -/
def itemOperands : List Description → List Operand
  | [] => []
  | d :: ds => d.toOperand :: itemOperands ds

/-- The operands in an object. -/
def fieldOperands : List (String × Description) → List (String × Operand)
  | [] => []
  | (name, d) :: fs => (name, d.toOperand) :: fieldOperands fs

end

/-- The value that is described. -/
def toValue (d : Description) : Value := d.toOperand.toValue

/-- The values in a list. -/
def values (d : Description) : List Value := d.list.map toValue

/-- The expression that is described. -/
def toExpr (d : Description) : Expr := d.toOperand.toExpr

/-- The expression that is described, if there is one. -/
def expr? (d : Description) : Option Expr := d.present?.map toExpr

/-- The expressions in a list. -/
def exprs (d : Description) : List Expr := d.list.map toExpr

/-- A text. -/
def text? (d : Description) : Option String :=
  match d.toOperand with
  | .value (.string s) => some s
  | _ => none

/-- A text, empty where there is none. -/
def text (d : Description) : String := d.text?.getD ""

/-- The texts in a list. -/
def texts (d : Description) : List String := d.list.map text

/-- A truth value. -/
def bool? (d : Description) : Option Bool :=
  match d.toOperand with
  | .value (.bool b) => some b
  | _ => none

/-- Whether the truth is described. -/
def flag (d : Description) : Bool := d.bool?.getD false

/-- A number. -/
def number? (d : Description) : Option Number :=
  match d.toOperand with
  | .value (.number n) => some n
  | _ => none

/-- A natural number, zero where there is none. -/
def nat (d : Description) : Nat :=
  match d.number? with
  | some (.int n) => n.toNat
  | _ => 0

/-- The version whose three components are listed. -/
def version (d : Description) : Version :=
  let component (place : Nat) : Number := (d.item place).number?.getD (.int 0)
  ⟨component 0, component 1, component 2⟩

mutual

/-- The value that is described, with the identity of records kept, and with records made of plain
objects. -/
def adopt : Description → Store → Value × Store
  | .stored v _, s => (v, s)
  | .items ds, s =>
    let (vs, s) := adoptItems ds s
    (.array vs, s)
  | .fields fs, s =>
    let (row, s) := adoptFields fs s
    let (id, s) := s.add (.ofRow row)
    (.record id, s)
  | d, s => (d.toValue, s)

/-- The same for the items of a list. -/
def adoptItems : List Description → Store → List Value × Store
  | [], s => ([], s)
  | d :: ds, s =>
    let (v, s) := adopt d s
    let (vs, s) := adoptItems ds s
    (v :: vs, s)

/-- The same for the fields of an object. -/
def adoptFields : List (String × Description) → Store → Row × Store
  | [], s => ([], s)
  | (name, d) :: fs, s =>
    let (v, s) := adopt d s
    let (row, s) := adoptFields fs s
    ((name, v) :: row, s)

end

end Description

/-- The records that a value is or lists. -/
def Value.records : Value → List Nat
  | .record id => [id]
  | .array vs => vs.filterMap fun
    | .record id => some id
    | _ => none
  | _ => []

end PolyQuery
