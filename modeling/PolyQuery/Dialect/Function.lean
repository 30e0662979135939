import PolyQuery.Dialect

/-! Function calls as a backend writes them. A call is laid out as fixed texts and places for its
arguments, so that the same layout serves arguments of any kind. -/
namespace PolyQuery

/-- How a backend writes a function: under a name of its own, as operands joined by an operator, as
a constant, as a string aggregate that keeps or drops `DISTINCT`, or as an ordered list
aggregate. -/
inductive FunctionForm where
  | call (name : String)
  | joined (operator : String)
  | constant (text : String)
  | stringAggregate (keepsDistinct : Bool)
  | listAggregate
  deriving DecidableEq, Repr

/-- A part of a layout: a fixed text or the argument at a place. -/
inductive LayoutPart where
  | text (s : String)
  | argument (place : Nat)
  deriving DecidableEq, Repr

namespace FunctionForm

/-- The word before arguments that must differ. -/
def distinctWord (distinct : Bool) : String := if distinct then "DISTINCT " else ""

/-- The arguments at all places, with a text between two of them. -/
def separated (separator : String) (count : Nat) : List LayoutPart :=
  ((List.range count).map LayoutPart.argument).intersperse (.text separator)

/-- The argument at a place among `count`, with what stands there when it is missing. -/
def argumentOr (count place : Nat) (missing : String) : LayoutPart :=
  if place < count then .argument place else .text missing

/-- The layout of a call with `count` arguments. -/
def layout (form : FunctionForm) (count : Nat) (distinct : Bool) : List LayoutPart :=
  match form with
  | .call name =>
    [.text (name ++ "(" ++ distinctWord distinct)] ++ separated ", " count ++ [.text ")"]
  | .joined operator =>
    [.text "("] ++ separated (" " ++ operator ++ " ") count ++ [.text ")"]
  | .constant text => [.text text]
  | .stringAggregate keepsDistinct =>
    [.text ("STRING_AGG(" ++ distinctWord (keepsDistinct && distinct)),
      argumentOr count 0 "undefined", .text ", ", argumentOr count 1 "','", .text ")"]
  | .listAggregate =>
    [.text "LISTAGG(", argumentOr count 0 "undefined", .text ", ", argumentOr count 1 "','",
      .text ") WITHIN GROUP (ORDER BY ", argumentOr count 0 "undefined", .text ")"]

end FunctionForm

namespace Backend

/-- The functions that a backend writes in a way of its own, by their name in upper case. -/
def functionForms : Backend → List (String × FunctionForm)
  | .postgres =>
    [("IFNULL", .call "COALESCE"), ("NVL", .call "COALESCE"), ("NOW", .call "NOW"),
      ("GROUP_CONCAT", .stringAggregate true), ("JSON_EXTRACT", .call "JSONB_EXTRACT_PATH")]
  | .mysql =>
    [("IFNULL", .call "IFNULL"), ("NVL", .call "IFNULL"), ("NOW", .call "NOW"),
      ("LENGTH", .call "CHAR_LENGTH"), ("RANDOM", .call "RAND")]
  | .mariadb =>
    [("IFNULL", .call "IFNULL"), ("NVL", .call "IFNULL"), ("NOW", .call "NOW"),
      ("LENGTH", .call "CHAR_LENGTH"), ("RANDOM", .call "RAND")]
  | .sqlite =>
    [("IFNULL", .call "IFNULL"), ("NVL", .call "IFNULL"), ("NOW", .constant "CURRENT_TIMESTAMP"),
      ("SUBSTRING", .call "SUBSTR"), ("CONCAT", .joined "||")]
  | .oracle =>
    [("IFNULL", .call "NVL"), ("NVL", .call "NVL"), ("NOW", .constant "SYSTIMESTAMP"),
      ("SUBSTRING", .call "SUBSTR"), ("RANDOM", .constant "DBMS_RANDOM.VALUE"),
      ("GROUP_CONCAT", .listAggregate), ("CONCAT", .joined "||")]
  | .sqlserver =>
    [("IFNULL", .call "ISNULL"), ("NVL", .call "ISNULL"), ("NOW", .constant "GETDATE()"),
      ("LENGTH", .call "LEN"), ("RANDOM", .call "RAND"),
      ("GROUP_CONCAT", .stringAggregate false), ("JSON_EXTRACT", .call "JSON_VALUE")]

end Backend

namespace Dialect

/-- The form that the dialect gives a function, in any letter case. -/
def functionForm? (d : Dialect) (name : String) : Option FunctionForm :=
  d.backend.functionForms.lookup (Text.upper name)

theorem functionForm?_mem {d : Dialect} {name : String} {form : FunctionForm}
    (h : d.functionForm? name = some form) : (Text.upper name, form) ∈ d.backend.functionForms := by
  obtain ⟨before, after, heq, -⟩ := List.lookup_eq_some_iff.1 h
  rw [heq]
  simp

/-- Whether the dialect writes the function in a way of its own. -/
def mapsFunction (d : Dialect) (name : String) : Bool := (d.functionForm? name).isSome

/-- The layout of a call; a name without a form of its own is written as it is. -/
def functionLayout (d : Dialect) (name : String) (count : Nat) (distinct : Bool) :
    List LayoutPart :=
  ((d.functionForm? name).getD (.call name)).layout count distinct

/-- A call with the texts of its arguments. -/
def renderFunction (d : Dialect) (name : String) (arguments : List String) (distinct : Bool) :
    String :=
  String.join <| (d.functionLayout name arguments.length distinct).map fun
    | .text s => s
    | .argument place => (arguments[place]?).getD ""

end Dialect

end PolyQuery
