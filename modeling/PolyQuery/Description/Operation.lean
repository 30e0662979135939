import PolyQuery.Description.Schema

/-! Operations on builders described by calls: the word for an operation, with its arguments. -/
namespace PolyQuery.Description

/-- The words for joins with a condition. -/
def joinWords : List (String × JoinKind) :=
  [("join", .inner), ("leftJoin", .left), ("rightJoin", .right), ("fullJoin", .full)]

/-- The words for operators between queries. -/
def setWords : List (String × SetOperator) :=
  [("union", .union), ("intersect", .intersect), ("except", .except)]

/-- What an operation gives: none where there is no such operation. -/
abbrev Outcome := Option (Except Error AnyBuilder)

/-- An operation that gives a selection. -/
def selected (b : Builder) : Outcome := some (.ok (.selection b))

/-- An operation that gives a combination. -/
def combined (b : CombinedBuilder) : Outcome := some (.ok (.combination b))

/-- Joins a described target. What is no table needs a name, before it is seen whether it can be
joined at all. -/
def joined (b : Builder) (kind : JoinKind) (target : Description) (c : JoinCondition)
    (name : Option String) : Outcome :=
  match target.joinTarget? with
  | some t => some ((b.join kind t c name).map .selection)
  | none => if name.getD "" = "" then some (fault .joinedQueryUnnamed) else none

/-- An operation on a combination, other than combining it further. -/
def onCombination (b : CombinedBuilder) (word : String) (d : Nat → Description) : Outcome :=
  match word with
  | "orderBy" => combined (b.orderBy ((d 0).orderTerm (d 1).direction))
  | "limit" => combined (b.setLimit (d 0).bound?)
  | "offset" => combined (b.setOffset (d 0).bound?)
  | "using" => combined (b.via (d 0).toChannel)
  | _ => none

/-- An operation on a selection, other than combining it. -/
def onSelection (b : Builder) (word : String) (arguments : List Description)
    (d : Nat → Description) : Outcome :=
  match word with
  | "select" => selected (b.select (arguments.map column))
  | "distinct" => selected (b.setDistinct (d 0).isOn)
  | "where" => (criterion? arguments).bind fun c => selected (b.filter c)
  | "orWhere" => (criterion? arguments).bind fun c => selected (b.orFilter c)
  | "whereNull" => selected (b.whereNull (d 0).text)
  | "whereNotNull" => selected (b.whereNotNull (d 0).text)
  | "whereIn" =>
    (d 1).memberSource?.bind fun source => selected (b.whereAmong (d 0).text source false)
  | "whereNotIn" =>
    (d 1).memberSource?.bind fun source => selected (b.whereAmong (d 0).text source true)
  | "orderBy" => selected (b.orderBy ((d 0).orderTerm (d 1).direction))
  | "groupBy" => selected (b.groupBy (arguments.map column))
  | "having" => selected (b.andHaving (d 0).toExpr)
  | "limit" => selected (b.setLimit (d 0).bound?)
  | "offset" => selected (b.setOffset (d 0).bound?)
  | "crossJoin" => joined b .cross (d 0) .none (d 1).text?
  | "withCte" =>
    (d 1).query?.bind fun q => selected (b.withCte (d 0).text q (d 2).cteOptions)
  | "recursive" => selected (b.setRecursive (d 0).isOn)
  | "with" => selected (b.load (arguments.map request))
  | "includes" => selected (b.load (arguments.map request))
  | "using" => selected (b.via (d 0).toChannel)
  | "explain" => selected (b.explain (d 0).explain)
  | word =>
    (joinWords.lookup word).bind fun kind =>
      joined b kind (d 0) (d 1).joinCondition (d 2).text?

/-- The operation that a word stands for, applied to a builder. -/
def operate (builder : AnyBuilder) (word : String) (arguments : List Description) : Outcome :=
  let d (place : Nat) : Description := (arguments[place]?).getD absent
  match setWords.lookup word, builder with
  | some op, b => (d 0).query?.map fun q => (b.combine op q (d 1).isTruthy).map .combination
  | none, .combination b => onCombination b word d
  | none, .selection b => onSelection b word arguments d

end PolyQuery.Description
