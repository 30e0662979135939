import Mathlib.Data.List.Lattice
import Mathlib.Data.List.Sort
import PolyQuery.Proofs.Bounds
import PolyQuery.Proofs.Evaluation
import PolyQuery.Proofs.Pages

/-! What a server answers to queries with all their clauses. Sources are joined, a condition keeps
some of the rows, rows are put together in groups, the items are computed for each row or group,
repeated results are dropped, and what is left is put in order and paged: `Server.answer?`. What an
expression is worth is up to the server, but for the few expressions that every server knows; where
`Query.contents?` describes expressions and few clauses, this describes all clauses and hardly any
expression. A query that the server refuses, as it may refuse any expression, has no answer. -/
namespace PolyQuery
variable {κ : Type}

deriving instance DecidableEq for SourceRow

/-! ## Servers -/

/-- Where an expression is computed: for rows that are put together in a group, or for a single row,
among all groups or rows of its query. Queries in the expression read the tables. -/
structure Setting (κ : Type) where
  tables : Tables κ
  grouped : Bool
  all : List (List (List (SourceRow κ)))
  rows : List (List (SourceRow κ))

/-- The call that counts the rows of a group. -/
def Expr.rowCount : Expr := .call "COUNT" [.star none] false none

/-- What a server makes of expressions: their values, which functions and which raw texts put rows
together, the name of a column without one, and the order of values. -/
structure Server (κ : Type) where
  value? : Setting κ → Expr → Option (Datum κ)
  gathers : String → Bool
  gathersRaw : String → Bool
  heading : Expr → String
  isOrdered : Datum κ → Datum κ → Bool
  value?_named : ∀ s e name, value? s (.named e name) = value? s e
  value?_rowCount : ∀ s, s.grouped = true → value? s .rowCount = some (.int s.rows.length)
  value?_one : ∀ s, value? s (.raw "1" []) = some (.int 1)
  gathers_count : gathers "COUNT" = true
  gathersRaw_one : gathersRaw "1" = false

section Gathering
variable (m : Server κ)

mutual

/-- Whether an expression puts the rows of its query together. A call over a window does not, but
its operands may; queries in the expression put their own rows together. -/
def Expr.gathers : Expr → Bool
  | .column _ _ _ => false
  | .star _ => false
  | .literal _ _ => false
  | .binary _ left right => left.gathers || right.gathers
  | .unary _ operand => operand.gathers
  | .inList operand values _ => operand.gathers || gathersAny values
  | .inQuery operand _ _ => operand.gathers
  | .call name arguments _ none => m.gathers name || gathersAny arguments
  | .call _ arguments _ (some w) => gathersAny arguments || w.gathers
  | .window w => w.gathers
  | .subquery _ => false
  | .cases branches otherwise => gathersBranches branches || gathersOptional otherwise
  | .named e _ => e.gathers
  | .raw sql _ => m.gathersRaw sql

/-- Whether one of the expressions puts rows together. -/
def gathersAny : List Expr → Bool
  | [] => false
  | e :: es => e.gathers || gathersAny es

/-- Whether an expression, if there is one, puts rows together. -/
def gathersOptional : Option Expr → Bool
  | none => false
  | some e => e.gathers

/-- Whether something in a branch puts rows together. -/
def gathersBranches : List Branch → Bool
  | [] => false
  | ⟨condition, result⟩ :: rest => condition.gathers || result.gathers || gathersBranches rest

/-- Whether something in an ordering puts rows together. -/
def gathersTerms : List OrderTerm → Bool
  | [] => false
  | ⟨e, _⟩ :: rest => e.gathers || gathersTerms rest

/-- Whether something in a window puts rows together. -/
def Window.gathers : Window → Bool
  | ⟨partitionBy, orderBy, _⟩ => gathersAny partitionBy || gathersTerms orderBy

end

end Gathering

/-- Whether a selection puts rows together: it is grouped, or has a condition on groups, or one of
its items does. -/
def SelectPlan.isGrouped (m : Server κ) (p : SelectPlan) : Bool :=
  !p.groupBy.isEmpty || p.having.isSome || p.items.any (Expr.gathers m)

/-! ## Clauses -/

/-- Rows of sources that are joined, with the names of the sources and of their columns. -/
structure Joined (κ : Type) where
  heading : List (String × List String)
  rows : List (List (SourceRow κ))

/-- A source of a name. -/
def Joined.of (source : String) (c : Contents κ) : Joined κ :=
  ⟨[(source, c.columns)], c.under source⟩

/-- A row for sources that have none. -/
def Joined.blank (j : Joined κ) : List (SourceRow κ) :=
  j.heading.map fun (source, columns) => ⟨source, columns.map fun c => (c, .null)⟩

/-- The columns for which an item stands. -/
def Expr.listed? (heading : List (String × List String)) : Expr → Option (List Expr)
  | .star none => some (heading.flatMap fun (source, columns) =>
      columns.map fun c => .column (some source) c none)
  | .star (some source) => (heading.lookup source).map fun columns =>
      columns.map fun c => .column (some source) c none
  | e => some [e]

/-- The columns for which the items of a selection stand; no items stand for all columns. -/
def SelectPlan.listed? (p : SelectPlan) (heading : List (String × List String)) :
    Option (List Expr) :=
  if p.items.isEmpty then (Expr.star none).listed? heading
  else (p.items.mapM (Expr.listed? heading)).map List.flatten

/-- A row of a result, and the values by which it is ordered. -/
structure ResultRow (κ : Type) where
  data : List (Datum κ)
  keys : List (Datum κ)

/-- The rows of a page. -/
def Pagination.rows {α : Type} : Option Pagination → List α → List α
  | none, rows => rows
  | some page, rows => Page.window (page.limit.map Value.count) (Value.countOf page.offset) rows

/-- The rows of both operands, or of one of them as far as the other has them or has them not. -/
def SetOperator.rows [DecidableEq κ] (op : SetOperator) (all : Bool)
    (left right : List (List (Datum κ))) : List (List (Datum κ)) :=
  match op, all with
  | .union, true => left ++ right
  | .union, false => (left ++ right).dedup
  | .intersect, true => left.bagInter right
  | .intersect, false => (left.filter (· ∈ right)).dedup
  | .except, true => left.diff right
  | .except, false => (left.filter (· ∉ right)).dedup

/-- The rows that are found, then those that a step gives from the last ones, and so on until there
are no new ones. There are at most `rounds` steps. -/
def spread {α : Type} [DecidableEq α] (all : Bool) (step : List α → Option (List α)) :
    Nat → List α → List α → Option (List α)
  | _, found, [] => some found
  | 0, _, _ :: _ => none
  | rounds + 1, found, last => do
    let next ← step last
    let new := if all then next else (next.filter (· ∉ found)).dedup
    spread all step rounds (found ++ new) new

namespace Server
section Clauses
variable [DecidableEq κ] (m : Server κ)

/-- Rows that meet a condition, if there is one. -/
def meeting? (tables : Tables κ) (condition : Option Expr) (rows : List (List (SourceRow κ))) :
    Option (List (List (SourceRow κ))) :=
  match condition with
  | none => some rows
  | some e => kept (fun row => m.value? ⟨tables, false, [[row]], [row]⟩ e) rows

/-- Rows of two sides that are joined: the pairs that meet the condition, and the rows without a
partner of a side that keeps its rows. -/
def joined? (tables : Tables κ) (kind : JoinKind) (on : Option Expr) (left right : Joined κ) :
    Option (Joined κ) := do
  let pairs := left.rows.flatMap fun l => right.rows.map fun r => (l, r)
  let pairs ← match on with
    | none => some pairs
    | some e => kept (fun (l, r) => m.value? ⟨tables, false, [[l ++ r]], [l ++ r]⟩ e) pairs
  -- a row without a partner is paired with blanks
  let lonely := left.rows.filter fun l => l ∉ pairs.map Prod.fst
  let lost := right.rows.filter fun r => r ∉ pairs.map Prod.snd
  let keepsLeft := kind = .left || kind = .full
  let keepsRight := kind = .right || kind = .full
  some ⟨left.heading ++ right.heading, pairs.map (fun (l, r) => l ++ r) ++
    (if keepsLeft then lonely.map (· ++ right.blank) else []) ++
    (if keepsRight then lost.map (left.blank ++ ·) else [])⟩

/-- Rows in groups of equal keys. -/
def groups? (tables : Tables κ) (keys : List Expr) (rows : List (List (SourceRow κ))) :
    Option (List (List (List (SourceRow κ)))) := do
  let keyed ← rows.mapM fun row => do
    let key ← keys.mapM (m.value? ⟨tables, false, [[row]], [row]⟩)
    some (key, row)
  some ((keyed.map Prod.fst).dedup.map fun key =>
    (keyed.filter fun p => p.1 = key).map Prod.snd)

/-- What the items of a selection are computed for: its groups that meet the condition on groups, or
its rows, each for itself. Without keys, all rows are one group, even if there are none. -/
def units? (p : SelectPlan) (tables : Tables κ) (rows : List (List (SourceRow κ))) :
    Option (List (List (List (SourceRow κ)))) :=
  if p.isGrouped m then do
    let groups ← if p.groupBy.isEmpty then some [rows] else m.groups? tables p.groupBy rows
    match p.having with
    | none => some groups
    | some e => kept (fun group => m.value? ⟨tables, true, groups, group⟩ e) groups
  else some (rows.map fun row => [row])

/-- The name of a result's column. -/
def columnName (e : Expr) : String := e.outputName.getD (m.heading e)

/-- The value of a term of an ordering. A column without a source that has the name of an item is
that item. -/
def key? (s : Setting κ) (outputs : List (Option String × Datum κ)) (e : Expr) :
    Option (Datum κ) :=
  match e with
  | .column none name _ =>
    match outputs.lookup (some name) with
    | some d => some d
    | none => m.value? s e
  | _ => m.value? s e

/-- The row of a result for a group or a row. -/
def result? (s : Setting κ) (listed : List Expr) (terms : List OrderTerm) :
    Option (ResultRow κ) := do
  let data ← listed.mapM (m.value? s)
  let keys ← terms.mapM fun t =>
    m.key? s ((listed.map Expr.outputName).zip data) t.expression
  some ⟨data, keys⟩

/-- Whether a row does not come behind another one. -/
def inOrder : List SortDirection → List (Datum κ) → List (Datum κ) → Bool
  | direction :: rest, a :: as, b :: bs =>
    let (first, second) := match direction with
      | .ascending => (a, b)
      | .descending => (b, a)
    m.isOrdered first second && (!m.isOrdered second first || inOrder rest as bs)
  | _, _, _ => true

/-- Results in order; those of equal keys stay as they are. -/
def sorted (terms : List OrderTerm) (results : List (ResultRow κ)) : List (ResultRow κ) :=
  results.insertionSort fun r r' =>
    m.inOrder (terms.map OrderTerm.direction) r.keys r'.keys = true

/-- Results without those that are there already. -/
def distinct (results : List (ResultRow κ)) : List (ResultRow κ) :=
  (results.reverse.pwFilter fun r r' => r.data ≠ r'.data).reverse

/-- The results of a selection, each once if they are to be distinct, in order. -/
def results? (p : SelectPlan) (tables : Tables κ) (joined : Joined κ) :
    Option (List String × List (ResultRow κ)) := do
  let rows ← m.meeting? tables p.condition joined.rows
  let units ← m.units? p tables rows
  let listed ← p.listed? joined.heading
  let results ← units.mapM fun unit =>
    m.result? ⟨tables, p.isGrouped m, units, unit⟩ listed p.orderBy
  some (listed.map m.columnName,
    m.sorted p.orderBy (if p.distinct then distinct results else results))

/-- What a selection gives on joined rows. -/
def selected? (p : SelectPlan) (tables : Tables κ) (joined : Joined κ) : Option (Contents κ) := do
  let (columns, results) ← m.results? p tables joined
  some ⟨columns, (Pagination.rows p.pagination results).map ResultRow.data⟩

/-- The rows of a combination in order, by the values of their columns. -/
def combinedRows? (p : SetPlan) (tables : Tables κ) (columns : List String)
    (rows : List (List (Datum κ))) : Option (List (List (Datum κ))) := do
  let results ← rows.mapM fun row => do
    let shown := [(⟨"", columns.zip row⟩ : SourceRow κ)]
    let keys ← p.orderBy.mapM fun t =>
      m.value? ⟨tables, false, [[shown]], [shown]⟩ t.expression
    some (⟨row, keys⟩ : ResultRow κ)
  some ((Pagination.rows p.pagination (m.sorted p.orderBy results)).map ResultRow.data)

end Clauses

/-! ## Queries -/

section Queries
variable [DecidableEq κ] (m : Server κ) (rounds : Nat)

mutual

/-- What a server answers to a query on its tables, where recursive operands are evaluated at most
`rounds` times. -/
def answer? : Query → Tables κ → Option (Contents κ)
  | .select p, tables => selection? p tables
  | .combined p, tables => combination? p tables

/-- What a selection gives. Without a source it has one row. -/
def selection? : SelectPlan → Tables κ → Option (Contents κ)
  | ⟨items, source, joins, condition, groupBy, having, orderBy, pagination, distinct, ctes⟩,
      tables => do
    let tables ← tablesWith? ctes tables
    let first ← optionalSource? source tables
    let joined ← joinedAll? joins tables first
    m.selected? ⟨items, source, joins, condition, groupBy, having, orderBy, pagination, distinct,
      ctes⟩ tables joined

/-- What a combination gives: rows of as many columns on both sides. -/
def combination? : SetPlan → Tables κ → Option (Contents κ)
  | ⟨operator, all, left, right, orderBy, pagination, ctes⟩, tables => do
    let tables ← tablesWith? ctes tables
    let l ← answer? left tables
    let r ← answer? right tables
    if l.columns.length = r.columns.length then do
      let rows ← m.combinedRows? ⟨operator, all, left, right, orderBy, pagination, ctes⟩ tables
        l.columns (operator.rows all l.rows r.rows)
      some ⟨l.columns, rows⟩
    else none

/-- The rows of a source. -/
def source? : Source → Tables κ → Option (Joined κ)
  | .table name shown, tables => (tables.lookup name).map (Joined.of (shown.getD name))
  | .query q shown, tables => (answer? q tables).map (Joined.of shown)

/-- The rows of a source, if there is one. -/
def optionalSource? : Option Source → Tables κ → Option (Joined κ)
  | none, _ => some ⟨[], [[]]⟩
  | some s, tables => source? s tables

/-- Rows joined with those of further sources. -/
def joinedAll? : List Join → Tables κ → Joined κ → Option (Joined κ)
  | [], _, joined => some joined
  | ⟨kind, target, on, _⟩ :: rest, tables, joined => do
    let other ← source? target tables
    let joined ← m.joined? tables kind on joined other
    joinedAll? rest tables joined

/-- The tables with those of common table expressions, each of which may use the ones before. -/
def tablesWith? : List Cte → Tables κ → Option (Tables κ)
  | [], tables => some tables
  | ⟨name, q, columns, materialized, recursive⟩ :: rest, tables => do
    let result ← expression? ⟨name, q, columns, materialized, recursive⟩ tables
    tablesWith? rest ((name, result) :: tables)

/-- What a common table expression gives. The second operand of a recursive one reads the rows of
the round before under its name. -/
def expression? : Cte → Tables κ → Option (Contents κ)
  | ⟨_, q, columns, _, false⟩, tables => do
    let result ← answer? q tables
    result.renamed? columns
  | ⟨name, .combined ⟨operator, all, left, right, orderBy, pagination, ctes⟩, columns, _, true⟩,
      tables => do
    let tables ← tablesWith? ctes tables
    let first ← answer? left tables
    let first ← first.renamed? columns
    let start := if all then first.rows else first.rows.dedup
    -- tables are looked up from the front, so the rows of the round before hide other tables
    let found ← spread all (fun last => do
      let next ← answer? right ((name, ⟨first.columns, last⟩) :: tables)
      if next.columns.length = first.columns.length then some next.rows else none)
      rounds start start
    let rows ← m.combinedRows? ⟨operator, all, left, right, orderBy, pagination, ctes⟩ tables
      first.columns found
    some ⟨first.columns, rows⟩
  | ⟨_, .select _, _, _, true⟩, _ => none

end

variable {m rounds}

end Queries

/-! ## Rows of results -/

section Results
variable {α β γ : Type}

variable [DecidableEq κ] {m : Server κ}

end Results

/-! ## A small server -/

/-- Whole numbers and texts as they are bound. -/
def plainDatum : Value → Hint → Datum String
  | .number (.int n), _ => .int n
  | .string s, _ => .other s
  | _, _ => .null

/-- Values on a server that only knows how to count rows. The columns of a group are those of its
first row. -/
def plainValue? (s : Setting String) : Expr → Option (Datum String)
  | .named e _ => plainValue? s e
  | .call "COUNT" [.star none] false none =>
    if s.grouped then some (.int s.rows.length) else none
  | .binary op left right => do
    let a ← plainValue? s left
    let b ← plainValue? s right
    op.datum? a b
  | .raw "1" [] => some (.int 1)
  | e => s.rows.head?.bind fun row => e.datum? plainDatum row

/-- A server that orders whole numbers, and nothing else. -/
def plain : Server String where
  value? := plainValue?
  gathers := fun name => name == "COUNT"
  gathersRaw := fun _ => false
  heading
    | .raw sql _ => sql
    | _ => "?"
  isOrdered
    | .int i, .int j => i ≤ j
    | _, _ => true
  value?_named _ _ _ := by rw [plainValue?]
  value?_rowCount s h := by
    rw [Expr.rowCount, plainValue?, h]
    rfl
  value?_one _ := by rw [plainValue?]
  gathers_count := rfl
  gathersRaw_one := rfl

end Server
end PolyQuery
