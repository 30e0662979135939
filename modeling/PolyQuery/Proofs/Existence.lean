import PolyQuery.Proofs.Counted
import PolyQuery.Proofs.Loading
import PolyQuery.Proofs.Terminals

/-! Whether a query has rows, and its first row. Both are asked with plans of their own, which keep
what the query skips but replace its limit. The plan for whether there are rows also puts a constant
in place of the items, and a constant shows how many rows or groups there are for the items, not how
many rows the query has: `SelectPlan.yields_of_answer`. What follows from that for the answers of a
server is `Builder.exists_one_iff`; runs tell what the server tells, `Run.exists_told` and
`Run.one_told`. -/
namespace PolyQuery
variable {κ : Type} [DecidableEq κ] {m : Server κ} {rounds : Nat}

/-! ## Pages of queries -/

/-- A bound is truthy if it counts rows. -/
theorem Value.IsBound.isTruthy {v : Value} (h : v.IsBound) : v.isTruthy = true ↔ ¬ v.count = 0 := by
  rw [← h.isZero]
  rcases h with rfl | ⟨n, hn, rfl⟩
  · decide
  · change (!(Number.int n).isZero && true) = true ↔ ¬ (Number.int n).isZero = true
    rw [Bool.and_true, Bool.not_eq_true', Bool.not_eq_true]

namespace Server

end Server

namespace SelectPlan
variable {p : SelectPlan}

/-- The selection with a constant in place of its items, in an order. -/
def constants (p : SelectPlan) (distinct : Bool) (order : List OrderTerm) : SelectPlan :=
  { p with items := [.raw "1" []], distinct := distinct, orderBy := order, pagination := none }

/-- All rows of the selection are put together in one. -/
def Folds (m : Server κ) (p : SelectPlan) : Prop :=
  p.groupBy = [] ∧ p.items.any (Expr.gathers m) = true

/-- Constants in place of the items show how many groups or rows there are: there is one for each of
them, or one for all. Without an ordering they can always be computed. -/
structure Shows (p : SelectPlan) (answers : SelectPlan → Option (Contents κ)) (units : Nat) :
    Prop where
  length : ∀ {dedup order c}, answers (p.constants dedup order) = some c →
    c.rows.length = if dedup then min units 1 else units
  unordered : ∀ dedup, ∃ c, answers (p.constants dedup []) = some c

/-- How many rows a selection has before its page, by the number of its groups or rows: one if all
rows are put together, and otherwise as many, unless they are to be distinct. -/
structure Yields (m : Server κ) (p : SelectPlan) (found units : Nat) : Prop where
  folded : p.Folds m → found = 1
  each : ¬ p.Folds m → p.distinct = false → found = units
  any : ¬ p.Folds m → (found = 0 ↔ units = 0)

end SelectPlan

namespace Builder

/-- How many rows a query skips. -/
def skipped (b : Builder) : Nat := Value.countOf b.offset

/-- Where the question whether there are rows is answered otherwise than the query itself, by the
number of rows of the query before its page and the number of groups or rows for its items: a limit
of zero is not heeded, all constants are the same when they are to be distinct, and rows that are
put together are counted one by one. -/
inductive Misled (m : Server κ) (b : Builder) (found units : Nat) : Prop where
  | closed (hlimit : b.limit.map Value.count = some 0)
      (hskip : b.skipped < if b.distinct then min units 1 else units)
  | repeated (hlimit : b.limit.map Value.count ≠ some 0) (hdistinct : b.distinct = true)
      (hskip : 0 < b.skipped) (hfound : b.skipped < found)
  | empty (hlimit : b.limit.map Value.count ≠ some 0) (hfolds : b.plan.Folds m)
      (hskip : b.skipped = 0) (hunits : units = 0)
  | beyond (hlimit : b.limit.map Value.count ≠ some 0) (hfolds : b.plan.Folds m)
      (hdistinct : b.distinct = false) (hskip : 0 < b.skipped) (hunits : b.skipped < units)

end Builder

namespace Server

/-- What a server tells about whether a query has rows. -/
def any? (m : Server κ) (rounds : Nat) (b : Builder) (tables : Tables κ) : Option Bool :=
  (m.answer? rounds (.select b.existsPlan) tables).map fun c => !c.rows.isEmpty

/-- The first row of a query, if it has one. -/
def first? (m : Server κ) (rounds : Nat) (b : Builder) (tables : Tables κ) :
    Option (Option (List (Datum κ))) :=
  (m.answer? rounds (b.setLimit (some (.number (.int 1)))).query tables).map fun c => c.rows.head?

end Server

/-! ## Runs -/

namespace Run
variable {w : Waiting} {b : Builder} {σ τ : Session} {d : Dialect} {result : ResultSet}
  {rows : List Row} {tables : Tables κ} {c : Contents κ}

/-- A run tells what the server tells, if the reply to the statement has the rows of the answer and
they can be read. -/
theorem exists_told (hanswer : m.answer? rounds (.select b.existsPlan) tables = some c)
    (hasked : ask w b b.existsPlan σ = (.ok (d, result), τ))
    (hreply : result.rows.length = c.rows.length)
    (hrows : decodeRows b.fields d τ.registry result.rows = .ok rows) :
    ∃ t, m.any? rounds b tables = some t ∧ exists_ w b σ = (.ok t, τ) := by
  have hlength : rows.length = c.rows.length := (length_decodeRows hrows).trans hreply
  have hempty : rows.isEmpty = c.rows.isEmpty := by
    rw [Bool.eq_iff_iff, List.isEmpty_iff_length_eq_zero, List.isEmpty_iff_length_eq_zero, hlength]
  refine ⟨!c.rows.isEmpty, ?_, ?_⟩
  · rw [Server.any?, hanswer]
    rfl
  · rw [exists_of_ask hasked hrows, hempty]

/-- A run without relations comes back with the first new record, if there is a first row. -/
theorem one_told (hrequests : b.requests = [])
    (hanswer : m.answer? rounds (b.setLimit (some (.number (.int 1)))).query tables = some c)
    (hasked : ask w (b.setLimit (some (.number (.int 1))))
      (b.setLimit (some (.number (.int 1)))).plan σ = (.ok (d, result), τ))
    (hreply : result.rows.length = c.rows.length)
    (hrows : decodeRows b.fields d τ.registry result.rows = .ok rows) :
    ∃ row, m.first? rounds b tables = some row ∧
      (one w b σ).1 = .ok (row.map fun _ => τ.store.records.size) := by
  have hlength : rows.length = c.rows.length := (length_decodeRows hrows).trans hreply
  have hall := all_of_ask (b := b.setLimit (some (.number (.int 1)))) hrequests hasked hrows
  refine ⟨c.rows.head?, ?_, ?_⟩
  · rw [Server.first?, hanswer]
    rfl
  · rw [one, bind_ok hall, (τ.store.addRows_spec rows).1, hlength]
    cases c.rows with
    | nil => rfl
    | cons row rest => rfl

end Run

namespace Builder
variable {b : Builder}

omit [DecidableEq κ] in
/-- Where a question is misled, the constants tell otherwise than the query. -/
theorem Misled.differs {found units : Nat} (hyields : b.plan.Yields m found units)
    (h : b.Misled m found units) :
    ¬ ((b.skipped < if b.distinct then min units 1 else units) ↔
      b.limit.map Value.count ≠ some 0 ∧ b.skipped < found) := by
  intro hsame
  -- in each of these cases one side holds and the other one does not
  cases h with
  | closed hlimit hskip => exact (hsame.1 hskip).1 hlimit
  | repeated hlimit hdistinct hskip hfound =>
    have htold := hsame.2 ⟨hlimit, hfound⟩
    rw [hdistinct, if_pos rfl] at htold
    omega
  | empty hlimit hfolds hskip hunits =>
    have hone := hyields.folded hfolds
    have htold := hsame.2 ⟨hlimit, by omega⟩
    rw [hunits, Nat.zero_min, ite_self] at htold
    exact Nat.not_lt_zero _ htold
  | beyond hlimit hfolds hdistinct hskip hunits =>
    have hone := hyields.folded hfolds
    rw [hdistinct, if_neg Bool.false_ne_true] at hsame
    have hfound := (hsame.1 hunits).2
    omega

/-- A user, of whom nothing but the table is known. -/
def user : Model where
  name := "User"
  table := "users"
  primaryKey := "id"
  connection := "main"
  fields := []
  relations := []
  autoFields := []

/-- The values of a reply. -/
def shown : Datum String → Value
  | .null => .null
  | .int i => .number (.int i)
  | .truth t => .bool t
  | .other s => .string s

end Builder
end PolyQuery
