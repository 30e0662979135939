import Mathlib.Data.List.Dedup
import PolyQuery.Expr

/-! What queries give on tables. Conditions have three truth values, a join pairs rows, a union puts
the rows of its operands together, and a recursive union evaluates its second operand on the rows of
the round before until there are none: `exhaust`. What is not described here, such as groups and
orderings, gives nothing. The results about single clauses tell which rows there are, not in which
order: `mem_kept`, `mem_mapM` and `mem_exhaust`. -/
namespace PolyQuery

/-- What a column may hold: nothing, an integer, a truth value, or a value of another type, which
is only compared for equality. -/
inductive Datum (κ : Type) where
  | null
  | int (i : Int)
  | truth (b : Bool)
  | other (k : κ)
  deriving DecidableEq

/-- The columns and the rows of a table or of a result. -/
structure Contents (κ : Type) where
  columns : List String
  rows : List (List (Datum κ))

/-- Tables by name; the first of a name counts. -/
abbrev Tables (κ : Type) := List (String × Contents κ)

/-- A row of a source, under the name by which a query refers to the source. -/
structure SourceRow (κ : Type) where
  source : String
  fields : List (String × Datum κ)

section Expressions
variable {κ : Type} [DecidableEq κ]

namespace Datum

/-- Equality, which is unknown where nothing is compared. -/
def equal : Datum κ → Datum κ → Datum κ
  | .null, _ => .null
  | _, .null => .null
  | a, b => .truth (decide (a = b))

/-- What is done to two integers, and gives nothing where one of them is nothing. -/
def onInts (f : Int → Int → Datum κ) : Datum κ → Datum κ → Option (Datum κ)
  | .null, _ => some .null
  | _, .null => some .null
  | .int i, .int j => some (f i j)
  | _, _ => none

/-- Negation. -/
def not : Datum κ → Option (Datum κ)
  | .null => some .null
  | .truth b => some (.truth !b)
  | _ => none

/-- Conjunction: what is false with one unknown side is false. -/
def and : Datum κ → Datum κ → Option (Datum κ)
  | .truth true, .truth b => some (.truth b)
  | .truth true, .null => some .null
  | .truth false, .truth _ => some (.truth false)
  | .truth false, .null => some (.truth false)
  | .null, .truth b => some (if b then .null else .truth false)
  | .null, .null => some .null
  | _, _ => none

/-- Disjunction. -/
def or (a b : Datum κ) : Option (Datum κ) := do
  let both ← (← a.not).and (← b.not)
  both.not

/-- Membership: true if one of the data is equal, unknown if one might be. -/
def among (a : Datum κ) (data : List (Datum κ)) : Datum κ :=
  if data.any fun b => a.equal b = .truth true then .truth true
  else if data.any fun b => a.equal b = .null then .null
  else .truth false

end Datum

/-- What an operator gives. -/
def BinaryOp.datum? : BinaryOp → Datum κ → Datum κ → Option (Datum κ)
  | .equal, a, b => some (a.equal b)
  | .notEqual, a, b => (a.equal b).not
  | .less, a, b => a.onInts (fun i j => .truth (decide (i < j))) b
  | .lessEqual, a, b => a.onInts (fun i j => .truth (decide (i ≤ j))) b
  | .greater, a, b => a.onInts (fun i j => .truth (decide (j < i))) b
  | .greaterEqual, a, b => a.onInts (fun i j => .truth (decide (j ≤ i))) b
  | .and, a, b => a.and b
  | .or, a, b => a.or b
  | .add, a, b => a.onInts (fun i j => .int (i + j)) b
  | .sub, a, b => a.onInts (fun i j => .int (i - j)) b
  | .mul, a, b => a.onInts (fun i j => .int (i * j)) b
  | _, _, _ => none

/-- What an operator on one operand gives. -/
def UnaryOp.datum? : UnaryOp → Datum κ → Option (Datum κ)
  | .not, a => a.not
  | .isNull, a => some (.truth (decide (a = .null)))
  | .isNotNull, a => some (.truth (decide (a ≠ .null)))
  | _, _ => none

/-- The number that a run of digits stands for. -/
def numeral? (sql : String) : Option Nat :=
  if sql.toList ≠ [] ∧ sql.toList.all Char.isDigit then some (Nat.ofDigitChars 10 sql.toList 0)
  else none

/-- What a column holds in rows of sources that are joined. Without a source it must be a column of
exactly one of them. -/
def columnOf? (row : List (SourceRow κ)) (name : String) : Option String → Option (Datum κ)
  | some source => (row.find? fun r => r.source == source).bind fun r => r.fields.lookup name
  | none =>
    match row.filterMap fun r => r.fields.lookup name with
    | [d] => some d
    | _ => none

variable (bound : Value → Hint → Datum κ)

mutual

/-- What an expression gives on rows of sources that are joined. -/
def Expr.datum? (row : List (SourceRow κ)) : Expr → Option (Datum κ)
  | .column source name _ => columnOf? row name source
  | .literal v hint => some (bound v hint)
  | .raw sql [] => (numeral? sql).map fun n => .int n
  | .binary op left right => do
    let a ← left.datum? row
    let b ← right.datum? row
    op.datum? a b
  | .unary op operand => do
    let a ← operand.datum? row
    op.datum? a
  | .inList operand values negated => do
    let a ← operand.datum? row
    let data ← dataOf? row values
    if negated then (a.among data).not else some (a.among data)
  | .named e _ => e.datum? row
  | _ => none

/-- What expressions give. -/
def dataOf? (row : List (SourceRow κ)) : List Expr → Option (List (Datum κ))
  | [] => some []
  | e :: es => do
    let d ← e.datum? row
    let ds ← dataOf? row es
    some (d :: ds)

end

/-- Those for which a condition is true; it may be false or unknown of the others. -/
def kept {α : Type} (condition : α → Option (Datum κ)) : List α → Option (List α)
  | [] => some []
  | x :: xs => do
    let verdict ← condition x
    let rest ← kept condition xs
    some (if verdict = .truth true then x :: rest else rest)

/-- The rows that meet a condition, if there is one. -/
def meeting (condition : Option Expr) (rows : List (List (SourceRow κ))) :
    Option (List (List (SourceRow κ))) :=
  match condition with
  | none => some rows
  | some e => kept (fun row => e.datum? bound row) rows

/-- The same rows under other column names, if there are any. -/
def Contents.renamed? (c : Contents κ) (columns : Option (List String)) : Option (Contents κ) :=
  match columns with
  | none => some c
  | some names => if names.length = c.columns.length then some ⟨names, c.rows⟩ else none

/-- The rows under a name. -/
def Contents.under (c : Contents κ) (source : String) : List (List (SourceRow κ)) :=
  c.rows.map fun row => [⟨source, c.columns.zip row⟩]

/-- The rows of a table, then those that a step gives from them, and so on until there are none.
There are at most `rounds` steps. -/
def exhaust {α : Type} (step : List α → Option (List α)) : Nat → List α → Option (List α)
  | _, [] => some []
  | 0, _ :: _ => none
  | rounds + 1, x :: xs => do
    let next ← step (x :: xs)
    let rest ← exhaust step rounds next
    some (x :: xs ++ rest)

mutual

/-- What a query gives on tables, where recursive operands are evaluated at most `rounds` times. -/
def Query.contents? (rounds : Nat) : Query → Tables κ → Option (Contents κ)
  | .select p, tables => p.contents? rounds tables
  | .combined p, tables => p.contents? rounds tables

/-- What a selection gives. -/
def SelectPlan.contents? (rounds : Nat) : SelectPlan → Tables κ → Option (Contents κ)
  | ⟨items, some source, joins, condition, [], none, [], none, distinct, ctes⟩, tables => do
    let tables ← tablesWith? rounds ctes tables
    let rows ← source.rows? rounds tables
    let rows ← joinedRows? rounds joins tables rows
    let rows ← meeting bound condition rows
    let columns ← items.mapM Expr.outputName
    let results ← rows.mapM fun row => dataOf? bound row items
    some ⟨columns, if distinct then results.dedup else results⟩
  | _, _ => none

/-- What a union gives. -/
def SetPlan.contents? (rounds : Nat) : SetPlan → Tables κ → Option (Contents κ)
  | ⟨.union, all, left, right, [], none, ctes⟩, tables => do
    let tables ← tablesWith? rounds ctes tables
    let l ← left.contents? rounds tables
    let r ← right.contents? rounds tables
    if l.columns.length = r.columns.length then
      some ⟨l.columns, if all then l.rows ++ r.rows else (l.rows ++ r.rows).dedup⟩
    else none
  | _, _ => none

/-- The rows of a source. -/
def Source.rows? (rounds : Nat) : Source → Tables κ → Option (List (List (SourceRow κ)))
  | .table name shown, tables => (tables.lookup name).map fun c => c.under (shown.getD name)
  | .query q shown, tables => (q.contents? rounds tables).map fun c => c.under shown

/-- Rows joined with those of further sources. -/
def joinedRows? (rounds : Nat) :
    List Join → Tables κ → List (List (SourceRow κ)) → Option (List (List (SourceRow κ)))
  | [], _, rows => some rows
  | j :: js, tables, rows => do
    let rows ← j.rows? rounds tables rows
    joinedRows? rounds js tables rows

/-- Rows joined with those of one source: all pairs that meet the condition. -/
def Join.rows? (rounds : Nat) :
    Join → Tables κ → List (List (SourceRow κ)) → Option (List (List (SourceRow κ)))
  | ⟨.inner, target, on, _⟩, tables, rows => do
    let others ← target.rows? rounds tables
    meeting bound on (rows.flatMap fun row => others.map fun other => row ++ other)
  | _, _, _ => none

/-- The tables with those of common table expressions, each of which may use the ones before. -/
def tablesWith? (rounds : Nat) : List Cte → Tables κ → Option (Tables κ)
  | [], tables => some tables
  | c :: cs, tables => do
    let result ← c.contents? rounds tables
    tablesWith? rounds cs ((c.name, result) :: tables)

/-- What a common table expression gives. The second operand of a recursive one reads the rows of
the round before under its name. -/
def Cte.contents? (rounds : Nat) : Cte → Tables κ → Option (Contents κ)
  | ⟨name, .combined ⟨.union, true, left, right, [], none, []⟩, columns, _, true⟩, tables => do
    let first ← left.contents? rounds tables
    let first ← first.renamed? columns
    let rows ← exhaust (fun working => do
      let next ← right.contents? rounds ((name, ⟨first.columns, working⟩) :: tables)
      if next.columns.length = first.columns.length then some next.rows else none)
      rounds first.rows
    some ⟨first.columns, rows⟩
  | ⟨_, q, columns, _, false⟩, tables => do
    let result ← q.contents? rounds tables
    result.renamed? columns
  | _, _ => none

end

end Expressions

/-! ## Which rows there are -/

section Rows
variable {κ α β : Type} [DecidableEq κ]

theorem mem_kept {condition : α → Option (Datum κ)} {xs : List α}
    (h : ∀ x ∈ xs, ∃ d, condition x = some d) :
    ∃ ys, kept condition xs = some ys ∧
      ∀ x, x ∈ ys ↔ x ∈ xs ∧ condition x = some (.truth true) := by
  induction xs with
  | nil => exact ⟨[], rfl, fun x => ⟨fun hx => (nomatch hx), fun hx => (nomatch hx.1)⟩⟩
  | cons x xs ih =>
    obtain ⟨d, hd⟩ := h x (List.mem_cons_self ..)
    obtain ⟨ys, hys, hmem⟩ := ih fun y hy => h y (List.mem_cons_of_mem _ hy)
    refine ⟨if d = .truth true then x :: ys else ys, ?_, ?_⟩
    · rw [kept, hd, hys]
      rfl
    · intro y
      -- false and unknown are one case: only what is true is kept
      by_cases htrue : d = .truth true
      · rw [if_pos htrue, List.mem_cons, List.mem_cons, hmem, or_and_right]
        refine or_congr_left ?_
        exact ⟨fun hy => ⟨hy, hy ▸ hd.trans (congrArg some htrue)⟩, And.left⟩
      · rw [if_neg htrue, List.mem_cons, hmem, or_and_right]
        refine ⟨.inr, fun hy => hy.resolve_left ?_⟩
        rintro ⟨rfl, hverdict⟩
        exact htrue (Option.some.inj (hd.symm.trans hverdict))

theorem mem_mapM {f : α → Option β} {xs : List α} (h : ∀ x ∈ xs, ∃ y, f x = some y) :
    ∃ ys, xs.mapM f = some ys ∧ ∀ y, y ∈ ys ↔ ∃ x ∈ xs, f x = some y := by
  induction xs with
  | nil => exact ⟨[], rfl, fun y => ⟨fun hy => (nomatch hy), fun ⟨_, hx, _⟩ => (nomatch hx)⟩⟩
  | cons x xs ih =>
    obtain ⟨y, hy⟩ := h x (List.mem_cons_self ..)
    obtain ⟨ys, hys, hmem⟩ := ih fun z hz => h z (List.mem_cons_of_mem _ hz)
    refine ⟨y :: ys, ?_, ?_⟩
    · rw [List.mapM_cons, hy, hys]
      rfl
    · intro z
      rw [List.mem_cons, hmem, List.exists_mem_cons_iff, hy, Option.some.injEq, eq_comm]

/-- Behind an empty level all levels are empty. -/
theorem mem_nil_levels {level : Nat → α → Prop} {last k : Nat}
    (hempty : ∀ k, (∀ x, ¬ level k x) → ∀ x, ¬ level (k + 1) x)
    (hnone : ∀ x, x ∈ ([] : List α) ↔ level k x) (x : α) :
    x ∈ ([] : List α) ↔ ∃ n, k ≤ n ∧ n ≤ last ∧ level n x := by
  have hbehind : ∀ j, ∀ x, ¬ level (k + j) x := by
    intro j
    induction j with
    | zero => exact fun x hx => nomatch (hnone x).2 hx
    | succ j ih => exact hempty (k + j) ih
  constructor
  · exact fun hx => nomatch hx
  · rintro ⟨n, hkn, -, hx⟩
    obtain ⟨j, rfl⟩ := Nat.exists_eq_add_of_le hkn
    exact absurd hx (hbehind j x)

/-- Steps from rows that are those of one level give all rows of this level and those after it,
where a step leads from each level to the next, a level behind an empty one is empty, and the last
level is reached in time. -/
theorem mem_exhaust {step : List α → Option (List α)} {level : Nat → α → Prop} {last : Nat}
    (hstep : ∀ k working, (∀ x, x ∈ working ↔ level k x) →
      ∃ next, step working = some next ∧ ∀ x, x ∈ next ↔ level (k + 1) x)
    (hempty : ∀ k, (∀ x, ¬ level k x) → ∀ x, ¬ level (k + 1) x)
    (hlast : ∀ k, last < k → ∀ x, ¬ level k x) {rounds k : Nat} (hrounds : last < k + rounds)
    {working : List α} (hworking : ∀ x, x ∈ working ↔ level k x) :
    ∃ rows, exhaust step rounds working = some rows ∧
      ∀ x, x ∈ rows ↔ ∃ n, k ≤ n ∧ n ≤ last ∧ level n x := by
  induction rounds generalizing k working with
  | zero =>
    cases working with
    | nil => exact ⟨[], rfl, mem_nil_levels hempty hworking⟩
    -- a row would belong to a level behind the last one
    | cons x xs => exact absurd ((hworking x).1 (List.mem_cons_self ..)) (hlast k hrounds x)
  | succ rounds ih =>
    cases working with
    | nil => exact ⟨[], rfl, mem_nil_levels hempty hworking⟩
    | cons x xs =>
      obtain ⟨next, hnext, hlevel⟩ := hstep k (x :: xs) hworking
      obtain ⟨rest, hrest, hmem⟩ := ih (by omega) hlevel
      refine ⟨x :: xs ++ rest, ?_, ?_⟩
      · rw [exhaust, hnext, Option.bind_eq_bind, Option.bind_some, hrest]
        rfl
      · intro y
        have hk : k ≤ last := by
          by_contra hk
          exact hlast k (by omega) x ((hworking x).1 (List.mem_cons_self ..))
        rw [List.mem_append, hworking, hmem]
        constructor
        · rintro (hy | ⟨n, hkn, hn, hy⟩)
          · exact ⟨k, Nat.le_refl k, hk, hy⟩
          · exact ⟨n, by omega, hn, hy⟩
        · rintro ⟨n, hkn, hn, hy⟩
          rcases Nat.eq_or_lt_of_le hkn with rfl | hkn
          · exact .inl hy
          · exact .inr ⟨n, hkn, hn, hy⟩

end Rows

section Clauses
variable {κ : Type} [DecidableEq κ] {bound : Value → Hint → Datum κ} {rounds : Nat}
  {tables inner : Tables κ} {source : Source} {condition : Option Expr}
  {rows joined others : List (List (SourceRow κ))}

theorem mem_meeting (h : ∀ e ∈ condition, ∀ row ∈ rows, ∃ d, e.datum? bound row = some d) :
    ∃ left, meeting bound condition rows = some left ∧ ∀ row, row ∈ left ↔
      row ∈ rows ∧ ∀ e ∈ condition, e.datum? bound row = some (.truth true) := by
  cases condition with
  | none => exact ⟨rows, rfl, fun row => ⟨fun hrow => ⟨hrow, fun e he => nomatch he⟩, And.left⟩⟩
  | some e =>
    obtain ⟨left, hleft, hmem⟩ := mem_kept (h e rfl)
    refine ⟨left, hleft, fun row => (hmem row).trans (and_congr_right fun _ => ?_)⟩
    exact ⟨fun he _ heq => Option.some.inj heq ▸ he, fun he => he e rfl⟩

/-- A join gives the pairs that meet its condition. -/
theorem Join.mem_rows? {on : Option Expr} {blank : Bool}
    (hothers : source.rows? bound rounds tables = some others)
    (hon : ∀ e ∈ on, ∀ row ∈ rows, ∀ other ∈ others, ∃ d, e.datum? bound (row ++ other) = some d) :
    ∃ joined, Join.rows? bound rounds ⟨.inner, source, on, blank⟩ tables rows = some joined ∧
      ∀ r, r ∈ joined ↔ ∃ row ∈ rows, ∃ other ∈ others, r = row ++ other ∧
        ∀ e ∈ on, e.datum? bound r = some (.truth true) := by
  let pairs := rows.flatMap fun row => others.map fun other => row ++ other
  have hpairs : ∀ r, r ∈ pairs ↔ ∃ row ∈ rows, ∃ other ∈ others, r = row ++ other := by
    intro r
    simp only [pairs, List.mem_flatMap, List.mem_map, eq_comm]
  have hverdicts : ∀ e ∈ on, ∀ r ∈ pairs, ∃ d, e.datum? bound r = some d := by
    intro e he r hr
    obtain ⟨row, hrow, other, hother, rfl⟩ := (hpairs r).1 hr
    exact hon e he row hrow other hother
  -- an inner join keeps the pairs that its condition holds of, and adds no rows without a partner
  obtain ⟨joined, hjoined, hmem⟩ := mem_meeting hverdicts
  refine ⟨joined, ?_, ?_⟩
  · rw [Join.rows?, hothers]
    exact hjoined
  · intro r
    rw [hmem, hpairs]
    constructor
    · rintro ⟨⟨row, hrow, other, hother, heq⟩, hr⟩
      exact ⟨row, hrow, other, hother, heq, hr⟩
    · rintro ⟨row, hrow, other, hother, heq, hr⟩
      exact ⟨⟨row, hrow, other, hother, heq⟩, hr⟩

/-- A selection without groups, ordering and pages. -/
structure SelectPlan.IsPlain (p : SelectPlan) : Prop where
  groupBy : p.groupBy = []
  having : p.having = none
  orderBy : p.orderBy = []
  pagination : p.pagination = none

/-- A selection gives what its items are on the rows that meet its condition. -/
theorem SelectPlan.mem_contents? (p : SelectPlan) (hplain : p.IsPlain) {columns : List String}
    (htables : tablesWith? bound rounds p.ctes tables = some inner)
    (hsource : p.source = some source) (hrows : source.rows? bound rounds inner = some rows)
    (hjoined : joinedRows? bound rounds p.joins inner rows = some joined)
    (hcolumns : p.items.mapM Expr.outputName = some columns)
    (hcondition : ∀ e ∈ p.condition, ∀ row ∈ joined, ∃ d, e.datum? bound row = some d)
    (hitems : ∀ row ∈ joined, ∃ data, dataOf? bound row p.items = some data) :
    ∃ results, p.contents? bound rounds tables = some ⟨columns, results⟩ ∧
      (p.distinct = true → results.Nodup) ∧
      ∀ data, data ∈ results ↔ ∃ row ∈ joined,
        (∀ e ∈ p.condition, e.datum? bound row = some (.truth true)) ∧
          dataOf? bound row p.items = some data := by
  obtain ⟨items, _, joins, condition, _, _, _, _, distinct, ctes⟩ := p
  -- without groups and an order each row that is left shows one row of data
  obtain ⟨rfl, rfl, rfl, rfl⟩ := hplain
  obtain rfl := hsource
  obtain ⟨left, hleft, hmet⟩ := mem_meeting hcondition
  obtain ⟨results, hresults, hmem⟩ := mem_mapM (f := fun row => dataOf? bound row items)
    fun row hrow => hitems row ((hmet row).1 hrow).1
  refine ⟨if distinct then results.dedup else results, ?_, ?_, ?_⟩
  · dsimp only at htables hjoined hcolumns hleft
    rw [SelectPlan.contents?, htables]
    simp only [Option.bind_eq_bind, Option.bind_some, hrows, hjoined, hleft, hcolumns, hresults]
  · rintro rfl
    exact results.nodup_dedup
  · intro data
    have hdistinct : data ∈ (if distinct then results.dedup else results) ↔ data ∈ results := by
      cases distinct with
      | true => exact List.mem_dedup
      | false => exact .rfl
    rw [hdistinct, hmem]
    constructor
    · rintro ⟨row, hrow, hdata⟩
      exact ⟨row, ((hmet row).1 hrow).1, ((hmet row).1 hrow).2, hdata⟩
    · rintro ⟨row, hrow, he, hdata⟩
      exact ⟨row, (hmet row).2 ⟨hrow, he⟩, hdata⟩

end Clauses

/-! ## Data -/

section Data
variable {κ : Type} [DecidableEq κ] {a b : Datum κ}

theorem Datum.equal_eq_true : a.equal b = .truth true ↔ a = b ∧ a ≠ .null := by
  cases a <;> cases b <;> simp [equal]

theorem Datum.among_eq_true {data : List (Datum κ)} :
    a.among data = .truth true ↔ a ∈ data ∧ a ≠ .null := by
  have hany : (data.any fun b => a.equal b = .truth true) = true ↔ a ∈ data ∧ a ≠ .null := by
    simp only [List.any_eq_true, decide_eq_true_eq, Datum.equal_eq_true]
    constructor
    · rintro ⟨b, hb, rfl, hnull⟩
      exact ⟨hb, hnull⟩
    · rintro ⟨ha, hnull⟩
      exact ⟨a, ha, rfl, hnull⟩
  rw [← hany]
  unfold among
  -- with no equal datum the result is unknown or false, but not true
  cases data.any fun b => a.equal b = .truth true with
  | true => exact ⟨fun _ => rfl, fun _ => if_pos rfl⟩
  | false =>
    rw [if_neg Bool.false_ne_true]
    split <;> simp

/-- The decimal text of a number stands for it. -/
theorem numeral?_repr (n : Nat) : numeral? (toString n) = some n := by
  have hdigits : (toString n).toList = Nat.toDigits 10 n := Nat.toList_repr
  unfold numeral?
  rw [hdigits, if_pos, Nat.ofDigitChars_ten_toDigits]
  refine ⟨Nat.toDigits_ne_nil, List.all_eq_true.2 fun c hc => ?_⟩
  exact Nat.isDigit_of_mem_toDigits (by decide) (by decide) hc

end Data

/-- A row that is as long as the columns has a datum in each of them. -/
theorem exists_lookup_zip {α : Type} {columns : List String} {row : List α} {name : String}
    (hlength : row.length = columns.length) (hname : name ∈ columns) :
    ∃ d, (columns.zip row).lookup name = some d := by
  induction columns generalizing row with
  | nil => cases hname
  | cons column columns ih =>
    cases row with
    | nil => cases hlength
    | cons d row =>
      by_cases heq : name = column
      · exact ⟨d, by rw [List.zip_cons_cons, List.lookup_cons, beq_iff_eq.2 heq]⟩
      · rw [List.zip_cons_cons, List.lookup_cons, beq_false_of_ne heq]
        exact ih (Nat.succ.inj hlength) ((List.mem_cons.1 hname).resolve_left heq)

end PolyQuery
