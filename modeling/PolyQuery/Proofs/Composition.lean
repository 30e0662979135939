import PolyQuery.Proofs.CalmText
import PolyQuery.Proofs.Fragment

/-! Statements as compositions. A statement is put together from a few kinds of texts, from bound
values, raw texts and laid out calls, always side by side or between parentheses. What holds of
those and is kept by putting together holds of every statement: `Closed.of_statement`. -/
namespace PolyQuery

/-- What is asked of the names of calls, of raw texts and of the pages of a statement. -/
structure Rules where
  call : String → Prop
  raw : String → Prop
  page : Pagination → Prop

namespace Rules

mutual

/-- Every part of a query that is written follows the rules. -/
def query (r : Rules) : Query → Prop
  | .select p => select r p
  | .combined p => combined r p

def select (r : Rules) : SelectPlan → Prop
  | ⟨items, source, joined, condition, groupBy, having, orderBy, pagination, _, ctes⟩ =>
    cteList r ctes ∧ exprs r items ∧ optionalSource r source ∧ joins r joined ∧
      optional r condition ∧ exprs r groupBy ∧ optional r having ∧ terms r orderBy ∧
      ∀ p, pagination = some p → r.page p

def combined (r : Rules) : SetPlan → Prop
  | ⟨_, _, left, right, orderBy, pagination, ctes⟩ =>
    cteList r ctes ∧ query r left ∧ query r right ∧ terms r orderBy ∧
      ∀ p, pagination = some p → r.page p

def cteList (r : Rules) : List Cte → Prop
  | [] => True
  | c :: rest => cte r c ∧ cteList r rest

def cte (r : Rules) : Cte → Prop
  | ⟨_, body, _, _, _⟩ => query r body

def source (r : Rules) : Source → Prop
  | .table _ _ => True
  | .query q _ => query r q

def optionalSource (r : Rules) : Option Source → Prop
  | none => True
  | some s => source r s

def joins (r : Rules) : List Join → Prop
  | [] => True
  | j :: rest => join r j ∧ joins r rest

def join (r : Rules) : Join → Prop
  | ⟨_, target, on, _⟩ => source r target ∧ optional r on

/-- The operand of an empty list is not written, so nothing is asked of it. -/
def expr (r : Rules) : Expr → Prop
  | .column _ _ _ => True
  | .star _ => True
  | .literal _ _ => True
  | .binary _ left right => expr r left ∧ expr r right
  | .unary _ e => expr r e
  | .inList e values _ => values = [] ∨ expr r e ∧ exprs r values
  | .inQuery e q _ => expr r e ∧ query r q
  | .call name arguments _ windowed =>
    r.call name ∧ exprs r arguments ∧ optionalWindow r windowed
  | .window w => window r w
  | .subquery q => query r q
  | .cases branchList otherwise => branches r branchList ∧ optional r otherwise
  | .named e _ => expr r e
  | .raw sql _ => r.raw sql

def exprs (r : Rules) : List Expr → Prop
  | [] => True
  | e :: es => expr r e ∧ exprs r es

def optional (r : Rules) : Option Expr → Prop
  | none => True
  | some e => expr r e

def branches (r : Rules) : List Branch → Prop
  | [] => True
  | ⟨condition, result⟩ :: rest => expr r condition ∧ expr r result ∧ branches r rest

def window (r : Rules) : Window → Prop
  | ⟨partitionBy, orderBy, _⟩ => exprs r partitionBy ∧ terms r orderBy

def optionalWindow (r : Rules) : Option Window → Prop
  | none => True
  | some w => window r w

def terms (r : Rules) : List OrderTerm → Prop
  | [] => True
  | ⟨e, _⟩ :: rest => expr r e ∧ terms r rest

end

def rows (r : Rules) : List (List Expr) → Prop
  | [] => True
  | row :: rest => exprs r row ∧ rows r rest

/-- Every part of a statement that is written follows the rules. -/
def statement (r : Rules) : Statement → Prop
  | .query q => query r q
  | .insert p => rows r p.rows ∧ exprs r p.returning
  | .update p =>
    exprs r (p.assignments.map Assignment.value) ∧ optional r p.condition ∧ exprs r p.returning
  | .delete p => optional r p.condition ∧ exprs r p.returning

end Rules

/-- A class of texts and a class of fragments that are kept by putting together. -/
structure Closed (d : Dialect) (r : Rules) (T : String → Prop) (P : Fragment → Prop) : Prop where
  calm : ∀ s, CalmText s → T s
  name : ∀ n, T (d.quoteIdentifier n)
  both : ∀ s t, T s → T t → T (s ++ t)
  between : ∀ s, T s → T ("(" ++ s ++ ")")
  limit : ∀ p v, r.page p → p.limit = some v →
    T v.text ∧ T (Paging.plus (Paging.skipped p.offset) v).text
  offset : ∀ p, r.page p →
    T (Paging.skipped p.offset).text ∧ ∀ v, p.offset = some v → T v.text
  empty : P .empty
  text : ∀ s, T s → P (.text s)
  bind : ∀ b, P (.bind b)
  append : ∀ f g, P f → P g → P (f ++ g)
  around : ∀ s t f, T s → T t → P f →
    P (Fragment.text (s ++ "(") ++ f ++ Fragment.text (")" ++ t))
  around₂ : ∀ s s' t t' f, T s → T s' → T t → T t' → P f →
    P (Fragment.text (s ++ "(" ++ s' ++ "(") ++ f ++ Fragment.text (")" ++ t ++ ")" ++ t'))
  call : ∀ name distinct fs, r.call name → (∀ f ∈ fs, P f) →
    P (Fragment.ofLayout (d.functionLayout name fs.length distinct) fs)
  raw : ∀ sql values f, r.raw sql → Raw.fragment sql values = .ok f → P f

namespace Closed
open Sql
variable {d : Dialect} {r : Rules} {T : String → Prop} {P : Fragment → Prop}

theorem intercalate (hc : Closed d r T P) {separator : String} (hs : T separator)
    {ss : List String} (h : ∀ s ∈ ss, T s) : T (separator.intercalate ss) := by
  induction ss with
  | nil => exact hc.calm "" (calmText_ofList rfl)
  | cons s ss ih =>
    cases ss with
    | nil => simpa using h s
    | cons t ts =>
      rw [String.intercalate_cons_cons]
      exact hc.both _ _ (hc.both _ _ (h s (by simp)) hs) (ih fun u hu => h u (by simp [hu]))

theorem qualifiedName (hc : Closed d r T P) (name : String) : T (d.quoteQualified name) := by
  unfold Dialect.quoteQualified
  apply hc.intercalate (hc.calm "." (calmText_ofList rfl))
  intro s hs
  obtain ⟨part, _, rfl⟩ := List.mem_map.1 hs
  dsimp only
  split
  · next h => rw [h]; exact hc.calm "*" (calmText_ofList rfl)
  · exact hc.name _

theorem names (hc : Closed d r T P) (names : List String) :
    T (", ".intercalate (names.map d.quoteIdentifier)) := by
  apply hc.intercalate (hc.calm ", " (calmText_ofList rfl))
  intro s hs
  obtain ⟨n, _, rfl⟩ := List.mem_map.1 hs
  exact hc.name n

theorem qualified (hc : Closed d r T P) (table : Option String) {name : String} (h : T name) :
    T (Sql.qualified d table name) := by
  cases table with
  | none => exact h
  | some t =>
    unfold Sql.qualified
    dsimp only
    split
    · exact h
    · have hdot := hc.both _ _ (hc.qualifiedName t) (hc.calm "." (calmText_ofList rfl))
      exact hc.both _ _ hdot h

theorem enclosed (hc : Closed d r T P) {f : Fragment} (h : P f) : P f.enclosed :=
  hc.around "" "" f (hc.calm "" (calmText_ofList rfl)) (hc.calm "" (calmText_ofList rfl)) h

theorem join (hc : Closed d r T P) {separator : String} (hs : T separator) {fs : List Fragment}
    (h : ∀ f ∈ fs, P f) : P (Fragment.join separator fs) := by
  induction fs with
  | nil => exact hc.empty
  | cons f fs ih =>
    cases fs with
    | nil => exact h f (by simp)
    | cons g gs =>
      rw [Fragment.join_cons_cons]
      exact hc.append _ _ (hc.append _ _ (h f (by simp)) (hc.text _ hs))
        (ih fun k hk => h k (by simp [hk]))

theorem listed (hc : Closed d r T P) {fs : List Fragment} (h : ∀ f ∈ fs, P f) :
    P (Fragment.join ", " fs) := hc.join (hc.calm ", " (calmText_ofList rfl)) h

theorem clause (hc : Closed d r T P) {keyword : String} (hk : CalmText keyword) {f : Fragment}
    (h : P f) : P (clause keyword f) :=
  hc.append _ _ (hc.text _ (hc.calm _ (hk.append (t := " ") (calmText_ofList rfl)))) h

theorem optionalClause (hc : Closed d r T P) {keyword : String} (hk : CalmText keyword)
    {x : Option Fragment} (h : ∀ f, x = some f → P f) : P (optionalClause keyword x) := by
  cases x with
  | none => exact hc.empty
  | some f => exact hc.clause hk (h f rfl)

theorem listClause (hc : Closed d r T P) {keyword : String} (hk : CalmText keyword)
    {fs : List Fragment} (h : ∀ f ∈ fs, P f) : P (listClause keyword fs) := by
  cases fs with
  | nil => exact hc.empty
  | cons f fs => exact hc.clause hk (hc.listed h)

theorem predicateOperand (hc : Closed d r T P) (e : Expr) {f : Fragment} (h : P f) :
    P (predicateOperand e f) := by
  unfold Sql.predicateOperand
  split
  · exact h
  · exact hc.enclosed h

theorem operand (hc : Closed d r T P) (op : BinaryOp) (side : Side) (e : Expr) {f : Fragment}
    (h : P f) : P (operand op side e f) := by
  unfold Sql.operand
  split
  · exact hc.enclosed h
  · exact h

theorem unary (hc : Closed d r T P) (op : UnaryOp) (e : Expr) {f : Fragment} (h : P f) :
    P (unary op e f) := by
  have hp := hc.predicateOperand e h
  cases op with
  | not => exact hc.append _ _ (hc.text "NOT " (hc.calm _ (calmText_ofList rfl))) hp
  | neg => exact hc.append _ _ (hc.text "-" (hc.calm _ (calmText_ofList rfl))) hp
  | isNull => exact hc.append _ _ hp (hc.text " IS NULL" (hc.calm _ (calmText_ofList rfl)))
  | isNotNull => exact hc.append _ _ hp (hc.text " IS NOT NULL" (hc.calm _ (calmText_ofList rfl)))
  | exists_ => exact hc.append _ _ (hc.text "EXISTS " (hc.calm _ (calmText_ofList rfl))) h
  | notExists => exact hc.append _ _ (hc.text "NOT EXISTS " (hc.calm _ (calmText_ofList rfl))) h

/-- A part of a list holds only items of the list. -/
theorem mem_of_mem_chunks {α : Type} {size fuel : Nat} {xs part : List α} {x : α}
    (hpart : part ∈ chunks size fuel xs) (hx : x ∈ part) : x ∈ xs := by
  induction fuel generalizing xs with
  | zero => cases hpart
  | succ fuel ih =>
    rw [chunks] at hpart
    split at hpart
    · cases hpart
    · rcases List.mem_cons.1 hpart with rfl | hpart
      · exact List.mem_of_mem_take hx
      · exact List.mem_of_mem_drop (ih hpart)

theorem membership (hc : Closed d r T P) (negated : Bool) {test : Fragment} (ht : P test)
    {values : List Fragment} (hv : ∀ f ∈ values, P f) : P (membership d negated test values) := by
  have hkeyword := hc.calm _ (calmText_membershipKeyword negated).spaced
  have htests : ∀ f ∈ (chunks (d.maxInList.getD values.length) values.length values).map
      (fun part => test ++ Fragment.text (" " ++ membershipKeyword negated ++ " (") ++
        Fragment.join ", " part ++ Fragment.text ")"), P f := by
    intro f hf
    obtain ⟨part, hpart, rfl⟩ := List.mem_map.1 hf
    have hlist := hc.around _ "" _ hkeyword (hc.calm "" (calmText_ofList rfl))
      (hc.listed fun f hf => hv f (mem_of_mem_chunks hpart hf))
    have hopen : " " ++ membershipKeyword negated ++ " " ++ "(" =
        " " ++ membershipKeyword negated ++ " (" := String.append_assoc
    rw [hopen] at hlist
    rw [Fragment.append_assoc test, Fragment.append_assoc test]
    exact hc.append _ _ ht hlist
  unfold Sql.membership
  dsimp only
  -- one part stands as it is, several are joined within brackets
  split
  · next t heq =>
    rw [heq] at htests
    exact htests t (by simp)
  · refine hc.enclosed (hc.join ?_ htests)
    cases negated with
    | false => exact hc.calm " OR " (calmText_ofList rfl)
    | true => exact hc.calm " AND " (calmText_ofList rfl)

theorem setOperand (hc : Closed d r T P) (side : Side) (q : Query) {f : Fragment} (h : P f) :
    P (setOperand d side q f) := by
  have hselected := hc.append _ _ (hc.text "SELECT * FROM " (hc.calm _ (calmText_ofList rfl)))
    (hc.enclosed h)
  have hwrapped (wrapped : Bool) :
      P (if wrapped then Fragment.text "SELECT * FROM " ++ f.enclosed else f) := by
    cases wrapped with
    | false => exact h
    | true => exact hselected
  unfold Sql.setOperand
  by_cases hp : d.parenthesizesOperands
  · rw [if_pos hp]
    exact hc.enclosed h
  · rw [if_neg hp]
    exact hwrapped _

theorem aliased (hc : Closed d r T P) {f : Fragment} (h : P f) (name : String) :
    P (aliased d f name) := by
  have hkeyword : T d.tableAliasKeyword := by
    unfold Dialect.tableAliasKeyword
    split
    · exact hc.calm " " (calmText_ofList rfl)
    · exact hc.calm " AS " (calmText_ofList rfl)
  exact hc.append _ _ h (hc.text _ (hc.both _ _ hkeyword (hc.name name)))

theorem table (hc : Closed d r T P) (name : String) (shown : Option String) :
    P (table d name shown) := by
  have hname := hc.text _ (hc.qualifiedName name)
  cases shown with
  | none => exact hname
  | some a =>
    unfold Sql.table
    dsimp only
    split
    · exact hname
    · exact hc.aliased hname a

theorem selectItem (hc : Closed d r T P) (e : Expr) {f : Fragment} (h : P f) :
    P (selectItem d e f) := by
  unfold Sql.selectItem
  split
  · next name _ =>
    have hlabel := hc.both _ _ (hc.calm " AS " (calmText_ofList rfl)) (hc.name name)
    exact hc.append _ _ h (hc.text _ hlabel)
  · exact h

theorem withClause (hc : Closed d r T P) (recursive : Bool) {ctes : List Fragment}
    (hctes : ∀ f ∈ ctes, P f) {body : Fragment} (h : P body) :
    P (withClause d recursive ctes body) := by
  have hspace := hc.text " " (hc.calm _ (calmText_ofList rfl))
  unfold Sql.withClause
  dsimp only
  split
  · exact h
  · refine hc.append _ _ (hc.append _ _ (hc.clause ?_ (hc.listed hctes)) hspace) h
    split
    · exact calmText_ofList rfl
    · exact calmText_ofList rfl

/-- The words before the body of a common table expression. -/
theorem cteHead (hc : Closed d r T P) (name : String) (columns : Option (List String))
    (materialized : Option Bool) :
    T (d.quoteIdentifier name ++ columnList d columns ++ " AS" ++ materialization materialized ++
      " ") := by
  have hcolumns : T (columnList d columns) := by
    cases columns with
    | none => exact hc.calm "" (calmText_ofList rfl)
    | some cs =>
      have hlist := hc.both _ _ (hc.calm " " (calmText_ofList rfl)) (hc.between _ (hc.names cs))
      rw [← String.append_assoc, ← String.append_assoc] at hlist
      exact hlist
  have hwords : CalmText (materialization materialized) := by
    cases materialized with
    | none => exact calmText_ofList rfl
    | some b => cases b <;> exact calmText_ofList rfl
  have has := hc.both _ _ (hc.both _ _ (hc.name name) hcolumns)
    (hc.calm " AS" (calmText_ofList rfl))
  exact hc.both _ _ (hc.both _ _ has (hc.calm _ hwords)) (hc.calm " " (calmText_ofList rfl))

/-- The words before a select list. -/
theorem selectHead (hc : Closed d r T P) (distinct : Bool) {pagination : Option Pagination}
    (hpage : ∀ p, pagination = some p → r.page p) :
    T (selectHead distinct (topLimit d pagination)) := by
  have hdistinct : T ("SELECT" ++ if distinct then " DISTINCT" else "") := by
    cases distinct with
    | false => exact hc.calm "SELECT" (calmText_ofList rfl)
    | true => exact hc.calm "SELECT DISTINCT" (calmText_ofList rfl)
  have hspace := hc.calm " " (calmText_ofList rfl)
  unfold Sql.selectHead
  cases hl : topLimit d pagination with
  | none => exact hc.both _ _ (hc.both _ _ hdistinct (hc.calm "" (calmText_ofList rfl))) hspace
  | some v =>
    have hv : T v.text := by
      unfold topLimit at hl
      split at hl
      · obtain ⟨p, hp, hlimit⟩ := Option.bind_eq_some_iff.1 hl
        exact (hc.limit p v (hpage p hp) hlimit).1
      · cases hl
    have htop := hc.both _ _ (hc.calm " TOP " (calmText_ofList rfl)) hv
    exact hc.both _ _ (hc.both _ _ hdistinct htop) hspace

/-- A query with its page, in each of the five ways in which it can end. -/
theorem finish (hc : Closed d r T P) {core order body : Fragment} (hcore : P core)
    (horder : P order) {ordered applied : Bool} {pagination : Option Pagination}
    (hpage : ∀ p, pagination = some p → r.page p)
    (h : Paging.finish d core order ordered pagination applied = .ok body) : P body := by
  -- the bounds of the page are texts of the class
  have hlimit (v : Value) (hv : pagination.bind Pagination.limit = some v) : T v.text ∧
      T (Paging.plus (Paging.skipped (pagination.bind Pagination.offset)) v).text := by
    obtain ⟨p, rfl, hp⟩ := Option.bind_eq_some_iff.1 hv
    exact hc.limit p v (hpage p rfl) hp
  have hoffset (v : Value) (hv : pagination.bind Pagination.offset = some v) : T v.text := by
    obtain ⟨p, rfl, hp⟩ := Option.bind_eq_some_iff.1 hv
    exact (hc.offset p (hpage p rfl)).2 v hp
  have hskipped : T (Paging.skipped (pagination.bind Pagination.offset)).text := by
    cases pagination with
    | none => exact hc.calm "0" (calmText_ofList rfl)
    | some p => exact (hc.offset p (hpage p rfl)).1
  have hinner := hc.append _ _ hcore horder
  obtain ⟨rfl, _⟩ | ⟨rfl, _⟩ | ⟨rfl, _⟩ | ⟨rfl, _⟩ | ⟨v, hv, rfl, _⟩ := Paging.finish_ok h
  · exact hinner
  · unfold Paging.limitOffset
    refine hc.append _ _ (hc.append _ _ hinner ?_) ?_
    · cases hl : pagination.bind Pagination.limit with
      | some v =>
        exact hc.text _ (hc.both _ _ (hc.calm " LIMIT " (calmText_ofList rfl)) (hlimit v hl).1)
      | none =>
        dsimp only
        split
        · next words hwords =>
          exact hc.text _ (hc.both _ _ (hc.calm " LIMIT " (calmText_ofList rfl))
            (hc.calm _ (calmText_noLimit hwords)))
        · exact hc.empty
    · cases ho : pagination.bind Pagination.offset with
      | some v =>
        exact hc.text _ (hc.both _ _ (hc.calm " OFFSET " (calmText_ofList rfl)) (hoffset v ho))
      | none => exact hc.empty
  · have hfiller : T (" ORDER BY " ++ ("(" ++ "SELECT NULL" ++ ")")) :=
      hc.both _ _ (hc.calm " ORDER BY " (calmText_ofList rfl))
        (hc.between "SELECT NULL" (hc.calm _ (calmText_ofList rfl)))
    unfold Paging.offsetFetch
    dsimp only
    refine hc.append _ _ (hc.append _ _ (hc.append _ _ hcore ?_) ?_) ?_
    · split
      · exact hc.text _ hfiller
      · exact horder
    · exact hc.text _ (hc.both _ _ (hc.both _ _ (hc.calm " OFFSET " (calmText_ofList rfl)) hskipped)
        (hc.calm " ROWS" (calmText_ofList rfl)))
    · cases hl : pagination.bind Pagination.limit with
      | some v =>
        exact hc.text _ (hc.both _ _
          (hc.both _ _ (hc.calm " FETCH NEXT " (calmText_ofList rfl)) (hlimit v hl).1)
          (hc.calm " ROWS ONLY" (calmText_ofList rfl)))
      | none => exact hc.empty
  · have hselect := hc.calm "SELECT * FROM " (calmText_ofList rfl)
    have hnumbered := hc.calm "SELECT q_.*, ROWNUM rn_ FROM " (calmText_ofList rfl)
    have hlast := hc.both _ _ (hc.calm " WHERE rn_ > " (calmText_ofList rfl)) hskipped
    unfold Paging.rownum
    cases hl : pagination.bind Pagination.limit with
    | some v =>
      dsimp only
      split
      · have hfirst := hc.both _ _ (hc.calm " WHERE ROWNUM <= " (calmText_ofList rfl))
          (hlimit v hl).1
        have hall := hc.around _ _ _ hselect hfirst hinner
        rw [← String.append_assoc] at hall
        exact hall
      · have hfirst := hc.both _ _ (hc.calm " q_ WHERE ROWNUM <= " (calmText_ofList rfl))
          (hlimit v hl).2
        have hall := hc.around₂ _ _ _ _ _ hselect hnumbered hfirst hlast hinner
        have hclose (s : String) : s ++ ")" ++ " WHERE rn_ > " = s ++ ") WHERE rn_ > " :=
          String.append_assoc
        simp only [← String.append_assoc] at hall
        rw [hclose] at hall
        exact hall
    | none =>
      have hq := hc.calm " q_" (calmText_ofList rfl)
      have hall := hc.around₂ _ _ _ _ _ hselect hnumbered hq hlast hinner
      simp only [← String.append_assoc] at hall
      exact hall
  · have hselect := hc.both _ _ (hc.both _ _ (hc.calm "SELECT TOP " (calmText_ofList rfl))
      (hlimit v hv).1) (hc.calm " * FROM " (calmText_ofList rfl))
    have hall := hc.around _ _ _ hselect (hc.calm " AS q_" (calmText_ofList rfl)) hcore
    rw [String.append_assoc] at hall
    exact hc.append _ _ hall horder

theorem windowParts (hc : Closed d r T P) {partitions orders : List Fragment}
    (hp : ∀ f ∈ partitions, P f) (ho : ∀ f ∈ orders, P f) (frame : Option Frame) :
    ∀ f ∈ windowParts partitions orders frame, P f := by
  intro f hf
  unfold Sql.windowParts at hf
  rcases List.mem_append.1 hf with hf | hf
  · rcases List.mem_append.1 hf with hf | hf
    · split at hf
      · cases hf
      · rw [List.mem_singleton.1 hf]
        exact hc.clause (calmText_ofList rfl) (hc.listed hp)
    · split at hf
      · cases hf
      · rw [List.mem_singleton.1 hf]
        exact hc.clause (calmText_ofList rfl) (hc.listed ho)
  · cases frame with
    | none => cases hf
    | some frame =>
      rw [List.mem_singleton.1 hf]
      exact hc.text _ (hc.calm _ (calmText_frame frame))

theorem windowedCall (hc : Closed d r T P) {called : Fragment} (h : P called)
    {framed : Option Fragment} (ho : ∀ f, framed = some f → P f) : P (windowedCall called framed) := by
  cases framed with
  | none => exact h
  | some f =>
    exact hc.append _ _ (hc.append _ _ h (hc.text " OVER " (hc.calm _ (calmText_ofList rfl))))
      (hc.enclosed (ho f rfl))

mutual

theorem of_query (hc : Closed d r T P) (q : Query) (hr : r.query q) {f : Fragment}
    (h : Sql.query d q = .ok f) : P f := by
  cases q with
  | select p =>
    rw [Sql.query] at h
    exact hc.of_select p hr h
  | combined p =>
    rw [Sql.query] at h
    exact hc.of_combined p hr h

theorem of_select (hc : Closed d r T P) (p : SelectPlan) (hr : r.select p) {f : Fragment}
    (h : Sql.select d p = .ok f) : P f := by
  obtain ⟨ws, items, source, joined, condition, groups, having, orders, body, _, hw, hi, hs, hj,
    hcond, hg, hh, ho, hb, rfl⟩ := select_ok h
  cases p with
  | mk items' source' joined' condition' groupBy having' orderBy pagination distinct ctes =>
  obtain ⟨hrw, hri, hrs, hrj, hrc, hrg, hrh, hro, hpage⟩ := hr
  dsimp only at *
  have hlist : P (if items'.isEmpty then Fragment.text "*" else Fragment.join ", " items) := by
    split
    · exact hc.text "*" (hc.calm _ (calmText_ofList rfl))
    · exact hc.listed (hc.of_itemList items' hri hi)
  -- the clauses are put together in the order in which they are written
  have hfrom := hc.append _ _ (hc.append _ _ (hc.text _ (hc.selectHead distinct hpage)) hlist)
    (hc.of_optionalSource source' hrs hs)
  have hwhere : P (Sql.optionalClause " WHERE" condition) :=
    hc.optionalClause (calmText_ofList rfl) (hc.of_optional condition' hrc hcond)
  have hgroups : P (Sql.listClause " GROUP BY" groups) :=
    hc.listClause (calmText_ofList rfl) (hc.of_exprs groupBy hrg hg)
  have hhaving : P (Sql.optionalClause " HAVING" having) :=
    hc.optionalClause (calmText_ofList rfl) (hc.of_optional having' hrh hh)
  have hfilter := hc.append _ _ (hc.append _ _ hfrom (hc.of_joins joined' hrj hj)) hwhere
  have hcore := hc.append _ _ (hc.append _ _ hfilter hgroups) hhaving
  have horder : P (Sql.listClause " ORDER BY" orders) :=
    hc.listClause (calmText_ofList rfl) (hc.of_terms orderBy hro ho)
  exact hc.withClause _ (hc.of_cteList ctes hrw hw) (hc.finish hcore horder hpage hb)

theorem of_combined (hc : Closed d r T P) (p : SetPlan) (hr : r.combined p) {f : Fragment}
    (h : Sql.combined d p = .ok f) : P f := by
  obtain ⟨ws, left, right, orders, body, _, hw, _, hl, hr', ho, hb, rfl⟩ := combined_ok h
  cases p with
  | mk operator all left' right' orderBy pagination ctes =>
  obtain ⟨hrw, hrl, hrr, hro, hpage⟩ := hr
  dsimp only at *
  have hoperator := CalmText.append (s := " ") (calmText_ofList rfl)
    (calmText_setOperator d operator)
  have hkeyword : CalmText (" " ++ d.setOperatorKeyword operator.keyword ++
      if all then " ALL " else " ") := by
    cases all with
    | false => exact hoperator.append (calmText_ofList rfl)
    | true => exact hoperator.append (calmText_ofList rfl)
  have hleft := hc.setOperand .left left' (hc.of_query left' hrl hl)
  have hright := hc.setOperand .right right' (hc.of_query right' hrr hr')
  have hcore := hc.append _ _ (hc.append _ _ hleft (hc.text _ (hc.calm _ hkeyword))) hright
  have horder : P (Sql.listClause " ORDER BY" orders) :=
    hc.listClause (calmText_ofList rfl) (hc.of_terms orderBy hro ho)
  exact hc.withClause _ (hc.of_cteList ctes hrw hw) (hc.finish hcore horder hpage hb)

theorem of_cteList (hc : Closed d r T P) (cs : List Cte) (hr : r.cteList cs) {fs : List Fragment}
    (h : Sql.cteList d cs = .ok fs) : ∀ f ∈ fs, P f := by
  cases cs with
  | nil => cases h; simp
  | cons c cs =>
    obtain ⟨g, gs, hg, hgs, rfl⟩ := cteList_cons_ok h
    exact List.forall_mem_cons.2 ⟨hc.of_cte c hr.1 hg, hc.of_cteList cs hr.2 hgs⟩

theorem of_cte (hc : Closed d r T P) (c : Cte) (hr : r.cte c) {f : Fragment}
    (h : Sql.cte d c = .ok f) : P f := by
  obtain ⟨columns, body, hb, rfl⟩ := cte_ok h
  cases c with
  | mk name body' columns' materialized recursive =>
  exact hc.append _ _ (hc.text _ (hc.cteHead name columns materialized))
    (hc.enclosed (hc.of_query body' hr hb))

theorem of_source (hc : Closed d r T P) (s : Source) (hr : r.source s) {f : Fragment}
    (h : Sql.source d s = .ok f) : P f := by
  cases s with
  | table name shown => cases h; exact hc.table name shown
  | query q name =>
    obtain ⟨g, hg, rfl⟩ := source_query_ok h
    exact hc.aliased (hc.enclosed (hc.of_query q hr hg)) name

theorem of_optionalSource (hc : Closed d r T P) (s : Option Source) (hr : r.optionalSource s)
    {f : Fragment} (h : Sql.optionalSource d s = .ok f) : P f := by
  cases s with
  | none =>
    cases h
    have hwords : CalmText d.selectWithoutSource := by
      unfold Dialect.selectWithoutSource
      split <;> exact calmText_ofList rfl
    exact hc.text _ (hc.calm _ hwords)
  | some s =>
    obtain ⟨g, hg, rfl⟩ := optionalSource_some_ok h
    exact hc.clause (calmText_ofList rfl) (hc.of_source s hr hg)

theorem of_joins (hc : Closed d r T P) (js : List Join) (hr : r.joins js) {f : Fragment}
    (h : Sql.joins d js = .ok f) : P f := by
  cases js with
  | nil => cases h; exact hc.empty
  | cons j js =>
    obtain ⟨g, gs, hg, hgs, rfl⟩ := joins_cons_ok h
    exact hc.append _ _ (hc.of_join j hr.1 hg) (hc.of_joins js hr.2 hgs)

theorem of_join (hc : Closed d r T P) (j : Join) (hr : r.join j) {f : Fragment}
    (h : Sql.join d j = .ok f) : P f := by
  obtain ⟨target, on, ht, ho, rfl⟩ := join_ok h
  cases j with
  | mk kind target' on' blank =>
  have hkeyword : CalmText (" " ++ kind.keyword ++ " JOIN ") :=
    (CalmText.append (s := " ") (calmText_ofList rfl) (calmText_joinKeyword kind)).append
      (calmText_ofList rfl)
  have htarget := hc.append _ _ (hc.text _ (hc.calm _ hkeyword)) (hc.of_source target' hr.1 ht)
  exact hc.append _ _ htarget
    (hc.optionalClause (calmText_ofList rfl) (hc.of_optional on' hr.2 ho))

theorem of_expr (hc : Closed d r T P) (e : Expr) (hr : r.expr e) {f : Fragment}
    (h : Sql.expr d e = .ok f) : P f := by
  cases e with
  | column table name shown => cases h; exact hc.text _ (hc.qualified table (hc.name name))
  | star table =>
    cases h
    exact hc.text _ (hc.qualified table (hc.calm "*" (calmText_ofList rfl)))
  | literal value hint => cases h; exact hc.bind _
  | binary op left right =>
    obtain ⟨l, g, hl, hg, rfl⟩ := binary_ok h
    have hsymbol := (calmText_symbol op).spaced
    have hleft := hc.operand op .left left (hc.of_expr left hr.1 hl)
    have hright := hc.operand op .right right (hc.of_expr right hr.2 hg)
    exact hc.append _ _ (hc.append _ _ hleft (hc.text _ (hc.calm _ hsymbol))) hright
  | unary op e =>
    obtain ⟨g, hg, rfl⟩ := unary_ok h
    exact hc.unary op e (hc.of_expr e hr hg)
  | inList e values negated =>
    -- an empty list is a constant, with nothing of the operand or the values
    rcases inList_ok h with ⟨rfl, rfl⟩ | ⟨hv, g, gs, hg, hgs, rfl⟩
    · cases negated <;> exact hc.text _ (hc.calm _ (calmText_ofList rfl))
    · obtain ⟨hre, hrv⟩ := hr.resolve_left hv
      exact hc.membership negated (hc.predicateOperand e (hc.of_expr e hre hg))
        (hc.of_exprs values hrv hgs)
  | inQuery e q negated =>
    obtain ⟨g, body, hg, hb, rfl⟩ := inQuery_ok h
    have hkeyword := (calmText_membershipKeyword negated).spaced
    have hoperand := hc.predicateOperand e (hc.of_expr e hr.1 hg)
    exact hc.append _ _ (hc.append _ _ hoperand (hc.text _ (hc.calm _ hkeyword)))
      (hc.enclosed (hc.of_query q hr.2 hb))
  | call name arguments distinct windowed =>
    obtain ⟨fs, framed, _, hf, ho, rfl⟩ := call_ok h
    obtain ⟨hname, harguments, hwindow⟩ := hr
    rw [← length_exprs hf]
    exact hc.windowedCall (hc.call name distinct fs hname (hc.of_exprs arguments harguments hf))
      (hc.of_optionalWindow windowed hwindow ho)
  | window w =>
    rw [Sql.expr] at h
    exact hc.of_window w hr h
  | subquery q =>
    obtain ⟨g, hg, rfl⟩ := subquery_ok h
    exact hc.enclosed (hc.of_query q hr hg)
  | cases bs otherwise =>
    obtain ⟨gs, last, hg, hl, rfl⟩ := cases_ok h
    have hcase := hc.append _ _ (hc.text "CASE" (hc.calm _ (calmText_ofList rfl)))
      (hc.of_branches bs hr.1 hg)
    have helse : P (Sql.optionalClause " ELSE" last) :=
      hc.optionalClause (calmText_ofList rfl) (hc.of_optional otherwise hr.2 hl)
    exact hc.append _ _ (hc.append _ _ hcase helse) (hc.text " END" (hc.calm _ (calmText_ofList rfl)))
  | named e name =>
    rw [Sql.expr] at h
    exact hc.of_expr e hr h
  | raw sql parameters => exact hc.raw sql parameters f hr h

theorem of_exprs (hc : Closed d r T P) (es : List Expr) (hr : r.exprs es) {fs : List Fragment}
    (h : Sql.exprs d es = .ok fs) : ∀ f ∈ fs, P f := by
  cases es with
  | nil => cases h; simp
  | cons e es =>
    obtain ⟨g, gs, hg, hgs, rfl⟩ := exprs_cons_ok h
    exact List.forall_mem_cons.2 ⟨hc.of_expr e hr.1 hg, hc.of_exprs es hr.2 hgs⟩

theorem of_optional (hc : Closed d r T P) (e : Option Expr) (hr : r.optional e)
    {x : Option Fragment} (h : Sql.optional d e = .ok x) : ∀ f, x = some f → P f := by
  cases e with
  | none => cases h; simp
  | some e =>
    obtain ⟨g, hg, rfl⟩ := optional_some_ok h
    rintro _ ⟨⟩
    exact hc.of_expr e hr hg

theorem of_itemList (hc : Closed d r T P) (es : List Expr) (hr : r.exprs es) {fs : List Fragment}
    (h : Sql.itemList d es = .ok fs) : ∀ f ∈ fs, P f := by
  cases es with
  | nil => cases h; simp
  | cons e es =>
    obtain ⟨g, gs, hg, hgs, rfl⟩ := itemList_cons_ok h
    exact List.forall_mem_cons.2
      ⟨hc.selectItem e (hc.of_expr e hr.1 hg), hc.of_itemList es hr.2 hgs⟩

theorem of_branches (hc : Closed d r T P) (bs : List Branch) (hr : r.branches bs) {f : Fragment}
    (h : Sql.branches d bs = .ok f) : P f := by
  cases bs with
  | nil => cases h; exact hc.empty
  | cons b bs =>
    obtain ⟨c, g, gs, hcond, hg, hgs, rfl⟩ := branches_cons_ok h
    cases b with
    | mk condition result =>
    obtain ⟨hrc, hrr, hrb⟩ := hr
    have hwhen : P (Sql.clause " WHEN" c) :=
      hc.clause (calmText_ofList rfl) (hc.of_expr condition hrc hcond)
    have hthen : P (Sql.clause " THEN" g) :=
      hc.clause (calmText_ofList rfl) (hc.of_expr result hrr hg)
    exact hc.append _ _ (hc.append _ _ hwhen hthen) (hc.of_branches bs hrb hgs)

theorem of_window (hc : Closed d r T P) (w : Window) (hr : r.window w) {f : Fragment}
    (h : Sql.window d w = .ok f) : P f := by
  obtain ⟨partitions, orders, hp, ho, rfl⟩ := window_ok h
  cases w with
  | mk partitionBy orderBy frame =>
  exact hc.join (hc.calm " " (calmText_ofList rfl))
    (hc.windowParts (hc.of_exprs partitionBy hr.1 hp) (hc.of_terms orderBy hr.2 ho) frame)

theorem of_optionalWindow (hc : Closed d r T P) (w : Option Window) (hr : r.optionalWindow w)
    {x : Option Fragment} (h : Sql.optionalWindow d w = .ok x) : ∀ f, x = some f → P f := by
  cases w with
  | none => cases h; simp
  | some w =>
    obtain ⟨g, hg, rfl⟩ := optionalWindow_some_ok h
    rintro _ ⟨⟩
    exact hc.of_window w hr hg

theorem of_terms (hc : Closed d r T P) (ts : List OrderTerm) (hr : r.terms ts)
    {fs : List Fragment} (h : Sql.terms d ts = .ok fs) : ∀ f ∈ fs, P f := by
  cases ts with
  | nil => cases h; simp
  | cons t ts =>
    obtain ⟨g, gs, hg, hgs, rfl⟩ := terms_cons_ok h
    cases t with
    | mk e direction =>
    have hdirection := CalmText.append (s := " ") (calmText_ofList rfl)
      (calmText_direction direction)
    exact List.forall_mem_cons.2
      ⟨hc.append _ _ (hc.of_expr e hr.1 hg) (hc.text _ (hc.calm _ hdirection)),
        hc.of_terms ts hr.2 hgs⟩

end

theorem of_returning (hc : Closed d r T P) (items : List Expr) (hr : r.exprs items) {f : Fragment}
    (h : Sql.returning d items = .ok f) : P f := by
  obtain ⟨_, rfl⟩ | ⟨_, fs, hf, rfl⟩ := returning_ok h
  · exact hc.empty
  · exact hc.clause (calmText_ofList rfl) (hc.listed (hc.of_itemList items hr hf))

theorem of_rowList (hc : Closed d r T P) (rows : List (List Expr)) (hr : r.rows rows)
    {fs : List Fragment} (h : Sql.rowList d rows = .ok fs) : ∀ f ∈ fs, P f := by
  induction rows generalizing fs with
  | nil => cases h; simp
  | cons row rows ih =>
    obtain ⟨g, gs, hg, hgs, rfl⟩ := rowList_cons_ok h
    exact List.forall_mem_cons.2
      ⟨hc.enclosed (hc.listed (hc.of_exprs row hr.1 hg)), ih hr.2 hgs⟩

theorem of_assignments (hc : Closed d r T P) (as : List Assignment)
    (hr : r.exprs (as.map Assignment.value)) {fs : List Fragment}
    (h : Sql.assignments d as = .ok fs) : ∀ f ∈ fs, P f := by
  induction as generalizing fs with
  | nil => cases h; simp
  | cons a as ih =>
    obtain ⟨g, gs, hg, hgs, rfl⟩ := assignments_cons_ok h
    have hcolumn := hc.both _ _ (hc.name a.column) (hc.calm " = " (calmText_ofList rfl))
    exact List.forall_mem_cons.2
      ⟨hc.append _ _ (hc.text _ hcolumn) (hc.of_expr a.value hr.1 hg), ih hr.2 hgs⟩

/-- What is kept by putting together holds of every statement that follows the rules. -/
theorem of_statement (hc : Closed d r T P) (s : Statement) (hr : r.statement s) {f : Fragment}
    (h : Sql.statement d s = .ok f) : P f := by
  cases s with
  | query q => exact hc.of_query q hr h
  | insert p =>
    obtain ⟨rows, returned, hrows, hreturned, rfl⟩ := insert_ok h
    have hinto := hc.both _ _ (hc.calm "INSERT INTO " (calmText_ofList rfl))
      (hc.qualifiedName p.table)
    have hcolumns := hc.both _ _ (hc.both _ _ hinto (hc.calm " " (calmText_ofList rfl)))
      (hc.between _ (hc.names p.columns))
    have hhead := hc.both _ _ hcolumns (hc.calm " VALUES " (calmText_ofList rfl))
    -- the head is one text in the program, so the texts it is put together from are joined
    have hclose (s : String) : s ++ ")" ++ " VALUES " = s ++ ") VALUES " := String.append_assoc
    have hopen (s : String) : s ++ " " ++ "(" = s ++ " (" := String.append_assoc
    simp only [← String.append_assoc] at hhead
    rw [hclose, hopen] at hhead
    have hall := hc.append _ _ (hc.text _ hhead) (hc.listed (hc.of_rowList p.rows hr.1 hrows))
    exact hc.append _ _ hall (hc.of_returning p.returning hr.2 hreturned)
  | update p =>
    obtain ⟨set, condition, returned, hset, hcond, hreturned, rfl⟩ := update_ok h
    obtain ⟨hra, hrc, hrr⟩ := hr
    have hhead := hc.both _ _ (hc.both _ _ (hc.calm "UPDATE " (calmText_ofList rfl))
      (hc.qualifiedName p.table)) (hc.calm " SET " (calmText_ofList rfl))
    have hwhere : P (Sql.optionalClause " WHERE" condition) :=
      hc.optionalClause (calmText_ofList rfl) (hc.of_optional p.condition hrc hcond)
    have hall := hc.append _ _ (hc.text _ hhead)
      (hc.listed (hc.of_assignments p.assignments hra hset))
    exact hc.append _ _ (hc.append _ _ hall hwhere) (hc.of_returning p.returning hrr hreturned)
  | delete p =>
    obtain ⟨condition, returned, hcond, hreturned, rfl⟩ := delete_ok h
    have hhead := hc.both _ _ (hc.calm "DELETE FROM " (calmText_ofList rfl))
      (hc.qualifiedName p.table)
    have hwhere : P (Sql.optionalClause " WHERE" condition) :=
      hc.optionalClause (calmText_ofList rfl) (hc.of_optional p.condition hr.1 hcond)
    exact hc.append _ _ (hc.append _ _ (hc.text _ hhead) hwhere)
      (hc.of_returning p.returning hr.2 hreturned)

end Closed

end PolyQuery
