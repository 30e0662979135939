import PolyQuery.Sql.Compile

/-! What a part of a statement was put together from, when it could be written at all. One lemma
for each part says so once, so that nothing later has to open the rendering itself. -/
namespace PolyQuery

/-- A chain of steps succeeds exactly when each of its steps does. -/
theorem bind_eq_ok {α β : Type} {x : Except Error α} {f : α → Except Error β} {b : β} :
    x >>= f = .ok b ↔ ∃ a, x = .ok a ∧ f a = .ok b := by
  constructor
  · intro h
    match x, h with
    | .ok a, h => exact ⟨a, rfl, h⟩
  · rintro ⟨a, rfl, h⟩
    exact h

/-- A chain with a step that is only taken under a condition. -/
theorem guarded_eq_ok {β : Type} {c : Prop} [Decidable c] {x : Except Error Unit}
    {f : Unit → Except Error β} {b : β} (h : (if c then x >>= f else f ()) = .ok b) :
    (c → x = .ok ()) ∧ f () = .ok b := by
  by_cases hc : c
  · rw [if_pos hc] at h
    obtain ⟨_, hx, h⟩ := bind_eq_ok.1 h
    exact ⟨fun _ => hx, h⟩
  · rw [if_neg hc] at h
    exact ⟨fun h => absurd h hc, h⟩

/-- A query around the query that keeps its first rows. -/
def Paging.topped (core order : Fragment) (limit : Value) : Fragment :=
  Fragment.text ("SELECT TOP " ++ limit.text ++ " * FROM (") ++ core ++ Fragment.text ") AS q_" ++
    order

theorem Paging.top_ok {d : Dialect} {core order body : Fragment} {applied : Bool}
    {limit offset : Option Value} (h : top d core order limit offset applied = .ok body) :
    (body = core ++ order ∧ (limit = none ∨ applied)) ∨
    (∃ v, limit = some v ∧ applied = false ∧ body = topped core order v) := by
  -- an offset that was not refused changes nothing
  have hnone : top d core order limit none applied = .ok body := by
    cases offset with
    | none => exact h
    | some w =>
      by_cases hw : (Number.int 0).lt w.toNumber
      · simp [top, hw] at h
      · simpa [top, hw] using h
  cases limit with
  | none =>
    cases hnone
    exact .inl ⟨rfl, .inl rfl⟩
  | some v =>
    cases applied with
    | true =>
      cases hnone
      exact .inl ⟨rfl, .inr rfl⟩
    | false =>
      cases hnone
      exact .inr ⟨v, rfl, rfl, rfl⟩

/-- The five ways in which a query can end. -/
theorem Paging.finish_ok {d : Dialect} {core order body : Fragment} {ordered applied : Bool}
    {pagination : Option Pagination}
    (h : finish d core order ordered pagination applied = .ok body) :
    let limit := pagination.bind Pagination.limit
    let offset := pagination.bind Pagination.offset
    (body = core ++ order ∧
      (isWhole limit offset ∨ d.paginationStyle = .top ∧ (limit = none ∨ applied))) ∨
    (body = limitOffset d core order limit offset ∧ d.paginationStyle = .limitOffset ∧
      isWhole limit offset = false) ∨
    (body = offsetFetch d core order ordered limit offset ∧ d.paginationStyle = .offsetFetch ∧
      isWhole limit offset = false) ∨
    (body = rownum core order limit offset ∧ d.paginationStyle = .rownum ∧
      isWhole limit offset = false) ∨
    (∃ v, limit = some v ∧ body = topped core order v ∧ d.paginationStyle = .top ∧
      applied = false) := by
  intro limit offset
  unfold finish at h
  change (if isWhole limit offset then _ else _) = _ at h
  cases hw : isWhole limit offset with
  | true =>
    rw [hw] at h
    cases h
    exact .inl ⟨rfl, .inl rfl⟩
  | false =>
    rw [hw] at h
    -- a page that is cut is written in the style of the dialect
    cases hs : d.paginationStyle with
    | limitOffset =>
      simp only [hs] at h
      cases h
      exact .inr (.inl ⟨rfl, rfl, rfl⟩)
    | offsetFetch =>
      simp only [hs] at h
      cases h
      exact .inr (.inr (.inl ⟨rfl, rfl, rfl⟩))
    | rownum =>
      simp only [hs] at h
      cases h
      exact .inr (.inr (.inr (.inl ⟨rfl, rfl, rfl⟩)))
    | top =>
      simp only [hs] at h
      rcases top_ok h with ⟨hb, ht⟩ | ⟨v, hv, ha, hb⟩
      · exact .inl ⟨hb, .inr ⟨rfl, ht⟩⟩
      · exact .inr (.inr (.inr (.inr ⟨v, hv, hb, rfl, ha⟩)))

namespace Sql
variable {d : Dialect} {f : Fragment}

section
-- the equations of `expr` take a while to generate: here they are, before the lemmas ask for them
attribute [local simp] expr
end

theorem select_ok {p : SelectPlan} (h : select d p = .ok f) :
    ∃ ws items source joined condition groups having orders body,
      requireCtes d p.ctes = .ok () ∧ cteList d p.ctes = .ok ws ∧
      itemList d p.items = .ok items ∧ optionalSource d p.source = .ok source ∧
      joins d p.joins = .ok joined ∧ optional d p.condition = .ok condition ∧
      exprs d p.groupBy = .ok groups ∧ optional d p.having = .ok having ∧
      terms d p.orderBy = .ok orders ∧
      Paging.finish d
        (Fragment.text (selectHead p.distinct (topLimit d p.pagination)) ++
          (if p.items.isEmpty then Fragment.text "*" else Fragment.join ", " items) ++ source ++
          joined ++ optionalClause " WHERE" condition ++ listClause " GROUP BY" groups ++
          optionalClause " HAVING" having)
        (listClause " ORDER BY" orders) (!p.orderBy.isEmpty) p.pagination
        (topLimit d p.pagination).isSome = .ok body ∧
      f = withClause d (p.ctes.any Cte.recursive) ws body := by
  obtain ⟨_, _, _, _, _, _, _, _, _, _⟩ := p
  rw [select] at h
  obtain ⟨_, hr, h⟩ := bind_eq_ok.1 h
  obtain ⟨ws, hw, h⟩ := bind_eq_ok.1 h
  obtain ⟨items, hi, h⟩ := bind_eq_ok.1 h
  obtain ⟨source, hs, h⟩ := bind_eq_ok.1 h
  obtain ⟨joined, hj, h⟩ := bind_eq_ok.1 h
  obtain ⟨condition, hc, h⟩ := bind_eq_ok.1 h
  obtain ⟨groups, hg, h⟩ := bind_eq_ok.1 h
  obtain ⟨having, hh, h⟩ := bind_eq_ok.1 h
  obtain ⟨orders, ho, h⟩ := bind_eq_ok.1 h
  obtain ⟨body, hb, h⟩ := bind_eq_ok.1 h
  cases h
  exact ⟨ws, items, source, joined, condition, groups, having, orders, body, hr, hw, hi, hs, hj,
    hc, hg, hh, ho, hb, rfl⟩

theorem combined_ok {p : SetPlan} (h : combined d p = .ok f) :
    ∃ ws left right orders body,
      requireCtes d p.ctes = .ok () ∧ cteList d p.ctes = .ok ws ∧
      d.require .setOperations (p.operator.feature p.all) = .ok () ∧
      query d p.left = .ok left ∧ query d p.right = .ok right ∧ terms d p.orderBy = .ok orders ∧
      Paging.finish d
        (setOperand d .left p.left left ++
          Fragment.text (" " ++ d.setOperatorKeyword p.operator.keyword ++
            (if p.all then " ALL " else " ")) ++
          setOperand d .right p.right right)
        (listClause " ORDER BY" orders) (!p.orderBy.isEmpty) p.pagination false = .ok body ∧
      f = withClause d (p.ctes.any Cte.recursive) ws body := by
  obtain ⟨_, _, _, _, _, _, _⟩ := p
  rw [combined] at h
  obtain ⟨_, hr, h⟩ := bind_eq_ok.1 h
  obtain ⟨ws, hw, h⟩ := bind_eq_ok.1 h
  obtain ⟨_, hs, h⟩ := bind_eq_ok.1 h
  obtain ⟨left, hl, h⟩ := bind_eq_ok.1 h
  obtain ⟨right, hr', h⟩ := bind_eq_ok.1 h
  obtain ⟨orders, ho, h⟩ := bind_eq_ok.1 h
  obtain ⟨body, hb, h⟩ := bind_eq_ok.1 h
  cases h
  exact ⟨ws, left, right, orders, body, hr, hw, hs, hl, hr', ho, hb, rfl⟩

theorem cteList_cons_ok {c : Cte} {cs : List Cte} {fs : List Fragment}
    (h : cteList d (c :: cs) = .ok fs) :
    ∃ g gs, cte d c = .ok g ∧ cteList d cs = .ok gs ∧ fs = g :: gs := by
  rw [cteList] at h
  obtain ⟨g, hg, h⟩ := bind_eq_ok.1 h
  obtain ⟨gs, hgs, h⟩ := bind_eq_ok.1 h
  cases h
  exact ⟨g, gs, hg, hgs, rfl⟩

theorem cte_ok {c : Cte} (h : cte d c = .ok f) :
    ∃ columns body, query d c.query = .ok body ∧
      f = Fragment.text (d.quoteIdentifier c.name ++ columnList d columns ++ " AS" ++
        materialization c.materialized ++ " ") ++ body.enclosed := by
  obtain ⟨name, body, columns, materialized, recursive⟩ := c
  rw [cte] at h
  obtain ⟨_, h⟩ := guarded_eq_ok h
  have hrest : ∃ listed, (do
      let g ← query d body
      return Fragment.text (d.quoteIdentifier name ++ columnList d listed ++ " AS" ++
        materialization materialized ++ " ") ++ g.enclosed) = Except.ok f := by
    cases columns with
    | some cs => exact ⟨some cs, h⟩
    | none =>
      obtain ⟨listed, _, h⟩ := bind_eq_ok.1 h
      exact ⟨listed, h⟩
  obtain ⟨listed, h⟩ := hrest
  obtain ⟨g, hg, h⟩ := bind_eq_ok.1 h
  cases h
  exact ⟨listed, g, hg, rfl⟩

theorem source_query_ok {q : Query} {name : String} (h : source d (.query q name) = .ok f) :
    ∃ g, query d q = .ok g ∧ f = aliased d g.enclosed name := by
  rw [source] at h
  obtain ⟨g, hg, h⟩ := bind_eq_ok.1 h
  cases h
  exact ⟨g, hg, rfl⟩

theorem optionalSource_some_ok {s : Source} (h : optionalSource d (some s) = .ok f) :
    ∃ g, source d s = .ok g ∧ f = clause " FROM" g := by
  rw [optionalSource] at h
  obtain ⟨g, hg, h⟩ := bind_eq_ok.1 h
  cases h
  exact ⟨g, hg, rfl⟩

theorem joins_cons_ok {j : Join} {js : List Join} (h : joins d (j :: js) = .ok f) :
    ∃ g gs, join d j = .ok g ∧ joins d js = .ok gs ∧ f = g ++ gs := by
  rw [joins] at h
  obtain ⟨g, hg, h⟩ := bind_eq_ok.1 h
  obtain ⟨gs, hgs, h⟩ := bind_eq_ok.1 h
  cases h
  exact ⟨g, gs, hg, hgs, rfl⟩

theorem join_ok {j : Join} (h : join d j = .ok f) :
    ∃ target on, source d j.target = .ok target ∧ optional d j.on = .ok on ∧
      f = Fragment.text (" " ++ j.kind.keyword ++ " JOIN ") ++ target ++
        optionalClause " ON" on := by
  obtain ⟨_, _, _, _⟩ := j
  rw [join] at h
  obtain ⟨_, _, h⟩ := bind_eq_ok.1 h
  obtain ⟨target, ht, h⟩ := bind_eq_ok.1 h
  obtain ⟨on, ho, h⟩ := bind_eq_ok.1 h
  cases h
  exact ⟨target, on, ht, ho, rfl⟩

theorem binary_ok {op : BinaryOp} {left right : Expr}
    (h : expr d (.binary op left right) = .ok f) :
    ∃ l r, expr d left = .ok l ∧ expr d right = .ok r ∧
      f = operand op .left left l ++ Fragment.text (" " ++ op.symbol ++ " ") ++
        operand op .right right r := by
  rw [expr] at h
  obtain ⟨l, hl, h⟩ := bind_eq_ok.1 h
  obtain ⟨r, hr, h⟩ := bind_eq_ok.1 h
  cases h
  exact ⟨l, r, hl, hr, rfl⟩

theorem unary_ok {op : UnaryOp} {e : Expr} (h : expr d (.unary op e) = .ok f) :
    ∃ g, expr d e = .ok g ∧ f = unary op e g := by
  rw [expr] at h
  obtain ⟨g, hg, h⟩ := bind_eq_ok.1 h
  cases h
  exact ⟨g, hg, rfl⟩

theorem inList_ok {e : Expr} {values : List Expr} {negated : Bool}
    (h : expr d (.inList e values negated) = .ok f) :
    (values = [] ∧ f = Fragment.text (if negated then d.truePredicate else d.falsePredicate)) ∨
    (values ≠ [] ∧ ∃ g gs, expr d e = .ok g ∧ exprs d values = .ok gs ∧
      f = membership d negated (predicateOperand e g) gs) := by
  rw [expr] at h
  by_cases hv : values = []
  · subst hv
    cases h
    exact .inl ⟨rfl, rfl⟩
  · rw [if_neg (by simpa using hv)] at h
    obtain ⟨g, hg, h⟩ := bind_eq_ok.1 h
    obtain ⟨gs, hgs, h⟩ := bind_eq_ok.1 h
    cases h
    exact .inr ⟨hv, g, gs, hg, hgs, rfl⟩

theorem inQuery_ok {e : Expr} {q : Query} {negated : Bool}
    (h : expr d (.inQuery e q negated) = .ok f) :
    ∃ g body, expr d e = .ok g ∧ query d q = .ok body ∧
      f = predicateOperand e g ++ Fragment.text (" " ++ membershipKeyword negated ++ " ") ++
        body.enclosed := by
  rw [expr] at h
  obtain ⟨g, hg, h⟩ := bind_eq_ok.1 h
  obtain ⟨body, hb, h⟩ := bind_eq_ok.1 h
  cases h
  exact ⟨g, body, hg, hb, rfl⟩

/-- A call behind its window, if it has one. -/
def windowedCall (called : Fragment) : Option Fragment → Fragment
  | some framed => called ++ Fragment.text " OVER " ++ framed.enclosed
  | none => called

theorem call_ok {name : String} {arguments : List Expr} {distinct : Bool}
    {windowed : Option Window} (h : expr d (.call name arguments distinct windowed) = .ok f) :
    ∃ fs framed, d.checkCall name windowed.isSome = .ok () ∧ exprs d arguments = .ok fs ∧
      optionalWindow d windowed = .ok framed ∧
      f = windowedCall
        (Fragment.ofLayout (d.functionLayout name arguments.length distinct) fs) framed := by
  rw [expr] at h
  obtain ⟨_, hc, h⟩ := bind_eq_ok.1 h
  obtain ⟨fs, hf, h⟩ := bind_eq_ok.1 h
  obtain ⟨framed, ho, h⟩ := bind_eq_ok.1 h
  refine ⟨fs, framed, hc, hf, ho, ?_⟩
  cases framed <;> (cases h; rfl)

theorem subquery_ok {q : Query} (h : expr d (.subquery q) = .ok f) :
    ∃ g, query d q = .ok g ∧ f = g.enclosed := by
  rw [expr] at h
  obtain ⟨g, hg, h⟩ := bind_eq_ok.1 h
  cases h
  exact ⟨g, hg, rfl⟩

theorem cases_ok {bs : List Branch} {otherwise : Option Expr}
    (h : expr d (.cases bs otherwise) = .ok f) :
    ∃ gs last, branches d bs = .ok gs ∧ optional d otherwise = .ok last ∧
      f = Fragment.text "CASE" ++ gs ++ optionalClause " ELSE" last ++ Fragment.text " END" := by
  rw [expr] at h
  obtain ⟨gs, hg, h⟩ := bind_eq_ok.1 h
  obtain ⟨last, hl, h⟩ := bind_eq_ok.1 h
  cases h
  exact ⟨gs, last, hg, hl, rfl⟩

theorem exprs_cons_ok {e : Expr} {es : List Expr} {fs : List Fragment}
    (h : exprs d (e :: es) = .ok fs) :
    ∃ g gs, expr d e = .ok g ∧ exprs d es = .ok gs ∧ fs = g :: gs := by
  rw [exprs] at h
  obtain ⟨g, hg, h⟩ := bind_eq_ok.1 h
  obtain ⟨gs, hgs, h⟩ := bind_eq_ok.1 h
  cases h
  exact ⟨g, gs, hg, hgs, rfl⟩

theorem length_exprs {es : List Expr} {fs : List Fragment} (h : exprs d es = .ok fs) :
    fs.length = es.length := by
  induction es generalizing fs with
  | nil => cases h; rfl
  | cons e es ih =>
    obtain ⟨g, gs, _, hgs, rfl⟩ := exprs_cons_ok h
    rw [List.length_cons, List.length_cons, ih hgs]

theorem optional_some_ok {e : Expr} {x : Option Fragment} (h : optional d (some e) = .ok x) :
    ∃ g, expr d e = .ok g ∧ x = some g := by
  rw [optional] at h
  obtain ⟨g, hg, h⟩ := bind_eq_ok.1 h
  cases h
  exact ⟨g, hg, rfl⟩

theorem itemList_cons_ok {e : Expr} {es : List Expr} {fs : List Fragment}
    (h : itemList d (e :: es) = .ok fs) :
    ∃ g gs, expr d e = .ok g ∧ itemList d es = .ok gs ∧ fs = selectItem d e g :: gs := by
  rw [itemList] at h
  obtain ⟨g, hg, h⟩ := bind_eq_ok.1 h
  obtain ⟨gs, hgs, h⟩ := bind_eq_ok.1 h
  cases h
  exact ⟨g, gs, hg, hgs, rfl⟩

theorem branches_cons_ok {b : Branch} {bs : List Branch} (h : branches d (b :: bs) = .ok f) :
    ∃ c r gs, expr d b.condition = .ok c ∧ expr d b.result = .ok r ∧ branches d bs = .ok gs ∧
      f = clause " WHEN" c ++ clause " THEN" r ++ gs := by
  obtain ⟨_, _⟩ := b
  rw [branches] at h
  obtain ⟨c, hc, h⟩ := bind_eq_ok.1 h
  obtain ⟨r, hr, h⟩ := bind_eq_ok.1 h
  obtain ⟨gs, hgs, h⟩ := bind_eq_ok.1 h
  cases h
  exact ⟨c, r, gs, hc, hr, hgs, rfl⟩

/-- The parts of the inside of a window. -/
def windowParts (partitions orders : List Fragment) (frame : Option Frame) : List Fragment :=
  (if partitions.isEmpty then [] else [clause "PARTITION BY" (Fragment.join ", " partitions)]) ++
    (if orders.isEmpty then [] else [clause "ORDER BY" (Fragment.join ", " orders)]) ++
    (match frame with
      | some f => [Fragment.text (frameText f)]
      | none => [])

theorem window_ok {w : Window} (h : window d w = .ok f) :
    ∃ partitions orders, exprs d w.partitionBy = .ok partitions ∧ terms d w.orderBy = .ok orders ∧
      f = Fragment.join " " (windowParts partitions orders w.frame) := by
  obtain ⟨_, _, _⟩ := w
  unfold window at h
  obtain ⟨partitions, hp, h⟩ := bind_eq_ok.1 h
  obtain ⟨orders, ho, h⟩ := bind_eq_ok.1 h
  cases h
  exact ⟨partitions, orders, hp, ho, rfl⟩

theorem optionalWindow_some_ok {w : Window} {x : Option Fragment}
    (h : optionalWindow d (some w) = .ok x) : ∃ g, window d w = .ok g ∧ x = some g := by
  rw [optionalWindow] at h
  obtain ⟨g, hg, h⟩ := bind_eq_ok.1 h
  cases h
  exact ⟨g, hg, rfl⟩

theorem terms_cons_ok {t : OrderTerm} {ts : List OrderTerm} {fs : List Fragment}
    (h : terms d (t :: ts) = .ok fs) :
    ∃ g gs, expr d t.expression = .ok g ∧ terms d ts = .ok gs ∧
      fs = (g ++ Fragment.text (" " ++ t.direction.keyword)) :: gs := by
  obtain ⟨_, _⟩ := t
  rw [terms] at h
  obtain ⟨g, hg, h⟩ := bind_eq_ok.1 h
  obtain ⟨gs, hgs, h⟩ := bind_eq_ok.1 h
  cases h
  exact ⟨g, gs, hg, hgs, rfl⟩

theorem returning_ok {items : List Expr} (h : returning d items = .ok f) :
    (items = [] ∧ f = Fragment.empty) ∨
    (items ≠ [] ∧ ∃ fs, itemList d items = .ok fs ∧
      f = clause " RETURNING" (Fragment.join ", " fs)) := by
  rw [returning] at h
  by_cases hi : items = []
  · subst hi
    cases h
    exact .inl ⟨rfl, rfl⟩
  · rw [if_neg (by simpa using hi)] at h
    obtain ⟨_, _, h⟩ := bind_eq_ok.1 h
    obtain ⟨_, _, h⟩ := bind_eq_ok.1 h
    obtain ⟨fs, hf, h⟩ := bind_eq_ok.1 h
    cases h
    exact .inr ⟨hi, fs, hf, rfl⟩

theorem rowList_cons_ok {row : List Expr} {rows : List (List Expr)} {fs : List Fragment}
    (h : rowList d (row :: rows) = .ok fs) :
    ∃ g gs, exprs d row = .ok g ∧ rowList d rows = .ok gs ∧
      fs = (Fragment.join ", " g).enclosed :: gs := by
  rw [rowList] at h
  obtain ⟨g, hg, h⟩ := bind_eq_ok.1 h
  obtain ⟨gs, hgs, h⟩ := bind_eq_ok.1 h
  cases h
  exact ⟨g, gs, hg, hgs, rfl⟩

theorem insert_ok {p : InsertPlan} (h : insert d p = .ok f) :
    ∃ rows returned, rowList d p.rows = .ok rows ∧ returning d p.returning = .ok returned ∧
      f = Fragment.text ("INSERT INTO " ++ d.quoteQualified p.table ++ " (" ++
        ", ".intercalate (p.columns.map d.quoteIdentifier) ++ ") VALUES ") ++
        Fragment.join ", " rows ++ returned := by
  unfold insert at h
  obtain ⟨_, h⟩ := guarded_eq_ok h
  obtain ⟨rows, hr, h⟩ := bind_eq_ok.1 h
  obtain ⟨returned, hb, h⟩ := bind_eq_ok.1 h
  cases h
  exact ⟨rows, returned, hr, hb, rfl⟩

theorem assignments_cons_ok {a : Assignment} {as : List Assignment} {fs : List Fragment}
    (h : assignments d (a :: as) = .ok fs) :
    ∃ g gs, expr d a.value = .ok g ∧ assignments d as = .ok gs ∧
      fs = (Fragment.text (d.quoteIdentifier a.column ++ " = ") ++ g) :: gs := by
  rw [assignments] at h
  obtain ⟨g, hg, h⟩ := bind_eq_ok.1 h
  obtain ⟨gs, hgs, h⟩ := bind_eq_ok.1 h
  cases h
  exact ⟨g, gs, hg, hgs, rfl⟩

theorem update_ok {p : UpdatePlan} (h : update d p = .ok f) :
    ∃ set condition returned, assignments d p.assignments = .ok set ∧
      optional d p.condition = .ok condition ∧ returning d p.returning = .ok returned ∧
      f = Fragment.text ("UPDATE " ++ d.quoteQualified p.table ++ " SET ") ++
        Fragment.join ", " set ++ optionalClause " WHERE" condition ++ returned := by
  unfold update at h
  obtain ⟨set, hs, h⟩ := bind_eq_ok.1 h
  obtain ⟨condition, hc, h⟩ := bind_eq_ok.1 h
  obtain ⟨returned, hr, h⟩ := bind_eq_ok.1 h
  cases h
  exact ⟨set, condition, returned, hs, hc, hr, rfl⟩

theorem delete_ok {p : DeletePlan} (h : delete d p = .ok f) :
    ∃ condition returned, optional d p.condition = .ok condition ∧
      returning d p.returning = .ok returned ∧
      f = Fragment.text ("DELETE FROM " ++ d.quoteQualified p.table) ++
        optionalClause " WHERE" condition ++ returned := by
  unfold delete at h
  obtain ⟨condition, hc, h⟩ := bind_eq_ok.1 h
  obtain ⟨returned, hr, h⟩ := bind_eq_ok.1 h
  cases h
  exact ⟨condition, returned, hc, hr, rfl⟩

end Sql

/-- A compiled statement passed the checks, and is the text and the bindings of its fragment. -/
theorem compile_ok {d : Dialect} {s : Statement} {c : Compiled} (h : compile d s = .ok c) :
    ∃ f, Plan.check s = .ok () ∧ Sql.statement d s = .ok f ∧ c = ⟨f.sql d, f.bindings⟩ := by
  unfold compile at h
  obtain ⟨_, hc, h⟩ := bind_eq_ok.1 h
  obtain ⟨f, hf, h⟩ := bind_eq_ok.1 h
  cases h
  exact ⟨f, hc, hf, rfl⟩

/-- A statement whose text is known compiles. -/
theorem compile_of_sql {d : Dialect} {s : Statement} (sql : String)
    (h : (compile d s).toOption.map Compiled.sql = some sql) :
    ∃ c, compile d s = .ok c ∧ c.sql = sql := by
  cases hc : compile d s with
  | error e => rw [hc] at h; cases h
  | ok c =>
    rw [hc] at h
    exact ⟨c, rfl, Option.some.inj h⟩

end PolyQuery
