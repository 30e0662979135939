import PolyQuery.Proofs.Fragment

/-! The places of a statement that stand for values, in the order of its text, and the values that
are bound there. A statement binds exactly the values of its places, in that order, and its holes
stand in the same order wherever every call keeps its arguments side by side. -/
namespace PolyQuery

/-- A place for a value: a literal, or a parameter of raw text. -/
inductive Slot where
  | literal (value : Value) (hint : Hint)
  | parameter (value : Value)

/-- The value with undefined read as null. -/
def Value.settled : Value → Value
  | .undefined => .null
  | v => v

/-- The value that the statement holds there. -/
def Slot.given : Slot → Value
  | .literal v _ => v
  | .parameter v => v

/-- The value that is bound: an undefined literal is null, a parameter stays as it is. -/
def Slot.value : Slot → Value
  | .literal v _ => v.settled
  | .parameter v => v

/-- The value that is bound, with what is known about its storage. -/
def Slot.binding (s : Slot) : Binding :=
  match s with
  | .literal _ hint => ⟨s.value, hint⟩
  | .parameter v => .plain v

theorem Slot.binding_value (s : Slot) : s.binding.value = s.value := by cases s <;> rfl

namespace Slots

mutual

/-- The places of a query, in the order of its text. -/
def query (d : Dialect) : Query → List Slot
  | .select p => select d p
  | .combined p => combined d p

/-- Common table expressions, items, source, joins, condition, groups, their condition, ordering. -/
def select (d : Dialect) : SelectPlan → List Slot
  | ⟨items, source, joined, condition, groupBy, having, orderBy, _, _, ctes⟩ =>
    cteList d ctes ++ (exprs d items).flatten ++ optionalSource d source ++ joins d joined ++
      optional d condition ++ (exprs d groupBy).flatten ++ optional d having ++ terms d orderBy

/-- Common table expressions, the left operand, the right one, ordering. -/
def combined (d : Dialect) : SetPlan → List Slot
  | ⟨_, _, left, right, orderBy, _, ctes⟩ =>
    cteList d ctes ++ query d left ++ query d right ++ terms d orderBy

/-- The places of common table expressions. -/
def cteList (d : Dialect) : List Cte → List Slot
  | [] => []
  | c :: rest => cte d c ++ cteList d rest

/-- The places of the body of a common table expression. -/
def cte (d : Dialect) : Cte → List Slot
  | ⟨_, body, _, _, _⟩ => query d body

/-- The places of a source. -/
def source (d : Dialect) : Source → List Slot
  | .table _ _ => []
  | .query q _ => query d q

/-- The places of a source, if there is one. -/
def optionalSource (d : Dialect) : Option Source → List Slot
  | none => []
  | some s => source d s

/-- The places of joins. -/
def joins (d : Dialect) : List Join → List Slot
  | [] => []
  | j :: rest => join d j ++ joins d rest

/-- The target of a join, then its condition. -/
def join (d : Dialect) : Join → List Slot
  | ⟨_, target, on, _⟩ => source d target ++ optional d on

/-- The places of an expression. The operand of a membership test counts once for each part into
which the list is split, and not at all for an empty list. -/
def expr (d : Dialect) : Expr → List Slot
  | .column _ _ _ => []
  | .star _ => []
  | .literal value hint => [.literal value hint]
  | .binary _ left right => expr d left ++ expr d right
  | .unary _ e => expr d e
  | .inList e values _ =>
    (Sql.chunks (d.maxInList.getD values.length) values.length (exprs d values)).flatMap
      fun part => expr d e ++ part.flatten
  | .inQuery e q _ => expr d e ++ query d q
  | .call _ arguments _ windowed => (exprs d arguments).flatten ++ optionalWindow d windowed
  | .window w => window d w
  | .subquery q => query d q
  | .cases branchList otherwise => branches d branchList ++ optional d otherwise
  | .named e _ => expr d e
  | .raw _ parameters => parameters.map .parameter

/-- The places of each of several expressions. -/
def exprs (d : Dialect) : List Expr → List (List Slot)
  | [] => []
  | e :: es => expr d e :: exprs d es

/-- The places of an expression, if there is one. -/
def optional (d : Dialect) : Option Expr → List Slot
  | none => []
  | some e => expr d e

/-- The places of the branches of a case distinction, conditions before results. -/
def branches (d : Dialect) : List Branch → List Slot
  | [] => []
  | ⟨condition, result⟩ :: rest => expr d condition ++ expr d result ++ branches d rest

/-- The places of a window. -/
def window (d : Dialect) : Window → List Slot
  | ⟨partitionBy, orderBy, _⟩ => (exprs d partitionBy).flatten ++ terms d orderBy

/-- The places of a window, if there is one. -/
def optionalWindow (d : Dialect) : Option Window → List Slot
  | none => []
  | some w => window d w

/-- The places of an ordering. -/
def terms (d : Dialect) : List OrderTerm → List Slot
  | [] => []
  | ⟨e, _⟩ :: rest => expr d e ++ terms d rest

end

/-- The places of a statement: rows or assignments before the condition, returned items last. -/
def statement (d : Dialect) : Statement → List Slot
  | .query q => query d q
  | .insert p => (p.rows.flatMap (exprs d)).flatten ++ (exprs d p.returning).flatten
  | .update p =>
    (exprs d (p.assignments.map Assignment.value)).flatten ++ optional d p.condition ++
      (exprs d p.returning).flatten
  | .delete p => optional d p.condition ++ (exprs d p.returning).flatten

end Slots

namespace Sql
open Fragment

/-- Cutting a list commutes with a change of its items. -/
theorem chunks_map {α β : Type} (g : α → β) (size fuel : Nat) (xs : List α) :
    chunks size fuel (xs.map g) = (chunks size fuel xs).map (List.map g) := by
  induction fuel generalizing xs with
  | zero => rfl
  | succ fuel ih =>
    cases xs with
    | nil => rfl
    | cons x xs =>
      have hdrop := ih ((x :: xs).drop size)
      rw [List.map_drop] at hdrop
      change (((x :: xs).map g).take size) :: chunks size fuel (((x :: xs).map g).drop size) = _
      rw [hdrop, ← List.map_take]
      rfl

/-- The bindings of several fragments are those of the places of several expressions. -/
def Binds (fs : List Fragment) (slots : List (List Slot)) : Prop :=
  fs.map bindings = slots.map (List.map Slot.binding)

theorem Binds.cons {f : Fragment} {fs : List Fragment} {s : List Slot} {ss : List (List Slot)}
    (h : f.bindings = s.map Slot.binding) (hs : Binds fs ss) : Binds (f :: fs) (s :: ss) := by
  unfold Binds at *
  rw [List.map_cons, List.map_cons, h, hs]

theorem Binds.flatMap {fs : List Fragment} {slots : List (List Slot)} (h : Binds fs slots) :
    fs.flatMap bindings = slots.flatten.map Slot.binding := by
  rw [List.flatMap_def, h, List.map_flatten]

theorem Binds.length {fs : List Fragment} {slots : List (List Slot)} (h : Binds fs slots) :
    fs.length = slots.length := by
  have hl := congrArg List.length h
  simpa using hl

/-- A split membership test binds the places of its operand with each part of its list. -/
theorem Binds.membership {fs : List Fragment} {slots : List (List Slot)} (h : Binds fs slots)
    {test : Fragment} {s : List Slot} (ht : test.bindings = s.map Slot.binding) (d : Dialect)
    (negated : Bool) :
    (membership d negated test fs).bindings =
      ((chunks (d.maxInList.getD slots.length) slots.length slots).flatMap
        fun part => s ++ part.flatten).map Slot.binding := by
  rw [bindings_membership, h.length, List.map_flatMap]
  generalize d.maxInList.getD slots.length = size
  have hparts : (chunks size slots.length fs).map (List.map bindings) =
      (chunks size slots.length slots).map (List.map (List.map Slot.binding)) := by
    rw [← chunks_map, ← chunks_map, h]
  have hleft : (chunks size slots.length fs).flatMap (fun part =>
        test.bindings ++ part.flatMap bindings) =
      ((chunks size slots.length fs).map (List.map bindings)).flatMap
        (fun part => test.bindings ++ part.flatten) := by
    rw [List.flatMap_map]
    rfl
  rw [hleft, hparts, List.flatMap_map]
  simp only [ht, List.map_append, List.map_flatten]

theorem length_slots_exprs (d : Dialect) (es : List Expr) :
    (Slots.exprs d es).length = es.length := by
  induction es with
  | nil => rfl
  | cons e es ih => rw [Slots.exprs, List.length_cons, List.length_cons, ih]

theorem bindings_interleave (pieces : List (List Char)) (values : List Value)
    (h : pieces.length - 1 = values.length) :
    (Raw.interleave pieces values).bindings = values.map Binding.plain := by
  induction values generalizing pieces with
  | nil => cases pieces <;> rfl
  | cons v vs ih =>
    cases pieces with
    | nil => simp at h
    | cons p ps =>
      rw [Raw.interleave, bindings_append, bindings_append, ih ps (by simp at h; omega)]
      rfl

/-- Raw text binds its parameters. -/
theorem bindings_raw {sql : String} {parameters : List Value} {f : Fragment}
    (h : Raw.fragment sql parameters = .ok f) :
    f.bindings = parameters.map Binding.plain := by
  unfold Raw.fragment at h
  dsimp only at h
  split at h
  · next hl =>
    cases h
    exact bindings_interleave _ _ hl
  · cases h

variable {d : Dialect}

mutual

theorem query_bindings (q : Query) {f : Fragment} (h : query d q = .ok f) :
    f.bindings = (Slots.query d q).map Slot.binding := by
  cases q with
  | select p =>
    rw [query] at h
    rw [Slots.query, select_bindings p h]
  | combined p =>
    rw [query] at h
    rw [Slots.query, combined_bindings p h]

theorem select_bindings (p : SelectPlan) {f : Fragment} (h : select d p = .ok f) :
    f.bindings = (Slots.select d p).map Slot.binding := by
  obtain ⟨ws, items, source, joined, condition, groups, having, orders, body, _, hw, hi, hs, hj, hc,
    hg, hh, ho, hb, rfl⟩ := select_ok h
  cases p with
  | mk items' source' joined' condition' groupBy having' orderBy pagination distinct ctes =>
  dsimp only at *
  -- a query without an order has no clause for it, so no binding can come from there
  have hordered : (!orderBy.isEmpty) = false → (listClause " ORDER BY" orders).bindings = [] := by
    intro he
    cases orderBy with
    | nil => cases ho; rfl
    | cons => cases he
  have hitems : (if items'.isEmpty then Fragment.text "*" else Fragment.join ", " items).bindings =
      items.flatMap Fragment.bindings := by
    cases items' with
    | nil => cases hi; rfl
    | cons => simp
  rw [bindings_withClause, Paging.bindings_finish hordered hb]
  simp only [bindings_append, bindings_text, bindings_optionalClause, bindings_listClause, hitems,
    (cteList_bindings ctes hw), (itemList_bindings items' hi).flatMap,
    optionalSource_bindings source' hs, joins_bindings joined' hj,
    optional_bindings condition' hc, (exprs_bindings groupBy hg).flatMap,
    optional_bindings having' hh, terms_bindings orderBy ho, Slots.select, List.map_append,
    List.nil_append, List.append_assoc]

theorem combined_bindings (p : SetPlan) {f : Fragment} (h : combined d p = .ok f) :
    f.bindings = (Slots.combined d p).map Slot.binding := by
  obtain ⟨ws, left, right, orders, body, _, hw, _, hl, hr, ho, hb, rfl⟩ := combined_ok h
  cases p with
  | mk operator all left' right' orderBy pagination ctes =>
  dsimp only at *
  have hordered : (!orderBy.isEmpty) = false → (listClause " ORDER BY" orders).bindings = [] := by
    intro he
    cases orderBy with
    | nil => cases ho; rfl
    | cons => cases he
  rw [bindings_withClause, Paging.bindings_finish hordered hb]
  simp only [bindings_append, bindings_text, bindings_setOperand, bindings_listClause,
    cteList_bindings ctes hw, query_bindings left' hl, query_bindings right' hr,
    terms_bindings orderBy ho, Slots.combined, List.map_append, List.append_nil,
    List.append_assoc]

theorem cteList_bindings (cs : List Cte) {fs : List Fragment} (h : cteList d cs = .ok fs) :
    fs.flatMap Fragment.bindings = (Slots.cteList d cs).map Slot.binding := by
  cases cs with
  | nil => cases h; rfl
  | cons c cs =>
    obtain ⟨g, gs, hg, hgs, rfl⟩ := cteList_cons_ok h
    rw [Slots.cteList, List.flatMap_cons, cte_bindings c hg, cteList_bindings cs hgs,
      List.map_append]

theorem cte_bindings (c : Cte) {f : Fragment} (h : cte d c = .ok f) :
    f.bindings = (Slots.cte d c).map Slot.binding := by
  obtain ⟨columns, body, hb, rfl⟩ := cte_ok h
  cases c with
  | mk name body' columns' materialized recursive =>
  rw [Slots.cte, bindings_append, bindings_text, bindings_enclosed, query_bindings body' hb,
    List.nil_append]

theorem source_bindings (s : Source) {f : Fragment} (h : source d s = .ok f) :
    f.bindings = (Slots.source d s).map Slot.binding := by
  cases s with
  | table name shown => cases h; exact bindings_table d name shown
  | query q name =>
    obtain ⟨g, hg, rfl⟩ := source_query_ok h
    rw [Slots.source, bindings_aliased, bindings_enclosed, query_bindings q hg]

theorem optionalSource_bindings (s : Option Source) {f : Fragment}
    (h : optionalSource d s = .ok f) :
    f.bindings = (Slots.optionalSource d s).map Slot.binding := by
  cases s with
  | none => cases h; rfl
  | some s =>
    obtain ⟨g, hg, rfl⟩ := optionalSource_some_ok h
    rw [Slots.optionalSource, bindings_clause, source_bindings s hg]

theorem joins_bindings (js : List Join) {f : Fragment} (h : joins d js = .ok f) :
    f.bindings = (Slots.joins d js).map Slot.binding := by
  cases js with
  | nil => cases h; rfl
  | cons j js =>
    obtain ⟨g, gs, hg, hgs, rfl⟩ := joins_cons_ok h
    rw [Slots.joins, bindings_append, join_bindings j hg, joins_bindings js hgs, List.map_append]

theorem join_bindings (j : Join) {f : Fragment} (h : join d j = .ok f) :
    f.bindings = (Slots.join d j).map Slot.binding := by
  obtain ⟨target, on, ht, ho, rfl⟩ := join_ok h
  cases j with
  | mk kind target' on' blank =>
  rw [Slots.join, bindings_append, bindings_append, bindings_text, bindings_optionalClause,
    source_bindings target' ht, optional_bindings on' ho, List.map_append, List.nil_append]

theorem expr_bindings (e : Expr) {f : Fragment} (h : expr d e = .ok f) :
    f.bindings = (Slots.expr d e).map Slot.binding := by
  cases e with
  | column table name shown => cases h; rfl
  | star table => cases h; rfl
  | literal value hint => cases h; rfl
  | binary op left right =>
    obtain ⟨l, r, hl, hr, rfl⟩ := binary_ok h
    simp only [Slots.expr, bindings_append, bindings_text, bindings_operand, expr_bindings left hl,
      expr_bindings right hr, List.map_append, List.append_nil]
  | unary op e =>
    obtain ⟨g, hg, rfl⟩ := unary_ok h
    rw [Slots.expr, bindings_unary, expr_bindings e hg]
  | inList e values negated =>
    -- the operand of a list in parts is bound once for each part
    obtain ⟨rfl, rfl⟩ | ⟨_, g, gs, hg, hgs, rfl⟩ := inList_ok h
    · rfl
    · rw [Slots.expr, (exprs_bindings values hgs).membership
        ((bindings_predicateOperand e g).trans (expr_bindings e hg)), length_slots_exprs]
  | inQuery e q negated =>
    obtain ⟨g, body, hg, hb, rfl⟩ := inQuery_ok h
    simp only [Slots.expr, bindings_append, bindings_text, bindings_predicateOperand,
      bindings_enclosed, expr_bindings e hg, query_bindings q hb, List.map_append, List.append_nil]
  | call name arguments distinct windowed =>
    obtain ⟨fs, framed, _, hf, ho, rfl⟩ := call_ok h
    rw [Slots.expr, bindings_windowedCall, bindings_ofLayout, (exprs_bindings arguments hf).flatMap,
      optionalWindow_bindings windowed ho, List.map_append]
  | window w =>
    rw [expr] at h
    rw [Slots.expr, window_bindings w h]
  | subquery q =>
    obtain ⟨g, hg, rfl⟩ := subquery_ok h
    rw [Slots.expr, bindings_enclosed, query_bindings q hg]
  | cases bs otherwise =>
    obtain ⟨gs, last, hg, hl, rfl⟩ := cases_ok h
    simp only [Slots.expr, bindings_append, bindings_text, bindings_optionalClause,
      branches_bindings bs hg, optional_bindings otherwise hl, List.map_append, List.append_nil,
      List.nil_append]
  | named e name =>
    rw [expr] at h
    rw [Slots.expr, expr_bindings e h]
  | raw sql parameters =>
    rw [expr] at h
    rw [Slots.expr, bindings_raw h, List.map_map]
    rfl

theorem exprs_bindings (es : List Expr) {fs : List Fragment} (h : exprs d es = .ok fs) :
    Binds fs (Slots.exprs d es) := by
  cases es with
  | nil => cases h; rfl
  | cons e es =>
    obtain ⟨g, gs, hg, hgs, rfl⟩ := exprs_cons_ok h
    exact (exprs_bindings es hgs).cons (expr_bindings e hg)

theorem optional_bindings (e : Option Expr) {x : Option Fragment} (h : optional d e = .ok x) :
    x.toList.flatMap Fragment.bindings = (Slots.optional d e).map Slot.binding := by
  cases e with
  | none => cases h; rfl
  | some e =>
    obtain ⟨g, hg, rfl⟩ := optional_some_ok h
    rw [Slots.optional, ← expr_bindings e hg]
    simp

theorem itemList_bindings (es : List Expr) {fs : List Fragment} (h : itemList d es = .ok fs) :
    Binds fs (Slots.exprs d es) := by
  cases es with
  | nil => cases h; rfl
  | cons e es =>
    obtain ⟨g, gs, hg, hgs, rfl⟩ := itemList_cons_ok h
    exact (itemList_bindings es hgs).cons ((bindings_selectItem d e g).trans (expr_bindings e hg))

theorem branches_bindings (bs : List Branch) {f : Fragment} (h : branches d bs = .ok f) :
    f.bindings = (Slots.branches d bs).map Slot.binding := by
  cases bs with
  | nil => cases h; rfl
  | cons b bs =>
    obtain ⟨c, r, gs, hc, hr, hgs, rfl⟩ := branches_cons_ok h
    cases b with
    | mk condition result =>
    simp only [Slots.branches, bindings_append, bindings_clause, expr_bindings condition hc,
      expr_bindings result hr, branches_bindings bs hgs, List.map_append]

theorem window_bindings (w : Window) {f : Fragment} (h : window d w = .ok f) :
    f.bindings = (Slots.window d w).map Slot.binding := by
  obtain ⟨partitions, orders, hp, ho, rfl⟩ := window_ok h
  cases w with
  | mk partitionBy orderBy frame =>
  rw [Slots.window, bindings_join, bindings_windowParts, (exprs_bindings partitionBy hp).flatMap,
    terms_bindings orderBy ho, List.map_append]

theorem optionalWindow_bindings (w : Option Window) {x : Option Fragment}
    (h : optionalWindow d w = .ok x) :
    x.toList.flatMap Fragment.bindings = (Slots.optionalWindow d w).map Slot.binding := by
  cases w with
  | none => cases h; rfl
  | some w =>
    obtain ⟨g, hg, rfl⟩ := optionalWindow_some_ok h
    rw [Slots.optionalWindow, ← window_bindings w hg]
    simp

theorem terms_bindings (ts : List OrderTerm) {fs : List Fragment} (h : terms d ts = .ok fs) :
    fs.flatMap Fragment.bindings = (Slots.terms d ts).map Slot.binding := by
  cases ts with
  | nil => cases h; rfl
  | cons t ts =>
    obtain ⟨g, gs, hg, hgs, rfl⟩ := terms_cons_ok h
    cases t with
    | mk e direction =>
    simp only [Slots.terms, List.flatMap_cons, bindings_append, bindings_text,
      expr_bindings e hg, terms_bindings ts hgs, List.map_append, List.append_nil]

end

theorem returning_bindings {items : List Expr} {f : Fragment} (h : returning d items = .ok f) :
    f.bindings = (Slots.exprs d items).flatten.map Slot.binding := by
  obtain ⟨rfl, rfl⟩ | ⟨_, fs, hf, rfl⟩ := returning_ok h
  · rfl
  · rw [bindings_clause, bindings_join, (itemList_bindings items hf).flatMap]

theorem rowList_bindings (rows : List (List Expr)) {fs : List Fragment}
    (h : rowList d rows = .ok fs) :
    fs.flatMap Fragment.bindings =
      (rows.flatMap (Slots.exprs d)).flatten.map Slot.binding := by
  induction rows generalizing fs with
  | nil => cases h; rfl
  | cons row rows ih =>
    obtain ⟨g, gs, hg, hgs, rfl⟩ := rowList_cons_ok h
    rw [List.flatMap_cons, List.flatMap_cons, bindings_enclosed, bindings_join,
      (exprs_bindings row hg).flatMap, ih hgs, List.flatten_append, List.map_append]

theorem assignments_bindings (as : List Assignment) {fs : List Fragment}
    (h : assignments d as = .ok fs) :
    fs.flatMap Fragment.bindings =
      (Slots.exprs d (as.map Assignment.value)).flatten.map Slot.binding := by
  induction as generalizing fs with
  | nil => cases h; rfl
  | cons a as ih =>
    obtain ⟨g, gs, hg, hgs, rfl⟩ := assignments_cons_ok h
    rw [List.flatMap_cons, bindings_append, bindings_text, expr_bindings a.value hg, ih hgs,
      List.map_cons, Slots.exprs, List.flatten_cons, List.map_append, List.nil_append]

/-- A statement binds the values of its places, in the order of its text. -/
theorem statement_bindings (s : Statement) {f : Fragment} (h : statement d s = .ok f) :
    f.bindings = (Slots.statement d s).map Slot.binding := by
  cases s with
  | query q => exact query_bindings q h
  | insert p =>
    obtain ⟨rows, returned, hr, hb, rfl⟩ := insert_ok h
    simp only [Slots.statement, bindings_append, bindings_text, bindings_join,
      rowList_bindings p.rows hr, returning_bindings hb, List.map_append, List.nil_append]
  | update p =>
    obtain ⟨set, condition, returned, hs, hc, hr, rfl⟩ := update_ok h
    simp only [Slots.statement, bindings_append, bindings_text, bindings_join,
      bindings_optionalClause, assignments_bindings p.assignments hs,
      optional_bindings p.condition hc, returning_bindings hr, List.map_append, List.nil_append]
  | delete p =>
    obtain ⟨condition, returned, hc, hr, rfl⟩ := delete_ok h
    simp only [Slots.statement, bindings_append, bindings_text, bindings_optionalClause,
      optional_bindings p.condition hc, returning_bindings hr, List.map_append, List.nil_append]

end Sql

end PolyQuery
