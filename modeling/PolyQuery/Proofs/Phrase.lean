import Mathlib.Logic.Relation
import PolyQuery.Expr

/-! The phrases of a statement: its expressions and its queries, at every depth. A phrase is made of
smaller ones, so that what follows for a phrase from the phrases inside of it holds of all of them:
`Phrase.induct`. -/
namespace PolyQuery

/-- A phrase of a statement. -/
inductive Phrase where
  | expr (e : Expr)
  | query (q : Query)

def Source.query? : Source → Option Query
  | .table _ _ => none
  | .query q _ => some q

def Window.expressions (w : Window) : List Expr :=
  w.partitionBy ++ w.orderBy.map OrderTerm.expression

def Branch.expressions (b : Branch) : List Expr := [b.condition, b.result]

namespace SelectPlan

def sources (p : SelectPlan) : List Source := p.source.toList ++ p.joins.map Join.target

def queries (p : SelectPlan) : List Query :=
  p.ctes.map Cte.query ++ p.sources.filterMap Source.query?

def expressions (p : SelectPlan) : List Expr :=
  p.items ++ p.joins.filterMap Join.on ++ p.condition.toList ++ p.groupBy ++ p.having.toList ++
    p.orderBy.map OrderTerm.expression

end SelectPlan

namespace SetPlan

def queries (p : SetPlan) : List Query := p.ctes.map Cte.query ++ [p.left, p.right]

def expressions (p : SetPlan) : List Expr := p.orderBy.map OrderTerm.expression

end SetPlan

namespace Phrase

/-- The phrases that stand in a phrase itself. -/
def inner : Phrase → List Phrase
  | expr (.column _ _ _) => []
  | expr (.star _) => []
  | expr (.literal _ _) => []
  | expr (.binary _ left right) => [expr left, expr right]
  | expr (.unary _ e) => [expr e]
  | expr (.inList e values _) => expr e :: values.map expr
  | expr (.inQuery e q _) => [expr e, query q]
  | expr (.call _ arguments _ windowed) =>
    (arguments ++ windowed.toList.flatMap Window.expressions).map expr
  | expr (.window w) => w.expressions.map expr
  | expr (.subquery q) => [query q]
  | expr (.cases branches otherwise) =>
    (branches.flatMap Branch.expressions ++ otherwise.toList).map expr
  | expr (.named e _) => [expr e]
  | expr (.raw _ _) => []
  | query (.select p) => p.queries.map query ++ p.expressions.map expr
  | query (.combined p) => p.queries.map query ++ p.expressions.map expr

/-- The phrases that are written. The operand of a membership test in no values is not. -/
def written : Phrase → List Phrase
  | expr (.inList _ [] _) => []
  | p => p.inner

/-- A phrase stands in another one, at some depth, or is it. -/
def Within (step : Phrase → List Phrase) : Phrase → Phrase → Prop :=
  Relation.ReflTransGen fun p c => c ∈ step p

variable {step : Phrase → List Phrase} {p c m : Phrase}

theorem within_iff : Within step p m ↔ p = m ∨ ∃ c ∈ step p, Within step c m := by
  constructor
  · intro h
    obtain rfl | ⟨c, hc, h⟩ := Relation.ReflTransGen.cases_head h
    · exact .inl rfl
    · exact .inr ⟨c, hc, h⟩
  · rintro (rfl | ⟨c, hc, h⟩)
    · exact .refl
    · exact .head hc h

theorem forall_within {P : Phrase → Prop} : (∀ m, Within step p m → P m) ↔
    P p ∧ ∀ c ∈ step p, ∀ m, Within step c m → P m := by
  constructor
  · intro h
    exact ⟨h p .refl, fun c hc m hm => h m (within_iff.2 (.inr ⟨c, hc, hm⟩))⟩
  · rintro ⟨hp, h⟩ m hm
    obtain rfl | ⟨c, hc, hm⟩ := within_iff.1 hm
    · exact hp
    · exact h c hc m hm

theorem Within.mono {step' : Phrase → List Phrase} (hs : ∀ p, ∀ c ∈ step p, c ∈ step' p)
    (h : Within step p m) : Within step' p m :=
  Relation.ReflTransGen.mono (fun p c => hs p c) _ _ h

theorem written_subset (p : Phrase) : ∀ c ∈ p.written, c ∈ p.inner := by
  intro c hc
  unfold written at hc
  split at hc
  · cases hc
  · exact hc

section
variable {e : Expr} {q : Query}

theorem sizeOf_optional {α : Type} [SizeOf α] {x : α} {o : Option α} (h : x ∈ o.toList) :
    sizeOf x < sizeOf o := by
  obtain rfl := Option.mem_toList.1 h
  rw [Option.some.sizeOf_spec]
  omega

theorem sizeOf_terms {ts : List OrderTerm} (h : e ∈ ts.map OrderTerm.expression) :
    sizeOf e < sizeOf ts := by
  obtain ⟨⟨e, direction⟩, ht, rfl⟩ := List.mem_map.1 h
  have hlist := List.sizeOf_lt_of_mem ht
  rw [OrderTerm.mk.sizeOf_spec] at hlist
  dsimp only
  omega

theorem sizeOf_window {w : Window} (h : e ∈ w.expressions) : sizeOf e < sizeOf w := by
  obtain ⟨partitionBy, orderBy, frame⟩ := w
  rw [Window.mk.sizeOf_spec]
  obtain h | h := List.mem_append.1 h
  · have hlist := List.sizeOf_lt_of_mem h
    dsimp only at hlist
    omega
  · have hterms := sizeOf_terms h
    dsimp only at hterms
    omega

theorem sizeOf_branches {bs : List Branch} (h : e ∈ bs.flatMap Branch.expressions) :
    sizeOf e < sizeOf bs := by
  obtain ⟨⟨condition, result⟩, hb, he⟩ := List.mem_flatMap.1 h
  have hlist := List.sizeOf_lt_of_mem hb
  rw [Branch.mk.sizeOf_spec] at hlist
  simp only [Branch.expressions, List.mem_cons, List.not_mem_nil, or_false] at he
  obtain rfl | rfl := he <;> omega

theorem sizeOf_ctes {cs : List Cte} (h : q ∈ cs.map Cte.query) : sizeOf q < sizeOf cs := by
  obtain ⟨⟨name, q, columns, materialized, recursive⟩, hc, rfl⟩ := List.mem_map.1 h
  have hlist := List.sizeOf_lt_of_mem hc
  rw [Cte.mk.sizeOf_spec] at hlist
  dsimp only
  omega

theorem sizeOf_source {s : Source} (h : s.query? = some q) : sizeOf q < sizeOf s := by
  cases s with
  | table name shown => cases h
  | query q shown =>
    cases h
    rw [Source.query.sizeOf_spec]
    omega

theorem sizeOf_selected {p : SelectPlan} :
    (∀ q ∈ p.queries, sizeOf q < sizeOf p) ∧ ∀ e ∈ p.expressions, sizeOf e < sizeOf p := by
  obtain ⟨items, source, joins, condition, groupBy, having, orderBy, pagination, distinct, ctes⟩ :=
    p
  -- the target and the condition of a join are smaller than the list of all joins
  have hjoin {j : Join} (hj : j ∈ joins) :
      sizeOf j.target < sizeOf joins ∧ ∀ e, j.on = some e → sizeOf e < sizeOf joins := by
    have hlist := List.sizeOf_lt_of_mem hj
    obtain ⟨kind, target, on, blank⟩ := j
    rw [Join.mk.sizeOf_spec] at hlist
    refine ⟨by dsimp only; omega, fun e he => ?_⟩
    dsimp only at he
    rw [he, Option.some.sizeOf_spec] at hlist
    omega
  rw [SelectPlan.mk.sizeOf_spec]
  constructor
  · intro q hq
    simp only [SelectPlan.queries, SelectPlan.sources, List.mem_append, List.mem_filterMap,
      List.mem_map] at hq
    obtain ⟨c, hc, rfl⟩ | ⟨s, hs | ⟨j, hj, rfl⟩, hq⟩ := hq
    · have hcte := sizeOf_ctes (List.mem_map_of_mem (f := Cte.query) hc)
      omega
    · have hsource := sizeOf_source hq
      have hoption := sizeOf_optional hs
      omega
    · have hsource := sizeOf_source hq
      have htarget := (hjoin hj).1
      omega
  · intro e he
    simp only [SelectPlan.expressions, List.mem_append, List.mem_filterMap] at he
    obtain ((((he | ⟨j, hj, he⟩) | he) | he) | he) | he := he
    · have hlist := List.sizeOf_lt_of_mem he
      omega
    · have hon := (hjoin hj).2 e he
      omega
    · have hoption := sizeOf_optional he
      omega
    · have hlist := List.sizeOf_lt_of_mem he
      omega
    · have hoption := sizeOf_optional he
      omega
    · have hterms := sizeOf_terms he
      omega

theorem sizeOf_combined {p : SetPlan} :
    (∀ q ∈ p.queries, sizeOf q < sizeOf p) ∧ ∀ e ∈ p.expressions, sizeOf e < sizeOf p := by
  obtain ⟨operator, all, left, right, orderBy, pagination, ctes⟩ := p
  rw [SetPlan.mk.sizeOf_spec]
  constructor
  · intro q hq
    simp only [SetPlan.queries, List.mem_append, List.mem_cons, List.not_mem_nil, or_false] at hq
    obtain hq | rfl | rfl := hq
    · have hcte := sizeOf_ctes hq
      omega
    · omega
    · omega
  · intro e he
    have hterms : sizeOf e < sizeOf orderBy := sizeOf_terms he
    omega

theorem sizeOf_inner {p c : Phrase} (h : c ∈ p.inner) : sizeOf c < sizeOf p := by
  have hplan {qs : List Query} {es : List Expr} {n : Nat}
      (hsize : (∀ q ∈ qs, sizeOf q < n) ∧ ∀ e ∈ es, sizeOf e < n)
      (hc : c ∈ qs.map query ++ es.map expr) : sizeOf c < n + 1 := by
    obtain hc | hc := List.mem_append.1 hc
    · obtain ⟨q, hq, rfl⟩ := List.mem_map.1 hc
      have hlt := hsize.1 q hq
      rw [query.sizeOf_spec]
      omega
    · obtain ⟨e, he, rfl⟩ := List.mem_map.1 hc
      have hlt := hsize.2 e he
      rw [expr.sizeOf_spec]
      omega
  -- a plan has the size of its query less one, and an expression that of its phrase less one
  cases p with
  | query q =>
    rw [query.sizeOf_spec]
    cases q with
    | select p =>
      have hlt := hplan sizeOf_selected h
      rw [Query.select.sizeOf_spec]
      omega
    | combined p =>
      have hlt := hplan sizeOf_combined h
      rw [Query.combined.sizeOf_spec]
      omega
  | expr e =>
    rw [expr.sizeOf_spec]
    cases e with
    | column table name shown => cases h
    | star table => cases h
    | literal value hint => cases h
    | raw sql parameters => cases h
    | binary op left right =>
      simp only [inner, List.mem_cons, List.not_mem_nil, or_false] at h
      rw [Expr.binary.sizeOf_spec]
      obtain rfl | rfl := h <;> (rw [expr.sizeOf_spec]; omega)
    | unary op e =>
      obtain rfl := List.mem_singleton.1 h
      rw [Expr.unary.sizeOf_spec, expr.sizeOf_spec]
      omega
    | named e name =>
      obtain rfl := List.mem_singleton.1 h
      rw [Expr.named.sizeOf_spec, expr.sizeOf_spec]
      omega
    | subquery q =>
      obtain rfl := List.mem_singleton.1 h
      rw [Expr.subquery.sizeOf_spec, query.sizeOf_spec]
      omega
    | inList e values negated =>
      rw [Expr.inList.sizeOf_spec]
      obtain rfl | hc := List.mem_cons.1 h
      · rw [expr.sizeOf_spec]
        omega
      · obtain ⟨v, hv, rfl⟩ := List.mem_map.1 hc
        have hlist := List.sizeOf_lt_of_mem hv
        rw [expr.sizeOf_spec]
        omega
    | inQuery e q negated =>
      simp only [inner, List.mem_cons, List.not_mem_nil, or_false] at h
      rw [Expr.inQuery.sizeOf_spec]
      obtain rfl | rfl := h
      · rw [expr.sizeOf_spec]
        omega
      · rw [query.sizeOf_spec]
        omega
    | call name arguments distinct windowed =>
      obtain ⟨e, he, rfl⟩ := List.mem_map.1 h
      rw [Expr.call.sizeOf_spec, expr.sizeOf_spec]
      obtain he | he := List.mem_append.1 he
      · have hlist := List.sizeOf_lt_of_mem he
        omega
      · obtain ⟨w, hw, he⟩ := List.mem_flatMap.1 he
        have hwindow := sizeOf_window he
        have hoption := sizeOf_optional hw
        omega
    | window w =>
      obtain ⟨e, he, rfl⟩ := List.mem_map.1 h
      have hwindow := sizeOf_window he
      rw [Expr.window.sizeOf_spec, expr.sizeOf_spec]
      omega
    | cases branches otherwise =>
      obtain ⟨e, he, rfl⟩ := List.mem_map.1 h
      rw [Expr.cases.sizeOf_spec, expr.sizeOf_spec]
      obtain he | he := List.mem_append.1 he
      · have hbranch := sizeOf_branches he
        omega
      · have hoption := sizeOf_optional he
        omega

/-- What a phrase has when all phrases inside of it have it, every phrase has. -/
theorem induct {P : Phrase → Prop} (h : ∀ p, (∀ c ∈ p.inner, P c) → P p) (p : Phrase) : P p :=
  (measure fun p : Phrase => sizeOf p).wf.induction p fun p ih => h p fun c hc => ih c (sizeOf_inner hc)

end

end Phrase

/-- The outermost phrases of a statement. -/
def Statement.phrases : Statement → List Phrase
  | .query q => [.query q]
  | .insert p => (p.rows.flatten ++ p.returning).map .expr
  | .update p =>
    (p.assignments.map Assignment.value ++ p.condition.toList ++ p.returning).map .expr
  | .delete p => (p.condition.toList ++ p.returning).map .expr

/-- A phrase stands in a statement. -/
def Statement.Has (step : Phrase → List Phrase) (s : Statement) (m : Phrase) : Prop :=
  ∃ p ∈ s.phrases, Phrase.Within step p m

end PolyQuery
