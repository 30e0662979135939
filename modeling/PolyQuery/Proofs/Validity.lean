import Mathlib.Tactic.MkIffOfInductiveProp
import PolyQuery.Plan.Validate
import PolyQuery.Proofs.Phrase
import PolyQuery.Proofs.Rendering

/-! Valid queries, and which of them the checks of a statement look at. A statement passes the checks
exactly when it is complete and all queries that are found in it are valid: `Plan.checks_statement`.
They are not searched for in the orderings of combinations and in the items to return, so that
queries there may be anything: `Plan.check_valid`. -/
namespace PolyQuery

/-- A bound of a page: a natural number that is exact as a number, where a zero may have a sign. -/
def Value.IsBound (v : Value) : Prop :=
  v = .number .negZero ∨ ∃ n : Nat, n ≤ Number.maxSafe.toNat ∧ v = .number (.int n)

/-- Both bounds of a page are missing or natural numbers. -/
def Pagination.Valid (pagination : Option Pagination) : Prop :=
  ∀ page, pagination = some page →
    (∀ v, page.limit = some v → v.IsBound) ∧ ∀ v, page.offset = some v → v.IsBound

@[mk_iff]
structure Cte.Valid (c : Cte) : Prop where
  union : c.recursive = true → ∃ p, c.query = .combined p ∧ p.operator = .union
  columns : c.columns ≠ some []

/-- Common table expressions have names of their own. -/
def Cte.AllValid (cs : List Cte) : Prop := (cs.map Cte.name).Nodup ∧ ∀ c ∈ cs, c.Valid

@[mk_iff]
structure SelectPlan.Valid (p : SelectPlan) : Prop where
  having : p.having ≠ none → p.groupBy ≠ []
  source : p.joins ≠ [] → p.source ≠ none
  conditions : ∀ j ∈ p.joins, j.kind = .cross ↔ j.on = none
  names : (p.sources.map Source.name).Nodup
  page : Pagination.Valid p.pagination
  ctes : Cte.AllValid p.ctes

/-- Certainly as many columns on both sides: a known number, or all columns of one table. -/
def SetPlan.SameWidth (p : SetPlan) : Prop :=
  (∃ n, p.left.arity = .count n ∧ p.right.arity = .count n) ∨
    ∃ t, p.left.arity = .wildcard (some t) ∧ p.right.arity = .wildcard (some t)

@[mk_iff]
structure SetPlan.Valid (p : SetPlan) : Prop where
  left : p.left.ctes = []
  right : p.right.ctes = []
  width : p.SameWidth
  page : Pagination.Valid p.pagination
  ctes : Cte.AllValid p.ctes

/-- A query is valid on its own; what stands inside of it is not looked at. -/
def Query.Valid : Query → Prop
  | .select p => p.Valid
  | .combined p => p.Valid

/-- An error that tells a missing feature of a server. -/
def Error.IsUnsupported (e : Error) : Prop :=
  ∃ dialect category feature detail, e = .unsupportedFeature dialect category feature detail

/-- A check that passes exactly under a condition, and that never blames the server. -/
structure Checks (D : Prop) (x : Except Error Unit) : Prop where
  passes : x = .ok () ↔ D
  blameless : ∀ e, x = .error e → ¬ e.IsUnsupported

namespace Checks
variable {D E : Prop} {x : Except Error Unit} {f : Unit → Except Error Unit}

theorem iff (h : Checks D x) (hD : E ↔ D) : Checks E x := ⟨h.passes.trans hD.symm, h.blameless⟩

theorem ok (h : D) : Checks D (.ok ()) := ⟨⟨fun _ => h, fun _ => rfl⟩, fun _ he => nomatch he⟩

theorem pass : Checks True (.ok ()) := ok trivial

theorem error {e : Error} (h : ¬ D) (he : ¬ e.IsUnsupported) : Checks D (.error e) := by
  refine ⟨⟨fun hok => (nomatch hok), fun hD => (h hD).elim⟩, ?_⟩
  rintro _ ⟨⟩
  exact he

theorem fault {a : PlanFault} (h : ¬ D) : Checks D (fault a) := by
  refine error h ?_
  rintro ⟨_, _, _, _, he⟩
  cases he

theorem bind (hx : Checks D x) (hf : Checks E (f ())) : Checks (D ∧ E) (x >>= f) := by
  cases hxa : x with
  | ok a =>
    have hD := hx.passes.1 hxa
    exact hf.iff ⟨And.right, fun hE => ⟨hD, hE⟩⟩
  | error e =>
    refine error (fun hD => ?_) (hx.blameless e hxa)
    rw [hx.passes.2 hD.1] at hxa
    cases hxa

/-- A fault under a condition. -/
theorem unless_ {c : Prop} [Decidable c] {a : PlanFault} (hf : Checks E (f ())) :
    Checks (¬ c ∧ E) (if c then PolyQuery.fault a >>= f else f ()) := by
  by_cases hc : c
  · rw [if_pos hc]
    exact fault fun h => h.1 hc
  · rw [if_neg hc]
    exact hf.iff (and_iff_right hc)

end Checks

namespace Plan

theorem isBound_iff (v : Value) : isBound v = true ↔ v.IsBound := by
  have hzero : isBound (.number .negZero) = true := by decide
  constructor
  · intro h
    cases v with
    | number n =>
      obtain ⟨hsafe, hlt⟩ := (Bool.and_eq_true _ _).mp h
      cases n with
      | int k =>
        have hk : 0 ≤ k := by simpa [Number.lt, Number.ratio?] using hlt
        have hmax : k.natAbs ≤ Number.maxSafe.toNat := by simpa [Number.isSafeInteger] using hsafe
        refine .inr ⟨k.natAbs, hmax, ?_⟩
        rw [Int.natAbs_of_nonneg hk]
      | negZero => exact .inl rfl
      | _ => cases hsafe
    | _ => cases h
  · rintro (rfl | ⟨n, hn, rfl⟩)
    · exact hzero
    · simp only [isBound, Number.isSafeInteger, Number.lt, Number.ratio?, Bool.and_eq_true]
      refine ⟨by simpa using hn, by simp⟩

theorem checks_bound (label : String) (bound : Option Value) :
    Checks (∀ v, bound = some v → v.IsBound) (checkBound label bound) := by
  cases bound with
  | none => exact .ok fun v hv => nomatch hv
  | some v =>
    unfold checkBound
    dsimp only
    by_cases hv : isBound v = true
    · rw [if_pos hv]
      exact .ok fun w hw => by cases hw; exact (isBound_iff v).1 hv
    · have hnot : ¬ ∀ w, some v = some w → w.IsBound := fun h => hv ((isBound_iff v).2 (h v rfl))
      rw [if_neg hv]
      cases v.text? with
      | some text => exact .fault hnot
      | none =>
        refine .error hnot ?_
        rintro ⟨_, _, _, _, he⟩
        cases he

theorem checks_pagination (pagination : Option Pagination) :
    Checks (Pagination.Valid pagination) (checkPagination pagination) := by
  cases pagination with
  | none => exact .ok fun page hpage => nomatch hpage
  | some page =>
    refine ((checks_bound "LIMIT" page.limit).bind (checks_bound "OFFSET" page.offset)).iff ?_
    exact ⟨fun h => h page rfl, fun h _ hpage => by cases hpage; exact h⟩

theorem checks_joinCondition (kind : JoinKind) (on : Option Expr) :
    Checks (kind = .cross ↔ on = none) (checkJoinCondition kind on.isSome) := by
  unfold checkJoinCondition
  by_cases hk : kind = .cross
  · rw [if_pos hk]
    cases on with
    | none => exact .ok (by simp [hk])
    | some e => exact .fault (by simp [hk])
  · rw [if_neg hk]
    cases on with
    | none => exact .fault (by simp [hk])
    | some e => exact .ok (by simp [hk])

theorem checks_recursiveBody (name : String) (recursive : Bool) (query : Query) :
    Checks (recursive = true → ∃ p, query = .combined p ∧ p.operator = .union)
      (checkRecursiveBody name recursive query) := by
  cases query with
  | select p =>
    cases recursive with
    | true => exact .fault (by simp)
    | false => exact .ok (by simp)
  | combined p =>
    unfold checkRecursiveBody
    dsimp only
    cases recursive with
    | false => exact .ok (by simp)
    | true =>
      -- only a union may be recursive
      by_cases hp : p.operator = .union
      · simp only [hp]
        exact .ok fun _ => ⟨p, rfl, hp⟩
      · have hne : (true && p.operator != .union) = true := by simpa using hp
        rw [if_pos hne]
        refine .fault fun h => ?_
        obtain ⟨_, ⟨⟩, h⟩ := h rfl
        exact hp h

theorem checks_sameArity (p : SetPlan) : Checks p.SameWidth (checkSameArity p.left p.right) := by
  -- widths that are not known agree only where they are those of one table
  have hagrees : p.left.arity.agrees p.right.arity = true ↔ p.SameWidth := by
    unfold SetPlan.SameWidth Arity.agrees
    cases p.left.arity with
    | count m =>
      cases p.right.arity with
      | count n => simpa using eq_comm
      | wildcard t => simp
    | wildcard s =>
      cases p.right.arity with
      | count n => cases s <;> simp
      | wildcard t =>
        cases s with
        | none => simp
        | some s =>
          cases t with
          | none => simp
          | some t => simpa using eq_comm
  unfold checkSameArity
  by_cases h : p.left.arity.agrees p.right.arity = true
  · rw [if_pos h]
    exact .ok (hagrees.1 h)
  · rw [if_neg h]
    refine .error (fun hw => h (hagrees.2 hw)) ?_
    rintro ⟨_, _, _, _, he⟩
    cases he

end Plan

namespace Phrase
open Plan

/-- The checks of a phrase and of what is found in it. -/
def check : Phrase → Except Error Unit
  | expr e => checkExpr e
  | query q => checkQuery q

/-- Where the checks look for queries. -/
def visited : Phrase → List Phrase
  | query (.combined p) => p.queries.map query
  | p => p.inner

def Valid : Phrase → Prop
  | expr _ => True
  | query q => q.Valid

/-- All queries that the checks find are valid. -/
def Sound (p : Phrase) : Prop := ∀ m, Within visited p m → m.Valid

def Checked (p : Phrase) : Prop := Checks p.Sound p.check

theorem sound_iff {p : Phrase} : p.Sound ↔ p.Valid ∧ ∀ c ∈ p.visited, c.Sound := forall_within

theorem checks_exprs {es : List Expr} (h : ∀ e ∈ es, (expr e).Checked) :
    Checks (∀ e ∈ es, (expr e).Sound) (checkExprs es) := by
  induction es with
  | nil => exact .ok (by simp)
  | cons e es ih =>
    obtain ⟨he, hes⟩ := List.forall_mem_cons.1 h
    rw [checkExprs]
    exact (Checks.bind he (ih hes)).iff List.forall_mem_cons

theorem checks_optional {o : Option Expr} (h : ∀ e ∈ o.toList, (expr e).Checked) :
    Checks (∀ e ∈ o.toList, (expr e).Sound) (checkOptional o) := by
  cases o with
  | none => exact .ok (by simp)
  | some e =>
    rw [checkOptional]
    exact (h e (List.mem_singleton_self e)).iff (by simp)

theorem checks_terms {ts : List OrderTerm}
    (h : ∀ e ∈ ts.map OrderTerm.expression, (expr e).Checked) :
    Checks (∀ e ∈ ts.map OrderTerm.expression, (expr e).Sound) (checkTerms ts) := by
  induction ts with
  | nil => exact .ok (by simp)
  | cons t ts ih =>
    obtain ⟨e, direction⟩ := t
    obtain ⟨he, hes⟩ := List.forall_mem_cons.1 h
    rw [checkTerms]
    exact (Checks.bind he (ih hes)).iff List.forall_mem_cons

theorem checks_window {w : Window} (h : ∀ e ∈ w.expressions, (expr e).Checked) :
    Checks (∀ e ∈ w.expressions, (expr e).Sound) (checkWindow w) := by
  obtain ⟨partitionBy, orderBy, frame⟩ := w
  obtain ⟨hpartition, horder⟩ := List.forall_mem_append.1 h
  exact ((checks_exprs hpartition).bind (checks_terms horder)).iff List.forall_mem_append

theorem checks_optionalWindow {o : Option Window}
    (h : ∀ e ∈ o.toList.flatMap Window.expressions, (expr e).Checked) :
    Checks (∀ e ∈ o.toList.flatMap Window.expressions, (expr e).Sound) (checkOptionalWindow o) := by
  cases o with
  | none => exact .ok (by simp)
  | some w =>
    have hw : (Option.toList (some w)).flatMap Window.expressions = w.expressions :=
      List.flatMap_singleton ..
    rw [hw] at h ⊢
    exact checks_window h

theorem checks_branches {bs : List Branch}
    (h : ∀ e ∈ bs.flatMap Branch.expressions, (expr e).Checked) :
    Checks (∀ e ∈ bs.flatMap Branch.expressions, (expr e).Sound) (checkBranches bs) := by
  induction bs with
  | nil => exact .ok (by simp)
  | cons b bs ih =>
    obtain ⟨condition, result⟩ := b
    rw [List.flatMap_cons] at h ⊢
    obtain ⟨hb, hbs⟩ := List.forall_mem_append.1 h
    obtain ⟨hcondition, hrest⟩ := List.forall_mem_cons.1 hb
    have hresult := hrest result (List.mem_singleton_self result)
    rw [checkBranches]
    exact (Checks.bind hcondition (Checks.bind hresult (ih hbs))).iff
      (by simp [Branch.expressions])

theorem checks_joinExprs {js : List Join} (h : ∀ e ∈ js.filterMap Join.on, (expr e).Checked) :
    Checks (∀ e ∈ js.filterMap Join.on, (expr e).Sound) (checkJoinExprs js) := by
  induction js with
  | nil => exact .ok (by simp)
  | cons j js ih =>
    obtain ⟨kind, target, on, blank⟩ := j
    have hons : (Join.mk kind target on blank :: js).filterMap Join.on =
        on.toList ++ js.filterMap Join.on := by
      cases on <;> rfl
    rw [hons] at h ⊢
    obtain ⟨hon, hjs⟩ := List.forall_mem_append.1 h
    rw [checkJoinExprs]
    exact ((checks_optional hon).bind (ih hjs)).iff List.forall_mem_append

theorem checks_source {s : Source} (h : ∀ q ∈ s.query?.toList, (query q).Checked) :
    Checks (∀ q ∈ s.query?.toList, (query q).Sound) (checkSource s) := by
  cases s with
  | table name shown => exact .ok (by simp [Source.query?])
  | query q shown =>
    exact (h q (List.mem_singleton_self q)).iff (by simp [Source.query?])

theorem checks_optionalSource {o : Option Source}
    (h : ∀ q ∈ o.toList.filterMap Source.query?, (query q).Checked) :
    Checks (∀ q ∈ o.toList.filterMap Source.query?, (query q).Sound) (checkOptionalSource o) := by
  cases o with
  | none => exact .ok (by simp)
  | some s =>
    have hs : (Option.toList (some s)).filterMap Source.query? = s.query?.toList := by
      cases s <;> rfl
    rw [hs] at h ⊢
    exact checks_source h

/-- Names of their own that are also none of those before them. -/
theorem fresh_cons {n : String} {ns seen : List String} :
    ((n :: ns).Nodup ∧ ∀ m ∈ n :: ns, m ∉ seen) ↔
      n ∉ seen ∧ ns.Nodup ∧ ∀ m ∈ ns, m ∉ n :: seen := by
  rw [List.nodup_cons, List.forall_mem_cons]
  constructor
  · rintro ⟨⟨hn, hns⟩, hseen, h⟩
    refine ⟨hseen, hns, fun m hm hmem => ?_⟩
    obtain rfl | hmem := List.mem_cons.1 hmem
    · exact hn hm
    · exact h m hm hmem
  · rintro ⟨hseen, hns, h⟩
    exact ⟨⟨fun hn => h n hn List.mem_cons_self, hns⟩, hseen,
      fun m hm hmem => h m hm (List.mem_cons_of_mem n hmem)⟩

/-- Joins have a condition exactly when they need one, and names that no source before them has. -/
theorem checks_joins (seen : List String) {js : List Join}
    (h : ∀ q ∈ (js.map Join.target).filterMap Source.query?, (query q).Checked) :
    Checks ((∀ j ∈ js, j.kind = .cross ↔ j.on = none) ∧
      (((js.map Join.target).map Source.name).Nodup ∧
        ∀ n ∈ (js.map Join.target).map Source.name, n ∉ seen) ∧
      ∀ q ∈ (js.map Join.target).filterMap Source.query?, (query q).Sound) (checkJoins seen js) := by
  induction js generalizing seen with
  | nil => exact .ok (by simp)
  | cons j js ih =>
    obtain ⟨kind, target, on, blank⟩ := j
    -- a target that is no query has nothing of its own to check
    have htargets : ((Join.mk kind target on blank :: js).map Join.target).filterMap Source.query? =
        target.query?.toList ++ (js.map Join.target).filterMap Source.query? := by
      cases target <;> rfl
    rw [htargets] at h ⊢
    obtain ⟨htarget, hjs⟩ := List.forall_mem_append.1 h
    have hjoin : Checks _ (checkJoin seen ⟨kind, target, on, blank⟩) :=
      (checks_joinCondition kind on).bind
        (Checks.unless_ (c := seen.contains target.name = true) (checks_source htarget))
    rw [checkJoins]
    refine (hjoin.bind (ih (target.name :: seen) hjs)).iff ?_
    rw [List.map_cons, List.map_cons, fresh_cons, List.forall_mem_append, List.forall_mem_cons,
      List.contains_iff_mem]
    simp only [and_assoc, and_left_comm]

theorem checks_cte (names : List String) {c : Cte} (h : (query c.query).Checked) :
    Checks (c.name ∉ names ∧ c.Valid ∧ (query c.query).Sound) (checkCte names c) := by
  obtain ⟨name, body, columns, materialized, recursive⟩ := c
  have hbody : Checks (query body).Sound (checkQuery body) := h
  rw [checkCte]
  refine (Checks.unless_ ((checks_recursiveBody name recursive body).bind
    (Checks.unless_ hbody))).iff ?_
  rw [Cte.valid_iff, List.contains_iff_mem]
  simp only [and_assoc, ne_eq]

theorem checks_ctes (names : List String) {cs : List Cte}
    (h : ∀ q ∈ cs.map Cte.query, (query q).Checked) :
    Checks (((cs.map Cte.name).Nodup ∧ ∀ n ∈ cs.map Cte.name, n ∉ names) ∧ (∀ c ∈ cs, c.Valid) ∧
      ∀ q ∈ cs.map Cte.query, (query q).Sound) (checkCtes names cs) := by
  induction cs generalizing names with
  | nil => exact .ok (by simp)
  | cons c cs ih =>
    obtain ⟨hc, hcs⟩ := List.forall_mem_cons.1 h
    rw [checkCtes]
    refine ((checks_cte names hc).bind (ih (c.name :: names) hcs)).iff ?_
    rw [List.map_cons, List.map_cons, fresh_cons, List.forall_mem_cons, List.forall_mem_cons]
    simp only [and_assoc, and_left_comm]

theorem checks_allCtes {cs : List Cte} (h : ∀ q ∈ cs.map Cte.query, (query q).Checked) :
    Checks (Cte.AllValid cs ∧ ∀ q ∈ cs.map Cte.query, (query q).Sound) (checkCtes [] cs) :=
  (checks_ctes [] h).iff (by simp [Cte.AllValid, and_assoc])

/-- The checks of a phrase pass when the phrase is valid and all is sound that they look at. -/
theorem checked_of {p : Phrase} {D : Prop} (h : Checks D p.check)
    (hD : p.Valid ∧ (∀ c ∈ p.visited, c.Sound) ↔ D) : p.Checked :=
  h.iff (sound_iff.trans hD)

theorem checked_expr (e : Expr) (h : ∀ c ∈ (expr e).visited, c.Checked) : (expr e).Checked := by
  cases e with
  | column table name shown => exact checked_of .pass (by simp [Valid, visited, inner])
  | star table => exact checked_of .pass (by simp [Valid, visited, inner])
  | literal value hint => exact checked_of .pass (by simp [Valid, visited, inner])
  | raw sql parameters => exact checked_of .pass (by simp [Valid, visited, inner])
  | subquery q =>
    refine checked_of (h (query q) (List.mem_singleton_self _)) ?_
    simp [Valid, visited, inner]
  | unary op e =>
    refine checked_of (h (expr e) (List.mem_singleton_self _)) ?_
    simp [Valid, visited, inner]
  | named e name =>
    refine checked_of (h (expr e) (List.mem_singleton_self _)) ?_
    simp [Valid, visited, inner]
  | binary op left right =>
    obtain ⟨hleft, hright⟩ := List.forall_mem_cons.1 h
    have hright := hright (expr right) (List.mem_singleton_self _)
    -- parts are checked in the order in which they are visited
    refine checked_of (p := expr (.binary op left right)) (Checks.bind hleft hright) ?_
    simp [Valid, visited, inner]
  | inQuery e q negated =>
    obtain ⟨he, hq⟩ := List.forall_mem_cons.1 h
    have hq := hq (query q) (List.mem_singleton_self _)
    refine checked_of (p := expr (.inQuery e q negated)) (Checks.bind he hq) ?_
    simp [Valid, visited, inner]
  | inList e values negated =>
    obtain ⟨he, hvalues⟩ := List.forall_mem_cons.1 h
    have hvalues := checks_exprs (List.forall_mem_map.1 hvalues)
    refine checked_of (p := expr (.inList e values negated)) (Checks.bind he hvalues) ?_
    simp [Valid, visited, inner]
  | call name arguments distinct windowed =>
    obtain ⟨harguments, hwindow⟩ := List.forall_mem_append.1 (List.forall_mem_map.1 h)
    refine checked_of (p := expr (.call name arguments distinct windowed))
      ((checks_exprs harguments).bind (checks_optionalWindow hwindow)) ?_
    simp only [Valid, visited, inner, true_and, List.forall_mem_map, List.forall_mem_append]
  | window w =>
    refine checked_of (p := expr (.window w)) (checks_window (List.forall_mem_map.1 h)) ?_
    simp only [Valid, visited, inner, true_and, List.forall_mem_map]
  | cases branches otherwise =>
    obtain ⟨hbranches, hotherwise⟩ := List.forall_mem_append.1 (List.forall_mem_map.1 h)
    refine checked_of (p := expr (.cases branches otherwise))
      ((checks_branches hbranches).bind (checks_optional hotherwise)) ?_
    simp only [Valid, visited, inner, true_and, List.forall_mem_map, List.forall_mem_append]

/-- The names of the joins are also no name of the source before them. -/
theorem names_iff (p : SelectPlan) : (p.sources.map Source.name).Nodup ↔
    ((p.joins.map Join.target).map Source.name).Nodup ∧
      ∀ n ∈ (p.joins.map Join.target).map Source.name, n ∉ (p.source.map Source.name).toList := by
  unfold SelectPlan.sources
  cases p.source with
  | none => simp
  | some s =>
    simp only [Option.toList_some, List.map_cons,
      List.singleton_append, List.nodup_cons, Option.map_some, List.mem_singleton]
    constructor
    · rintro ⟨hs, hnodup⟩
      exact ⟨hnodup, fun n hn heq => hs (heq ▸ hn)⟩
    · rintro ⟨hnodup, hs⟩
      exact ⟨fun hmem => hs _ hmem rfl, hnodup⟩

theorem checked_select (p : SelectPlan) (h : ∀ c ∈ (query (.select p)).visited, c.Checked) :
    (query (.select p)).Checked := by
  obtain ⟨items, source, joins, condition, groupBy, having, orderBy, pagination, distinct, ctes⟩ :=
    p
  obtain ⟨hqueries, hexprs⟩ := List.forall_mem_append.1 h
  have hqueries := List.forall_mem_map.1 hqueries
  have hexprs := List.forall_mem_map.1 hexprs
  simp only [SelectPlan.queries, SelectPlan.sources, SelectPlan.expressions, List.filterMap_append,
    List.forall_mem_append] at hqueries hexprs
  obtain ⟨hctes, hsource, hjoins⟩ := hqueries
  obtain ⟨⟨⟨⟨⟨hitems, hons⟩, hcondition⟩, hgroups⟩, hhaving⟩, horder⟩ := hexprs
  rw [Checked, check, checkQuery, checkSelect]
  refine (Checks.unless_ (Checks.unless_ ((checks_optionalSource hsource).bind
    ((checks_joins _ hjoins).bind ((checks_pagination pagination).bind
      ((checks_allCtes hctes).bind ((checks_exprs hitems).bind ((checks_optional hcondition).bind
        ((checks_exprs hgroups).bind ((checks_optional hhaving).bind ((checks_terms horder).bind
          (checks_joinExprs hons)))))))))))).iff (sound_iff.trans ?_)
  -- the two faults of the plan itself, as conditions on its clauses
  have hhaving' : ¬ (having.isSome && groupBy.isEmpty) = true ↔ (having ≠ none → groupBy ≠ []) := by
    cases having <;> simp
  have hsource' : ¬ (!joins.isEmpty && source.isNone) = true ↔ (joins ≠ [] → source ≠ none) := by
    cases source <;> simp
  rw [hhaving', hsource', show (query (.select _)).Valid ↔ _ from SelectPlan.valid_iff _, names_iff]
  simp only [visited, inner, SelectPlan.queries, SelectPlan.sources, SelectPlan.expressions,
    List.filterMap_append, List.forall_mem_append, List.forall_mem_map]
  grind

theorem checked_combined (p : SetPlan) (h : ∀ c ∈ (query (.combined p)).visited, c.Checked) :
    (query (.combined p)).Checked := by
  obtain ⟨operator, all, left, right, orderBy, pagination, ctes⟩ := p
  obtain ⟨hctes, hoperands⟩ := List.forall_mem_append.1 (List.forall_mem_map.1 h)
  obtain ⟨hleft, hright⟩ := List.forall_mem_cons.1 hoperands
  have hleft : Checks (query left).Sound (checkQuery left) := hleft
  have hright : Checks (query right).Sound (checkQuery right) :=
    hright right (List.mem_singleton_self right)
  rw [Checked, check, checkQuery, checkSet]
  refine (Checks.unless_ (hleft.bind (Checks.unless_ (hright.bind
    ((checks_sameArity ⟨operator, all, left, right, orderBy, pagination, ctes⟩).bind
      ((checks_pagination pagination).bind (checks_allCtes hctes))))))).iff (sound_iff.trans ?_)
  rw [show (query (.combined _)).Valid ↔ _ from SetPlan.valid_iff _]
  simp only [visited, SetPlan.queries, List.forall_mem_append, List.forall_mem_map,
    List.forall_mem_cons, Bool.not_eq_true', Bool.not_eq_false, List.isEmpty_iff]
  grind

/-- Every phrase is checked exactly for the queries that its checks find. -/
theorem checked (p : Phrase) : p.Checked := by
  refine p.induct fun p h => ?_
  cases p with
  | expr e => exact checked_expr e h
  | query q =>
    cases q with
    | select p => exact checked_select p h
    | combined p =>
      -- the checks of a combination leave its ordering out
      exact checked_combined p fun c hc => h c (List.mem_append_left _ hc)

/-- What stands in a phrase but is not found there stands in the ordering of a combination. -/
theorem within_inner {p m : Phrase} (h : Within inner p m) : Within visited p m ∨
    ∃ plan, Within inner p (query (.combined plan)) ∧
      ∃ e ∈ plan.expressions, Within inner (expr e) m := by
  induction h using Relation.ReflTransGen.head_induction_on with
  | refl => exact .inl .refl
  | @head p c hc hcm ih =>
    -- only the order of a combination is not visited
    have hfound : c ∈ p.visited ∨ ∃ plan, p = query (.combined plan) ∧
        ∃ e ∈ plan.expressions, c = expr e := by
      cases p with
      | expr e => exact .inl hc
      | query q =>
        cases q with
        | select p => exact .inl hc
        | combined plan =>
          obtain hc | hc := List.mem_append.1 hc
          · exact .inl hc
          · obtain ⟨e, he, rfl⟩ := List.mem_map.1 hc
            exact .inr ⟨plan, rfl, e, he, rfl⟩
    obtain hvisited | ⟨plan, rfl, e, he, rfl⟩ := hfound
    · obtain hm | ⟨plan, hplan, he⟩ := ih
      · exact .inl (.head hvisited hm)
      · exact .inr ⟨plan, .head hc hplan, he⟩
    · exact .inr ⟨plan, .refl, e, he, hcm⟩

end Phrase

namespace Statement

/-- The outermost phrases that the checks of a statement look at. -/
def visited : Statement → List Phrase
  | .query q => [.query q]
  | .insert p => p.rows.flatten.map .expr
  | .update p => (p.condition.toList ++ p.assignments.map Assignment.value).map .expr
  | .delete p => p.condition.toList.map .expr

def returning : Statement → List Expr
  | .query _ => []
  | .insert p => p.returning
  | .update p => p.returning
  | .delete p => p.returning

/-- A statement has the parts that its kind asks for. -/
def Complete : Statement → Prop
  | .query _ => True
  | .insert p => p.columns ≠ [] ∧ p.rows ≠ [] ∧ ∀ row ∈ p.rows, row.length = p.columns.length
  | .update p => p.assignments ≠ [] ∧ p.condition ≠ none
  | .delete p => p.condition ≠ none

theorem phrases_iff {s : Statement} {p : Phrase} :
    p ∈ s.phrases ↔ p ∈ s.visited ∨ ∃ e ∈ s.returning, p = .expr e := by
  cases s <;> simp [phrases, visited, returning] <;> grind

/-- An expression that the checks of a statement leave out: a term of the ordering of a combination,
or an item to return. -/
def Overlooks (s : Statement) (e : Expr) : Prop :=
  (∃ p, s.Has Phrase.inner (.query (.combined p)) ∧ e ∈ p.expressions) ∨ e ∈ s.returning

end Statement

namespace Plan
open Phrase

theorem checks_rows (columns : Nat) (rows : List (List Expr)) :
    Checks ((∀ row ∈ rows, row.length = columns) ∧ ∀ e ∈ rows.flatten, (expr e).Sound)
      (checkRows columns rows) := by
  induction rows with
  | nil => exact .ok (by simp)
  | cons row rows ih =>
    rw [checkRows]
    refine (Checks.unless_ ((checks_exprs fun e _ => checked (expr e)).bind ih)).iff ?_
    rw [List.flatten_cons, List.forall_mem_append, List.forall_mem_cons]
    simp only [bne_iff_ne, ne_eq, Decidable.not_not]
    grind

/-- A statement passes the checks exactly when it has all its parts and every query is valid that the
checks find; they never fail for what a server lacks. -/
theorem checks_statement (s : Statement) :
    Checks (s.Complete ∧ ∀ p ∈ s.visited, p.Sound) (check s) := by
  cases s with
  | query q => exact (checked (.query q)).iff (by simp [Statement.Complete, Statement.visited])
  | insert p =>
    rw [check, checkInsert]
    refine (Checks.unless_ (Checks.unless_ (checks_rows p.columns.length p.rows))).iff ?_
    simp only [Statement.Complete, Statement.visited, List.forall_mem_map, List.isEmpty_iff]
    grind
  | update p =>
    rw [check, checkUpdate]
    refine (Checks.unless_ (Checks.unless_ ((checks_optional fun e _ => checked (expr e)).bind
      (checks_exprs fun e _ => checked (expr e))))).iff ?_
    simp only [Statement.Complete, Statement.visited, List.forall_mem_map, List.forall_mem_append,
      List.isEmpty_iff, Option.isNone_iff_eq_none]
    grind
  | delete p =>
    rw [check, checkDelete]
    refine (Checks.unless_ (checks_optional fun e _ => checked (expr e))).iff ?_
    simp only [Statement.Complete, Statement.visited, List.forall_mem_map,
      Option.isNone_iff_eq_none]

/-- Once a statement has passed the checks, each query in it is valid or stands in what the checks
leave out, so that all are valid exactly when those are. -/
theorem check_valid (s : Statement) (h : check s = .ok ()) :
    (∀ q, s.Has Phrase.inner (.query q) →
      q.Valid ∨ ∃ e, s.Overlooks e ∧ Within Phrase.inner (.expr e) (.query q)) ∧
    ((∀ q, s.Has Phrase.inner (.query q) → q.Valid) ↔
      ∀ e, s.Overlooks e → ∀ q, Within Phrase.inner (.expr e) (.query q) → q.Valid) := by
  have hsound := ((checks_statement s).passes.1 h).2
  have hfound : ∀ q, s.Has Phrase.inner (.query q) →
      q.Valid ∨ ∃ e, s.Overlooks e ∧ Within Phrase.inner (.expr e) (.query q) := by
    rintro q ⟨root, hroot, hq⟩
    obtain hvisited | ⟨e, he, rfl⟩ := Statement.phrases_iff.1 hroot
    -- on the way to a query either all was visited, or the way leads through what is overlooked
    · obtain hfound | ⟨p, hp, e, he, hq⟩ := within_inner hq
      · exact .inl (hsound root hvisited (.query q) hfound)
      · exact .inr ⟨e, .inl ⟨p, ⟨root, hroot, hp⟩, he⟩, hq⟩
    · exact .inr ⟨e, .inr he, hq⟩
  refine ⟨hfound, ?_, fun hvalid q hq => ?_⟩
  · rintro hvalid e (⟨p, ⟨root, hroot, hp⟩, he⟩ | he) q hq
    · have hstep : expr e ∈ (query (.combined p)).inner :=
        List.mem_append_right _ (List.mem_map_of_mem he)
      exact hvalid q ⟨root, hroot, (hp.tail hstep).trans hq⟩
    · exact hvalid q ⟨.expr e, Statement.phrases_iff.2 (.inr ⟨e, he, rfl⟩), hq⟩
  · obtain hq | ⟨e, he, hq⟩ := hfound q hq
    · exact hq
    · exact hvalid e he q hq

/-- The rows of a table up to a limit. -/
def limited (table : String) (limit : Int) : Query := .select
  { SelectPlan.all (some (.table table none)) with
    pagination := some ⟨some (.number (.int limit)), none⟩ }

/-- A deletion where there is a row of another table. -/
def conditionalDeletion : Statement := .delete
  { table := "t", condition := some (.unary .exists_ (.subquery (limited "u" 1))), returning := [] }

theorem check_valid_conditionalDeletion : check conditionalDeletion = .ok () ∧
    conditionalDeletion.Has Phrase.inner (.query (limited "u" 1)) ∧
    ∀ q, conditionalDeletion.Has Phrase.inner (.query q) → q.Valid := by
  have hcheck : check conditionalDeletion = .ok () := rfl
  have hquery : conditionalDeletion.Has Phrase.inner (.query (limited "u" 1)) :=
    ⟨_, List.mem_singleton_self _, .head (List.mem_singleton_self _)
      (.head (List.mem_singleton_self _) .refl)⟩
  refine ⟨hcheck, hquery, (check_valid _ hcheck).2.2 ?_⟩
  -- there is no combination in the condition, and nothing is returned
  rintro e (⟨p, ⟨root, hroot, hp⟩, he⟩ | he)
  · obtain rfl := List.mem_singleton.1 hroot
    obtain h | ⟨c, hc, hp⟩ := within_iff.1 hp
    · cases h
    obtain rfl := List.mem_singleton.1 hc
    obtain h | ⟨c, hc, hp⟩ := within_iff.1 hp
    · cases h
    obtain rfl := List.mem_singleton.1 hc
    obtain h | ⟨c, hc, hp⟩ := within_iff.1 hp
    · cases h
    · cases hc
  · cases he

/-- The rows of two tables in the order of a query with a negative limit. -/
def badlyOrdered : SetPlan where
  operator := .union
  all := false
  left := .select (SelectPlan.all (some (.table "t" none)))
  right := .select (SelectPlan.all (some (.table "t" none)))
  orderBy := [⟨.subquery (limited "v" (-1)), .ascending⟩]
  pagination := none
  ctes := []

/-- A negative limit is refused in the ordering of a selection, and written in that of a combination. -/
theorem badlyOrdered_compiles :
    ¬ (limited "v" (-1)).Valid ∧
    (Statement.query (.combined badlyOrdered)).Has Phrase.inner (.query (limited "v" (-1))) ∧
    check (.query (.select { SelectPlan.all (some (.table "t" none)) with
      orderBy := badlyOrdered.orderBy })) = .error (.invalidPlan (.badBound "LIMIT" "-1")) ∧
    check (.query (.combined badlyOrdered)) = .ok () ∧
    ∃ c, compile (.make .sqlite none) (.query (.combined badlyOrdered)) = .ok c ∧
      c.sql = "SELECT * FROM t UNION SELECT * FROM t ORDER BY (SELECT * FROM v LIMIT -1) ASC" := by
  refine ⟨fun h => ?_, ?_, by rfl, rfl, compile_of_sql _ (by decide +kernel)⟩
  · obtain h | ⟨n, _, h⟩ := (h.page _ rfl).1 _ rfl
    · cases h
    · cases h
  · exact ⟨_, List.mem_singleton_self _, .head (List.mem_append_right _ (List.mem_singleton_self _))
      (.head (List.mem_singleton_self _) .refl)⟩

end Plan

end PolyQuery
