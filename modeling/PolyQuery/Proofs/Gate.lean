import PolyQuery.Proofs.Demand

/-! Writing a statement for a dialect succeeds exactly when the server meets all demands of the
statement: `judges_statement`. -/
namespace PolyQuery

/-- The text of a phrase. -/
def Phrase.render (d : Dialect) : Phrase → Except Error Fragment
  | .expr e => Sql.expr d e
  | .query q => Sql.query d q

/-- A phrase is written exactly when its demands are met. -/
def Phrase.Judged (d : Dialect) (p : Phrase) : Prop := Judges d p.Demands (p.render d)

namespace Judges
variable {d : Dialect}

theorem require (category : Category) (flags : Mask) :
    Judges d (· = .feature category flags) (d.require category flags) :=
  check (.feature category flags)

/-- A demand that is not made is no demand. -/
theorem onlyIf {x : Except Error Unit} {D : Demand → Prop} {c : Bool} (hx : Judges d D x) :
    Judges d (fun u => c = true ∧ D u) (if c then x else .ok ()) := by
  cases c with
  | true => exact hx.iff fun u => by simp
  | false => exact (ok ()).iff fun u => by simp

theorem requireCtes (cs : List Cte) :
    Judges d (fun u => u ∈ (if cs.isEmpty then [] else [Demand.feature .cte CteFeature.basic]) ++
      (if cs.any Cte.recursive then [Demand.feature .cte CteFeature.recursive] else []))
      (Sql.requireCtes d cs) := by
  cases cs with
  | nil => exact (ok ()).iff fun u => by simp
  | cons c cs =>
    have hrecursive : Judges d (fun u => (c :: cs).any Cte.recursive = true ∧
        u = .feature .cte CteFeature.recursive) (if (c :: cs).any Cte.recursive then
          d.require .cte CteFeature.recursive else .ok ()) := (require _ _).onlyIf
    refine ((require .cte CteFeature.basic).bind fun _ => hrecursive).iff fun u => ?_
    cases (c :: cs).any Cte.recursive <;> simp

theorem checkWindowUse (function : String) (windowed : Bool) :
    Judges d (fun u => u ∈ Demand.ofWindow function windowed)
      (d.checkWindowUse function windowed) := by
  unfold Dialect.checkWindowUse
  cases hlookup : windowFunctions.lookup function with
  | some flags =>
    rw [Demand.ofWindow_known windowed hlookup]
    cases windowed with
    | true => exact (require .windowFunctions flags).iff fun u => by simp
    | false => exact (check (.window function)).iff fun u => by simp
  | none =>
    rw [Demand.ofWindow_unknown windowed hlookup]
    cases windowed with
    | false => exact (ok ()).iff fun u => by simp
    | true =>
      have hany : Judges d _ ((Demand.windows function).check d) := check _
      unfold Demand.check at hany
      cases hs : d.capabilities.supportsCategory .windowFunctions <;>
        simpa [hs] using hany

theorem checkJsonUse (function : String) :
    Judges d (fun u => u ∈ Demand.ofDocument function) (d.checkJsonUse function) := by
  unfold Dialect.checkJsonUse Demand.ofDocument
  cases jsonFunctions.lookup function with
  | some flags => exact (require .jsonOperations flags).iff fun u => by simp
  | none => exact (ok ()).iff fun u => by simp

theorem checkCall (name : String) (windowed : Bool) :
    Judges d (fun u => u ∈ Demand.ofCall (Text.upper name) windowed) (d.checkCall name windowed) :=
  ((checkWindowUse (Text.upper name) windowed).bind fun _ => checkJsonUse (Text.upper name)).iff
    fun _ => List.mem_append

/-- Only an offset that `TOP` cannot skip is refused. -/
theorem finish (core order : Fragment) (ordered : Bool) (pagination : Option Pagination)
    (applied : Bool) :
    Judges d (fun u => u ∈ Pagination.demands pagination)
      (Paging.finish d core order ordered pagination applied) := by
  unfold Paging.finish Pagination.demands
  generalize pagination.bind Pagination.limit = limit
  generalize pagination.bind Pagination.offset = offset
  dsimp only
  have hkept {f : Fragment} (h : ∀ v, offset = some v → ¬ Demand.cannotSkip d v) :
      Judges d (fun u => u ∈ offset.toList.map Demand.skip) (.ok f) := by
    refine ⟨fun _ _ u hu => ?_, fun _ he => nomatch he⟩
    obtain ⟨v, hv, rfl⟩ := List.mem_map.1 hu
    rw [Demand.check, if_neg (h v (Option.mem_toList.1 hv))]
  split
  · next hw =>
    refine hkept ?_
    rintro v rfl
    simp [Paging.isWhole] at hw
  · -- every style but `TOP` skips rows
    split
    · next hs => exact hkept fun v _ hskip => by simp [Demand.cannotSkip, hs] at hskip
    · next hs => exact hkept fun v _ hskip => by simp [Demand.cannotSkip, hs] at hskip
    · next hs => exact hkept fun v _ hskip => by simp [Demand.cannotSkip, hs] at hskip
    · next hs =>
      cases offset with
      | none =>
        have hnone {f : Fragment} := hkept (f := f) fun v hv => nomatch hv
        unfold Paging.top
        cases limit with
        | none => exact hnone
        | some w => cases applied <;> exact hnone
      | some v =>
        by_cases hv : (Number.int 0).lt v.toNumber = true
        · unfold Paging.top
          dsimp only
          rw [if_pos hv]
          have hcheck : (Demand.skip v).check d = .error _ := if_pos ⟨hs, hv⟩
          exact (error hcheck).iff fun u => by simp
        · have hsome {f : Fragment} := hkept (f := f) fun w hw hskip => by
            cases hw
            exact hv hskip.2
          unfold Paging.top
          dsimp only
          rw [if_neg hv]
          cases limit with
          | none => exact hsome
          | some w => cases applied <;> exact hsome

end Judges

namespace Phrase
open Sql
variable {d : Dialect}

theorem judges_exprs {es : List Expr} (h : ∀ e ∈ es, (expr e).Judged d) :
    Judges d (Among (es.map expr)) (exprs d es) := by
  induction es with
  | nil => exact (Judges.ok _).iff fun u => among_nil
  | cons e es ih =>
    obtain ⟨he, hes⟩ := List.forall_mem_cons.1 h
    rw [exprs, List.map_cons]
    exact (Judges.bind he fun f => (ih hes).map (f :: ·)).iff fun u => among_cons

theorem judges_itemList {es : List Expr} (h : ∀ e ∈ es, (expr e).Judged d) :
    Judges d (Among (es.map expr)) (itemList d es) := by
  induction es with
  | nil => exact (Judges.ok _).iff fun u => among_nil
  | cons e es ih =>
    obtain ⟨he, hes⟩ := List.forall_mem_cons.1 h
    rw [itemList, List.map_cons]
    exact (Judges.bind he fun f => (ih hes).map (selectItem d e f :: ·)).iff fun u => among_cons

theorem judges_optional {o : Option Expr} (h : ∀ e ∈ o.toList, (expr e).Judged d) :
    Judges d (Among (o.toList.map expr)) (optional d o) := by
  cases o with
  | none => exact (Judges.ok _).iff fun u => among_nil
  | some e =>
    have he := (h e (List.mem_singleton_self e)).map some
    rw [Sql.optional]
    exact he.iff fun u => by simp

theorem judges_terms {ts : List OrderTerm}
    (h : ∀ e ∈ ts.map OrderTerm.expression, (expr e).Judged d) :
    Judges d (Among ((ts.map OrderTerm.expression).map expr)) (terms d ts) := by
  induction ts with
  | nil => exact (Judges.ok _).iff fun u => among_nil
  | cons t ts ih =>
    obtain ⟨e, direction⟩ := t
    obtain ⟨he, hes⟩ := List.forall_mem_cons.1 h
    rw [terms]
    exact (Judges.bind he fun f => (ih hes).map _).iff fun u => among_cons

theorem judges_window {w : Window} (h : ∀ e ∈ w.expressions, (expr e).Judged d) :
    Judges d (Among (w.expressions.map expr)) (window d w) := by
  obtain ⟨partitionBy, orderBy, frame⟩ := w
  obtain ⟨hpartition, horder⟩ := List.forall_mem_append.1 h
  unfold window
  refine (Judges.bind (judges_exprs hpartition) fun _ => (judges_terms horder).map _).iff
    fun u => ?_
  rw [Window.expressions, List.map_append, among_append]

theorem judges_optionalWindow {o : Option Window}
    (h : ∀ e ∈ o.toList.flatMap Window.expressions, (expr e).Judged d) :
    Judges d (Among ((o.toList.flatMap Window.expressions).map expr)) (optionalWindow d o) := by
  cases o with
  | none => exact (Judges.ok _).iff fun u => among_nil
  | some w =>
    have hw : Option.toList (some w) = [w] := rfl
    rw [hw, List.flatMap_singleton] at h ⊢
    rw [optionalWindow]
    exact (judges_window h).map some

theorem judges_branches {bs : List Branch}
    (h : ∀ e ∈ bs.flatMap Branch.expressions, (expr e).Judged d) :
    Judges d (Among ((bs.flatMap Branch.expressions).map expr)) (branches d bs) := by
  induction bs with
  | nil => exact (Judges.ok _).iff fun u => among_nil
  | cons b bs ih =>
    obtain ⟨condition, result⟩ := b
    rw [List.flatMap_cons] at h ⊢
    obtain ⟨hb, hbs⟩ := List.forall_mem_append.1 h
    obtain ⟨hcondition, hrest⟩ := List.forall_mem_cons.1 hb
    have hresult := hrest result (List.mem_singleton_self result)
    rw [branches]
    refine (Judges.bind hcondition fun c => Judges.bind hresult fun r =>
      (ih hbs).map _).iff fun u => ?_
    simp [Branch.expressions]

/-- Sources stand for the queries that they are. -/
theorem judges_source {s : Source} (h : ∀ q ∈ s.query?, (query q).Judged d) :
    Judges d (Among (s.query?.toList.map query)) (source d s) := by
  cases s with
  | table name shown => exact (Judges.ok _).iff fun u => among_nil
  | query q shown =>
    have hq := (h q rfl).map fun f => aliased d f.enclosed shown
    rw [source]
    exact hq.iff fun u => by simp [Source.query?]

theorem judges_optionalSource {o : Option Source}
    (h : ∀ q ∈ o.toList.filterMap Source.query?, (query q).Judged d) :
    Judges d (Among ((o.toList.filterMap Source.query?).map query)) (optionalSource d o) := by
  cases o with
  | none => exact (Judges.ok _).iff fun u => among_nil
  | some s =>
    have hs : (Option.toList (some s)).filterMap Source.query? = s.query?.toList := by
      cases s <;> rfl
    rw [hs] at h ⊢
    rw [optionalSource]
    exact (judges_source fun q hq => h q (Option.mem_toList.2 hq)).map _

theorem judges_joins {js : List Join}
    (hq : ∀ q ∈ (js.map Join.target).filterMap Source.query?, (query q).Judged d)
    (he : ∀ e ∈ js.filterMap Join.on, (expr e).Judged d) :
    Judges d (fun u => u ∈ js.map Join.demand ∨
      Among (((js.map Join.target).filterMap Source.query?).map query) u ∨
        Among ((js.filterMap Join.on).map expr) u) (joins d js) := by
  induction js with
  | nil => exact (Judges.ok _).iff fun u => by simp
  | cons j js ih =>
    obtain ⟨kind, target, on, blank⟩ := j
    -- a join may have no query and no condition, so the lists of these are not told by its place
    have htargets : ((Join.mk kind target on blank :: js).map Join.target).filterMap Source.query? =
        target.query?.toList ++ (js.map Join.target).filterMap Source.query? := by
      cases target <;> rfl
    have hons : (Join.mk kind target on blank :: js).filterMap Join.on =
        on.toList ++ js.filterMap Join.on := by
      cases on <;> rfl
    rw [htargets] at hq ⊢
    rw [hons] at he ⊢
    obtain ⟨htarget, hq⟩ := List.forall_mem_append.1 hq
    obtain ⟨hon, he⟩ := List.forall_mem_append.1 he
    have hjoin := (Judges.require (d := d) .joinOperations kind.feature).bind fun _ =>
      (judges_source fun q hq => htarget q (Option.mem_toList.2 hq)).bind fun t =>
        (judges_optional hon).map fun o => Fragment.text (" " ++ kind.keyword ++ " JOIN ") ++ t ++
          optionalClause " ON" o
    rw [joins, join]
    refine (hjoin.bind fun f => (ih hq he).map (f ++ ·)).iff fun u => ?_
    simp only [List.map_cons, List.mem_cons, List.map_append, among_append, Join.demand]
    grind

theorem judges_cte {c : Cte} (h : (query c.query).Judged d) :
    Judges d (fun u => u ∈ c.demands ∨ (query c.query).Demands u) (cte d c) := by
  obtain ⟨name, body, columns, materialized, recursive⟩ := c
  have hbody (listed : Option (List String)) := h.map fun f =>
    Fragment.text (d.quoteIdentifier name ++ columnList d listed ++ " AS" ++
      materialization materialized ++ " ") ++ f.enclosed
  have hmaterialized {D : Demand → Prop} {x : Except Error Fragment} (hx : Judges d D x) :=
    (Judges.require .cte CteFeature.materialized).guard (c := materialized.isSome = true)
      (f := fun _ => x) fun _ => hx
  rw [cte]
  -- the columns are only asked for where none are given
  cases columns with
  | some cs =>
    refine (hmaterialized (hbody (some cs))).iff fun u => ?_
    cases hm : materialized.isSome <;> simp [Cte.demands, hm]
  | none =>
    cases recursive with
    | false =>
      refine (hmaterialized (hbody none)).iff fun u => ?_
      cases hm : materialized.isSome <;> simp [Cte.demands, hm]
    | true =>
      have hcolumns : Judges d (· = .columns name body) (requiredColumns d name true body) :=
        .of_check rfl
      refine (hmaterialized (hcolumns.bind hbody)).iff fun u => ?_
      cases hm : materialized.isSome <;> simp [Cte.demands, hm, or_assoc]

theorem judges_cteList {cs : List Cte} (h : ∀ q ∈ cs.map Cte.query, (query q).Judged d) :
    Judges d (fun u => u ∈ cs.flatMap Cte.demands ∨ Among ((cs.map Cte.query).map query) u)
      (cteList d cs) := by
  induction cs with
  | nil => exact (Judges.ok _).iff fun u => by simp
  | cons c cs ih =>
    obtain ⟨hc, hcs⟩ := List.forall_mem_cons.1 h
    rw [cteList]
    refine ((judges_cte hc).bind fun f => (ih hcs).map (f :: ·)).iff fun u => ?_
    simp only [List.flatMap_cons, List.mem_append, List.map_cons, among_cons]
    grind

theorem judged_iff {p : Phrase} {D : Demand → Prop} (h : Judges d D (p.render d))
    (hD : ∀ u, u ∈ p.demands ∨ Among p.written u ↔ D u) : p.Judged d :=
  h.iff fun u => demands_iff.trans (hD u)

theorem judged_expr (e : Expr) (h : ∀ c ∈ (expr e).inner, c.Judged d) : (expr e).Judged d := by
  have hexprs {es : List Expr} (hin : ∀ e' ∈ es, expr e' ∈ (expr e).inner) :
      ∀ e' ∈ es, (expr e').Judged d := fun e' he => h _ (hin e' he)
  cases e with
  | column table name shown => exact judged_iff (.ok _) fun u => by simp [demands, written, inner]
  | star table => exact judged_iff (.ok _) fun u => by simp [demands, written, inner]
  | literal value hint => exact judged_iff (.ok _) fun u => by simp [demands, written, inner]
  | binary op left right =>
    have hl := h (expr left) (by simp [inner])
    have hr := h (expr right) (by simp [inner])
    have hboth : Judges d _ (render d (expr (.binary op left right))) :=
      Judges.bind hl fun _ => Judges.map hr _
    exact judged_iff hboth fun u => by simp [demands, written, inner]
  | unary op e =>
    have he : Judges d _ (render d (expr (.unary op e))) := Judges.map (h (expr e) (by simp [inner])) _
    exact judged_iff he fun u => by simp [demands, written, inner]
  | inList e values negated =>
    cases values with
    | nil =>
      -- nothing of a test in no values is written
      exact judged_iff (.ok _) fun u => by simp [demands, written]
    | cons v vs =>
      have he := h (expr e) (by simp [inner])
      have hlist : ∀ x ∈ v :: vs, (expr x).Judged d := hexprs fun x hx => by
        rw [inner]
        exact List.mem_cons_of_mem _ (List.mem_map_of_mem hx)
      have hvs := judges_exprs hlist
      have hboth : Judges d _ (render d (expr (.inList e (v :: vs) negated))) :=
        Judges.bind he fun _ => Judges.map hvs _
      exact judged_iff hboth fun u => by simp [demands, written, inner]
  | inQuery e q negated =>
    have he := h (expr e) (by simp [inner])
    have hq := h (query q) (by simp [inner])
    have hboth : Judges d _ (render d (expr (.inQuery e q negated))) :=
      Judges.bind he fun _ => Judges.map hq _
    exact judged_iff hboth fun u => by simp [demands, written, inner]
  | call name arguments distinct windowed =>
    have hall := hexprs fun e he => List.mem_map_of_mem he
    obtain ⟨hargs, hwindow⟩ := List.forall_mem_append.1 hall
    have hcall : Judges d _ (render d (expr (.call name arguments distinct windowed))) :=
      (Judges.checkCall name windowed.isSome).bind fun _ =>
        (judges_exprs hargs).bind fun _ => (judges_optionalWindow hwindow).map _
    exact judged_iff hcall fun u => by simp [demands, written, inner]
  | window w =>
    have hw := judges_window (hexprs fun e he => List.mem_map_of_mem he)
    exact judged_iff (p := expr (.window w)) hw fun u => by simp [demands, written, inner]
  | subquery q =>
    have hq : Judges d _ (render d (expr (.subquery q))) := Judges.map (h (query q) (by simp [inner])) _
    exact judged_iff hq fun u => by simp [demands, written, inner]
  | cases branches otherwise =>
    have hall := hexprs fun e he => List.mem_map_of_mem he
    obtain ⟨hbranches, hotherwise⟩ := List.forall_mem_append.1 hall
    have hboth : Judges d _ (render d (expr (.cases branches otherwise))) :=
      (judges_branches hbranches).bind fun _ => (judges_optional hotherwise).map _
    exact judged_iff hboth fun u => by simp [demands, written, inner]
  | named e name =>
    have he : Judges d _ (render d (expr (.named e name))) := h (expr e) (by simp [inner])
    exact judged_iff he fun u => by simp [demands, written, inner]
  | raw sql parameters =>
    have hraw : Judges d (· = .places sql parameters) (render d (expr (.raw sql parameters))) :=
      .of_check rfl
    exact judged_iff hraw fun u => by simp [demands, written, inner]

theorem judged_query (q : Query) (h : ∀ c ∈ (query q).inner, c.Judged d) : (query q).Judged d := by
  cases q with
  | select p =>
    obtain ⟨hqueries, hexprs⟩ := List.forall_mem_append.1 h
    have hqueries : ∀ q ∈ p.queries, (query q).Judged d :=
      fun q hq => hqueries _ (List.mem_map_of_mem hq)
    have hexprs : ∀ e ∈ p.expressions, (expr e).Judged d :=
      fun e he => hexprs _ (List.mem_map_of_mem he)
    obtain ⟨items, source, joined, condition, groupBy, having, orderBy, pagination, distinct, ctes⟩ :=
      p
    simp only [SelectPlan.queries, SelectPlan.sources, List.filterMap_append,
      List.forall_mem_append] at hqueries
    simp only [SelectPlan.expressions, List.forall_mem_append] at hexprs
    obtain ⟨hctes, hsource, htargets⟩ := hqueries
    obtain ⟨⟨⟨⟨⟨hitems, hons⟩, hcondition⟩, hgroups⟩, hhaving⟩, horder⟩ := hexprs
    have hall : Judges d _ (render d (query (.select ⟨items, source, joined, condition, groupBy,
        having, orderBy, pagination, distinct, ctes⟩))) :=
      (Judges.requireCtes ctes).bind fun _ => (judges_cteList hctes).bind fun _ =>
        (judges_itemList hitems).bind fun _ => (judges_optionalSource hsource).bind fun _ =>
          (judges_joins htargets hons).bind fun _ => (judges_optional hcondition).bind fun _ =>
            (judges_exprs hgroups).bind fun _ => (judges_optional hhaving).bind fun _ =>
              (judges_terms horder).bind fun _ => (Judges.finish _ _ _ pagination _).map _
    -- the clauses are written in another order than their phrases are listed in
    refine judged_iff hall fun u => ?_
    simp only [demands, written, inner, Cte.allDemands, SelectPlan.queries, SelectPlan.sources,
      SelectPlan.expressions, List.mem_append, List.filterMap_append, List.map_append, among_append]
    grind
  | combined p =>
    obtain ⟨hqueries, hexprs⟩ := List.forall_mem_append.1 h
    have hqueries : ∀ q ∈ p.queries, (query q).Judged d :=
      fun q hq => hqueries _ (List.mem_map_of_mem hq)
    have hexprs : ∀ e ∈ p.expressions, (expr e).Judged d :=
      fun e he => hexprs _ (List.mem_map_of_mem he)
    obtain ⟨operator, all, left, right, orderBy, pagination, ctes⟩ := p
    obtain ⟨hctes, hoperands⟩ := List.forall_mem_append.1 hqueries
    obtain ⟨hleft, hright⟩ := List.forall_mem_cons.1 hoperands
    have hright := hright right (List.mem_singleton_self right)
    have hall : Judges d _ (render d (query (.combined ⟨operator, all, left, right, orderBy,
        pagination, ctes⟩))) :=
      (Judges.requireCtes ctes).bind fun _ => (judges_cteList hctes).bind fun _ =>
        (Judges.require .setOperations (operator.feature all)).bind fun _ =>
          Judges.bind hleft fun _ => Judges.bind hright fun _ => (judges_terms hexprs).bind fun _ =>
            (Judges.finish _ _ _ pagination _).map _
    refine judged_iff hall fun u => ?_
    simp only [demands, written, inner, Cte.allDemands, SetPlan.queries, SetPlan.expressions,
      List.mem_append, List.mem_cons, List.map_append, List.map_cons, List.map_nil, among_append,
      among_cons, among_nil, or_false]
    grind

/-- Every phrase is written exactly when all demands in it are met. -/
theorem judged (p : Phrase) : p.Judged d := by
  refine p.induct fun p h => ?_
  cases p with
  | expr e => exact judged_expr e h
  | query q => exact judged_query q h

end Phrase

namespace Sql
open Phrase
variable {d : Dialect}

theorem judges_requireReturned (e : Expr) :
    Judges d (fun u => u ∈ Demand.ofReturned e) (requireReturned d e) := by
  have hexpressions := Judges.require (d := d) .returningClause ReturningFeature.expressions
  cases e with
  | column table name shown => exact (Judges.ok ()).iff fun u => by simp [Demand.ofReturned]
  | star table => exact (Judges.ok ()).iff fun u => by simp [Demand.ofReturned]
  | named e name =>
    have haliases := Judges.require (d := d) .returningClause ReturningFeature.aliases
    have hboth : Judges d _ (requireReturned d (.named e name)) :=
      haliases.bind fun _ => hexpressions.onlyIf (c := !isColumn e)
    refine hboth.iff fun u => ?_
    cases he : isColumn e <;> simp [Demand.ofReturned, he]
  | _ => exact hexpressions.iff fun u => by simp [Demand.ofReturned]

theorem judges_requireAllReturned (es : List Expr) :
    Judges d (fun u => u ∈ es.flatMap Demand.ofReturned) (requireAllReturned d es) := by
  induction es with
  | nil => exact (Judges.ok ()).iff fun u => by simp
  | cons e es ih =>
    exact ((judges_requireReturned e).bind fun _ => ih).iff fun u => by simp

theorem judges_returning (items : List Expr) :
    Judges d (fun u => u ∈ Demand.ofReturning items ∨ Among (items.map .expr) u)
      (returning d items) := by
  cases items with
  | nil => exact (Judges.ok _).iff fun u => by simp [Demand.ofReturning]
  | cons e es =>
    have hall : Judges d _ (returning d (e :: es)) :=
      (Judges.require .returningClause ReturningFeature.basic).bind fun _ =>
        (judges_requireAllReturned (e :: es)).bind fun _ =>
          (judges_itemList fun e _ => judged (.expr e)).map _
    exact hall.iff fun u => by simp [Demand.ofReturning, or_assoc]

theorem judges_rowList (rows : List (List Expr)) :
    Judges d (Among (rows.flatten.map .expr)) (rowList d rows) := by
  induction rows with
  | nil => exact (Judges.ok _).iff fun u => by simp
  | cons row rows ih =>
    have hboth : Judges d _ (rowList d (row :: rows)) :=
      (judges_exprs fun e _ => judged (.expr e)).bind fun _ => ih.map _
    exact hboth.iff fun u => by simp

theorem judges_assignments (as : List Assignment) :
    Judges d (Among ((as.map Assignment.value).map .expr)) (assignments d as) := by
  induction as with
  | nil => exact (Judges.ok _).iff fun u => by simp
  | cons a as ih =>
    have hboth : Judges d _ (assignments d (a :: as)) :=
      Judges.bind (judged (.expr a.value)) fun _ => ih.map _
    exact hboth.iff fun u => by simp

/-- A statement is written exactly when all its demands are met, and it is refused as one of them is. -/
theorem judges_statement (s : Statement) : Judges d s.Demands (statement d s) := by
  have hoptional (o : Option Expr) := judges_optional (d := d) (o := o) fun e _ => judged (.expr e)
  cases s with
  | query q =>
    refine (judged (d := d) (.query q)).iff fun u => ?_
    simp [Statement.demands_iff, Statement.demands, Statement.phrases]
  | insert p =>
    have hrest : Judges d _ (do
        let rows ← rowList d p.rows
        let returned ← returning d p.returning
        return Fragment.text ("INSERT INTO " ++ d.quoteQualified p.table ++ " (" ++
          ", ".intercalate (p.columns.map d.quoteIdentifier) ++ ") VALUES ") ++
          Fragment.join ", " rows ++ returned) :=
      (judges_rowList p.rows).bind fun _ => (judges_returning p.returning).map _
    -- only an insertion asks for something itself, and only with several rows
    have hall : Judges d _ (statement d (.insert p)) :=
      (Judges.require .bulkOperations BulkFeature.multiRowInsert).guard
        (c := 1 < p.rows.length) fun _ => hrest
    refine hall.iff fun u => ?_
    by_cases hrows : 1 < p.rows.length <;>
      simp [Statement.demands_iff, Statement.demands, Statement.phrases, hrows] <;> grind
  | update p =>
    have hall : Judges d _ (statement d (.update p)) :=
      (judges_assignments p.assignments).bind fun _ => (hoptional p.condition).bind fun _ =>
        (judges_returning p.returning).map _
    refine hall.iff fun u => ?_
    simp only [Statement.demands_iff, Statement.demands, Statement.phrases, List.map_append,
      among_append]
    grind
  | delete p =>
    have hall : Judges d _ (statement d (.delete p)) :=
      (hoptional p.condition).bind fun _ => (judges_returning p.returning).map _
    refine hall.iff fun u => ?_
    simp only [Statement.demands_iff, Statement.demands, Statement.phrases, List.map_append,
      among_append]
    grind

end Sql

end PolyQuery
