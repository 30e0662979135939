import PolyQuery.Proofs.Brackets
import PolyQuery.Proofs.Spot

/-! How brackets that are lost in a part of a statement are lost in the statement. Two runs over a
list, a membership test, a selection, a combination or a list of results that differ in one part
differ by what that part has lost; so a statement is written alike around a part of it. -/
namespace PolyQuery

namespace Paging
open Fragment
variable {m k : Nat} {core core' order order' : Fragment}

theorem limitOffset_loses (hcore : Loses m core core') (horder : Loses k order order') (d : Dialect)
    (limit offset : Option Value) : Loses (m + k) (limitOffset d core order limit offset)
      (limitOffset d core' order' limit offset) :=
  ((hcore.append horder).before _).before _

theorem offsetFetch_loses (hcore : Loses m core core') (horder : Loses k order order')
    (d : Dialect) {ordered : Bool} (hordered : ordered = false → k = 0)
    (limit offset : Option Value) : Loses (m + k) (offsetFetch d core order ordered limit offset)
      (offsetFetch d core' order' ordered limit offset) := by
  have hordering : Loses k
      (if !ordered && d.offsetNeedsOrder then Fragment.text " ORDER BY (SELECT NULL)" else order)
      (if !ordered && d.offsetNeedsOrder then Fragment.text " ORDER BY (SELECT NULL)"
        else order') := by
    cases ordered with
    | true => exact horder
    | false =>
      cases d.offsetNeedsOrder with
      | true => exact (Loses.refl _).cast (hordered rfl).symm
      | false => exact horder
  exact ((hcore.append hordering).before _).before _

theorem rownum_loses (hcore : Loses m core core') (horder : Loses k order order')
    (limit offset : Option Value) :
    Loses (m + k) (rownum core order limit offset) (rownum core' order' limit offset) := by
  have hinner := hcore.append horder
  cases limit with
  | none => exact (hinner.after _).before _
  | some v =>
    unfold rownum
    dsimp only
    split
    · exact (hinner.after _).before _
    · exact (hinner.after _).before _

theorem top_loses (hcore : Loses m core core') (horder : Loses k order order') (d : Dialect)
    (limit offset : Option Value) (applied : Bool) :
    Related (Loses (m + k)) (top d core order limit offset applied)
      (top d core' order' limit offset applied) := by
  have hunless {x y : Except Error Fragment} (h : Related (Loses (m + k)) x y) (c : Prop)
      [Decidable c] (e : Error) :
      Related (Loses (m + k)) (if c then .error e else x) (if c then .error e else y) := by
    split
    · exact rfl
    · exact h
  unfold top
  dsimp only
  -- a query with an offset fails alike, whatever its text
  refine hunless ?_ _ _
  cases limit with
  | none => exact hcore.append horder
  | some v =>
    cases applied with
    | true => exact hcore.append horder
    | false => exact ((hcore.after _).before _).append horder

/-- A page is put around a query whatever brackets stand in it. -/
theorem finish_loses (hcore : Loses m core core') (horder : Loses k order order') (d : Dialect)
    {ordered : Bool} (hordered : ordered = false → k = 0) (pagination : Option Pagination)
    (applied : Bool) : Related (Loses (m + k)) (finish d core order ordered pagination applied)
      (finish d core' order' ordered pagination applied) := by
  unfold finish
  dsimp only
  split
  · exact hcore.append horder
  · cases d.paginationStyle with
    | limitOffset => exact limitOffset_loses hcore horder d _ _
    | offsetFetch => exact offsetFetch_loses hcore horder d hordered _ _
    | rownum => exact rownum_loses hcore horder _ _
    | top => exact top_loses hcore horder d _ _ applied

end Paging

namespace Sql
open Fragment
variable {d : Dialect} {m : Nat}

/-! ### Lists with one changed member -/

/-- A run over a list that makes one fragment of each member, in order. -/
def ListRun {α : Type} (step : α → Except Error Fragment)
    (run : List α → Except Error (List Fragment)) : Prop :=
  ∀ a as, run (a :: as) = (do
    let f ← step a
    let fs ← run as
    return f :: fs)

theorem ListRun.at_place {α : Type} {step : α → Except Error Fragment}
    {run : List α → Except Error (List Fragment)} (hrun : ListRun step run) {a b : α}
    (h : Related (Loses m) (step a) (step b)) (before after : List α) :
    Related (Changed m before.length) (run (before ++ a :: after))
      (run (before ++ b :: after)) := by
  induction before with
  | nil =>
    rw [List.nil_append, List.nil_append, hrun, hrun]
    refine h.bind fun f g hfg => Related.same fun fs => ?_
    exact Changed.here hfg fs
  | cons c cs ih =>
    rw [List.cons_append, List.cons_append, hrun, hrun]
    refine Related.same fun f => ih.bind fun fs gs hfs => ?_
    exact Changed.there f hfs

theorem exprs_at {e e' : Expr} (h : Related (Loses m) (expr d e) (expr d e'))
    (before after : List Expr) : Related (Changed m before.length)
      (exprs d (before ++ e :: after)) (exprs d (before ++ e' :: after)) := by
  have hrun : ListRun (expr d) (exprs d) := fun e es => by rw [exprs]
  exact hrun.at_place h before after

theorem itemList_at {e e' : Expr} (h : Related (Loses m) (expr d e) (expr d e'))
    (halias : itemAlias e = itemAlias e') (before after : List Expr) :
    Related (Changed m before.length) (itemList d (before ++ e :: after))
      (itemList d (before ++ e' :: after)) := by
  have hrun : ListRun (fun e => do
      let f ← expr d e
      return selectItem d e f) (itemList d) := by
    intro e es
    rw [itemList, bind_assoc]
    rfl
  refine hrun.at_place (h.bind fun f g hfg => ?_) before after
  change Loses m (selectItem d e f) (selectItem d e' g)
  rw [selectItem, selectItem, halias]
  split
  · exact hfg.before _
  · exact hfg

theorem terms_at {e e' : Expr} (h : Related (Loses m) (expr d e) (expr d e'))
    (direction : SortDirection) (before after : List OrderTerm) :
    Related (Changed m before.length) (terms d (before ++ ⟨e, direction⟩ :: after))
      (terms d (before ++ ⟨e', direction⟩ :: after)) := by
  have hrun : ListRun (fun t => do
      let f ← expr d t.expression
      return f ++ Fragment.text (" " ++ t.direction.keyword)) (terms d) := by
    intro t ts
    cases t
    rw [terms, bind_assoc]
    rfl
  have hterm : Related (Loses m)
      (do
        let f ← expr d e
        return f ++ Fragment.text (" " ++ direction.keyword))
      (do
        let f ← expr d e'
        return f ++ Fragment.text (" " ++ direction.keyword)) :=
    h.bind fun f g hfg => hfg.before _
  exact hrun.at_place (a := ⟨e, direction⟩) (b := ⟨e', direction⟩) hterm before after

theorem cteList_at {c c' : Cte} (h : Related (Loses m) (cte d c) (cte d c'))
    (before after : List Cte) : Related (Changed m before.length)
      (cteList d (before ++ c :: after)) (cteList d (before ++ c' :: after)) := by
  have hrun : ListRun (cte d) (cteList d) := fun c cs => by rw [cteList]
  exact hrun.at_place h before after

theorem rowList_at {r r' : List Expr} {place : Nat}
    (h : Related (Changed m place) (exprs d r) (exprs d r')) (before after : List (List Expr)) :
    Related (Changed m before.length) (rowList d (before ++ r :: after))
      (rowList d (before ++ r' :: after)) := by
  have hrun : ListRun (fun row => do
      let fs ← exprs d row
      return (Fragment.join ", " fs).enclosed) (rowList d) := by
    intro row rows
    rw [rowList, bind_assoc]
    rfl
  exact hrun.at_place (h.bind fun fs gs hfs => (hfs.join ", ").enclosed) before after

theorem assignments_at {e e' : Expr} (h : Related (Loses m) (expr d e) (expr d e'))
    (column : String) (before after : List Assignment) :
    Related (Changed m before.length) (assignments d (before ++ ⟨column, e⟩ :: after))
      (assignments d (before ++ ⟨column, e'⟩ :: after)) := by
  have hrun : ListRun (fun a => do
      let f ← expr d a.value
      return Fragment.text (d.quoteIdentifier a.column ++ " = ") ++ f) (assignments d) := by
    intro a as
    rw [assignments, bind_assoc]
    rfl
  have hassigned : Related (Loses m)
      (do
        let f ← expr d e
        return Fragment.text (d.quoteIdentifier column ++ " = ") ++ f)
      (do
        let f ← expr d e'
        return Fragment.text (d.quoteIdentifier column ++ " = ") ++ f) :=
    h.bind fun f g hfg => hfg.after _
  exact hrun.at_place (a := ⟨column, e⟩) (b := ⟨column, e'⟩) hassigned before after

/-- Two optional expressions of which a clause with the second one has lost brackets. -/
def ClauseLoses (m : Nat) (keyword : String) (x y : Option Fragment) : Prop :=
  Loses m (optionalClause keyword x) (optionalClause keyword y)

theorem optional_at {e e' : Expr} (h : Related (Loses m) (expr d e) (expr d e')) (keyword : String) :
    Related (ClauseLoses m keyword) (optional d (some e)) (optional d (some e')) := by
  rw [optional, optional]
  exact h.bind fun f g hfg => hfg.clause keyword

theorem ClauseLoses.unchanged (keyword : String) (x : Except Error (Option Fragment)) :
    Related (ClauseLoses 0 keyword) x x := by
  apply Related.refl
  intro o
  exact Loses.refl _

theorem branches_at {c c' r r' : Expr} {k : Nat} (hc : Related (Loses m) (expr d c) (expr d c'))
    (hr : Related (Loses k) (expr d r) (expr d r')) (before after : List Branch) :
    Related (Loses (m + k)) (branches d (before ++ ⟨c, r⟩ :: after))
      (branches d (before ++ ⟨c', r'⟩ :: after)) := by
  induction before with
  | nil =>
    rw [List.nil_append, List.nil_append, branches, branches]
    refine hc.bind fun f g hfg => hr.bind fun f' g' hfg' => Related.same fun fs => ?_
    exact ((hfg.clause _).append (hfg'.clause _)).before fs
  | cons b bs ih =>
    cases b
    rw [List.cons_append, List.cons_append, branches, branches]
    refine Related.same fun f => Related.same fun f' => ih.bind fun fs gs hfs => ?_
    exact hfs.after _

theorem joins_at {j j' : Join} (h : Related (Loses m) (join d j) (join d j'))
    (before after : List Join) : Related (Loses m) (joins d (before ++ j :: after))
      (joins d (before ++ j' :: after)) := by
  induction before with
  | nil =>
    rw [List.nil_append, List.nil_append, joins, joins]
    refine h.bind fun f g hfg => Related.same fun fs => ?_
    exact hfg.before fs
  | cons b bs ih =>
    rw [List.cons_append, List.cons_append, joins, joins]
    refine Related.same fun f => ih.bind fun fs gs hfs => ?_
    exact hfs.after f

/-! ### Membership tests -/

theorem join_tests {t u : Fragment} (h : Loses m t u) (separator : String)
    (rests : List Fragment) : Loses (m * rests.length)
      (Fragment.join separator (rests.map (t ++ ·))) (Fragment.join separator (rests.map (u ++ ·))) := by
  induction rests with
  | nil => exact .refl _
  | cons r rs ih =>
    cases rs with
    | nil => exact (h.before r).cast (by simp)
    | cons e es =>
      rw [List.map_cons, List.map_cons, List.map_cons, List.map_cons, join_cons_cons, join_cons_cons]
      refine (((h.before r).before _).append ih).cast ?_
      have hlength : (r :: e :: es).length = (e :: es).length + 1 := rfl
      rw [hlength, Nat.mul_succ, Nat.add_comm]

/-- The lists of a membership test without the operand before them. -/
def memberLists (d : Dialect) (negated : Bool) (values : List Fragment) : List Fragment :=
  (chunks (d.maxInList.getD values.length) values.length values).map fun part =>
    Fragment.text (" " ++ membershipKeyword negated ++ " (") ++ Fragment.join ", " part ++
      Fragment.text ")"

/-- Several tests between brackets, one test as it is. -/
def joinTests (negated : Bool) (tests : List Fragment) : Fragment :=
  match tests with
  | [t] => t
  | ts => (Fragment.join (if negated then " AND " else " OR ") ts).enclosed

theorem membership_eq (negated : Bool) (test : Fragment) (values : List Fragment) :
    membership d negated test values =
      joinTests negated ((memberLists d negated values).map (test ++ ·)) := by
  rw [memberLists, List.map_map]
  have hparts : ((test ++ ·) ∘ fun part : List Fragment =>
      Fragment.text (" " ++ membershipKeyword negated ++ " (") ++ Fragment.join ", " part ++
        Fragment.text ")") = fun part => test ++
      Fragment.text (" " ++ membershipKeyword negated ++ " (") ++ Fragment.join ", " part ++
        Fragment.text ")" := by
    funext part
    simp only [Function.comp, append_assoc]
  rw [hparts]
  rfl

theorem length_memberLists (negated : Bool) {es : List Expr} {fs : List Fragment}
    (h : fs.length = es.length) : (memberLists d negated fs).length = listCount d es := by
  have hunits : fs.map (fun _ => ()) = es.map fun _ => () := by
    rw [List.map_const', List.map_const', h]
  have hpieces := congrArg List.length
    (congrArg (chunks (d.maxInList.getD es.length) es.length) hunits)
  rw [chunks_map, chunks_map, List.length_map, List.length_map] at hpieces
  rw [memberLists, List.length_map, listCount, h, hpieces]

/-- The operand is written before each list. -/
theorem membership_test {t u : Fragment} (h : Loses m t u) (negated : Bool) {es : List Expr}
    {fs : List Fragment} (hlength : fs.length = es.length) :
    Loses (m * listCount d es) (membership d negated t fs) (membership d negated u fs) := by
  rw [membership_eq, membership_eq, ← length_memberLists (d := d) negated hlength]
  generalize memberLists d negated fs = rests
  match rests with
  | [] => exact .refl _
  | [r] => exact (h.before r).cast (by simp)
  | r :: e :: es => exact (join_tests h _ (r :: e :: es)).enclosed

/-- A value stands in one of the lists. -/
theorem membership_value {place : Nat} {fs gs : List Fragment} (h : Changed m place fs gs)
    (negated : Bool) (test : Fragment) :
    Loses m (membership d negated test fs) (membership d negated test gs) := by
  have hsize : 0 < d.maxInList.getD fs.length := by
    have hpositive : 0 < fs.length := List.length_pos_iff.2 h.ne_nil.1
    unfold Dialect.maxInList
    split
    · exact Nat.zero_lt_succ 999
    · exact hpositive
  have htext {place : Nat} {as bs : List Fragment} (hab : Changed m place as bs) :
      Loses m (test ++ Fragment.text (" " ++ membershipKeyword negated ++ " (") ++
        Fragment.join ", " as ++ Fragment.text ")")
        (test ++ Fragment.text (" " ++ membershipKeyword negated ++ " (") ++
        Fragment.join ", " bs ++ Fragment.text ")") :=
    ((hab.join ", ").after _).before _
  obtain ⟨piece, hpiece⟩ := Changed.map_chunks hsize htext h (Nat.le_refl _)
  -- one test stands alone and several in brackets, on both sides alike
  have hjoined : ∀ {place ts us}, Changed m place ts us →
      Loses m (joinTests negated ts) (joinTests negated us) := by
    intro place ts us hts
    cases hts with
    | here hfg fs =>
      cases fs with
      | nil => exact hfg
      | cons e es => exact ((Changed.here hfg (e :: es)).join _).enclosed
    | there f hrest =>
      have hall := ((Changed.there f hrest).join (if negated then " AND " else " OR ")).enclosed
      obtain ⟨has, hbs⟩ := hrest.ne_nil
      obtain ⟨a, as, rfl⟩ := List.exists_cons_of_ne_nil has
      obtain ⟨b, bs, rfl⟩ := List.exists_cons_of_ne_nil hbs
      exact hall
  have hall := hjoined hpiece
  rw [membership, membership, h.length]
  exact hall

/-! ### Queries with one changed part -/

theorem source_query {q q' : Query} (h : Related (Loses m) (query d q) (query d q'))
    (shown : String) : Related (Loses m) (source d (.query q shown)) (source d (.query q' shown)) := by
  rw [source, source]
  exact h.bind fun f g hfg => hfg.enclosed.aliased d shown

theorem optionalSource_query {q q' : Query} (h : Related (Loses m) (query d q) (query d q'))
    (shown : String) : Related (Loses m) (optionalSource d (some (.query q shown)))
      (optionalSource d (some (.query q' shown))) := by
  rw [optionalSource, optionalSource]
  exact (source_query h shown).bind fun f g hfg => hfg.clause " FROM"

theorem join_related {s s' : Source} {on on' : Option Expr} {k : Nat}
    (hs : Related (Loses m) (source d s) (source d s'))
    (hon : Related (ClauseLoses k " ON") (optional d on) (optional d on')) (kind : JoinKind)
    (blank : Bool) :
    Related (Loses (m + k)) (join d ⟨kind, s, on, blank⟩) (join d ⟨kind, s', on', blank⟩) := by
  rw [join, join]
  refine Related.same fun _ => hs.bind fun f g hfg => hon.bind fun x y hxy => ?_
  exact (hfg.after _).append hxy

theorem cte_related {q q' : Query} (h : Related (Loses m) (query d q) (query d q'))
    (halike : q.Alike q') (name : String) (columns : Option (List String))
    (materialized : Option Bool) (recursive : Bool) :
    Related (Loses m) (cte d ⟨name, q, columns, materialized, recursive⟩)
      (cte d ⟨name, q', columns, materialized, recursive⟩) := by
  have hcolumns : requiredColumns d name recursive q = requiredColumns d name recursive q' := by
    rw [requiredColumns, requiredColumns, halike.names]
  -- whatever columns are listed, the body is the only place that differs
  have hrest (listed : Option (List String)) : Related (Loses m)
      (do
        let f ← query d q
        return Fragment.text (d.quoteIdentifier name ++ columnList d listed ++ " AS" ++
          materialization materialized ++ " ") ++ f.enclosed)
      (do
        let f ← query d q'
        return Fragment.text (d.quoteIdentifier name ++ columnList d listed ++ " AS" ++
          materialization materialized ++ " ") ++ f.enclosed) :=
    h.bind fun f g hfg => hfg.enclosed.after _
  rw [cte, cte, hcolumns]
  cases materialized with
  | none =>
    cases columns with
    | none => exact Related.same hrest
    | some cs => exact hrest (some cs)
  | some wanted =>
    refine Related.same fun _ => ?_
    cases columns with
    | none => exact Related.same hrest
    | some cs => exact hrest (some cs)

/-- The list of results of a selection. -/
def itemsText (items : List Expr) (fs : List Fragment) : Fragment :=
  if items.isEmpty then Fragment.text "*" else Fragment.join ", " fs

theorem itemsUnchanged (items : List Expr) (x : Except Error (List Fragment)) :
    Related (fun fs gs => Loses 0 (itemsText items fs) (itemsText items gs)) x x := by
  apply Related.refl
  intro fs
  exact Loses.refl _

theorem items_at {place : Nat} {x y : Except Error (List Fragment)}
    (h : Related (Changed m place) x y) (before : List Expr) (e : Expr) (after : List Expr) :
    Related (fun fs gs => Loses m (itemsText (before ++ e :: after) fs)
      (itemsText (before ++ e :: after) gs)) x y := by
  have hlist : (before ++ e :: after).isEmpty = false := by
    cases before <;> rfl
  refine h.mono fun fs gs hfs => ?_
  rw [itemsText, itemsText, hlist]
  exact hfs.join ", "

section
variable (q q' : Query) (name : String) (columns : Option (List String)) (materialized : Option Bool)
  (recursive : Bool) (before after : List Cte)

theorem anyRecursive_at :
    (before ++ ⟨name, q, columns, materialized, recursive⟩ :: after).any Cte.recursive =
      (before ++ ⟨name, q', columns, materialized, recursive⟩ :: after).any Cte.recursive := by
  rw [List.any_append, List.any_append, List.any_cons, List.any_cons]

theorem requireCtes_at (d : Dialect) :
    requireCtes d (before ++ ⟨name, q, columns, materialized, recursive⟩ :: after) =
      requireCtes d (before ++ ⟨name, q', columns, materialized, recursive⟩ :: after) := by
  rw [requireCtes, requireCtes, anyRecursive_at q q', Plan.isEmpty_at _ ⟨name, q', _, _, _⟩]

end

/-- Two selections that are written alike but for the pairs of brackets that each of their parts has
lost. -/
structure SelectLoses (d : Dialect) (p p' : SelectPlan) (mw mi ms mj mc mg mh mo : Nat) : Prop where
  ctes : Related (JoinLoses mw) (cteList d p.ctes) (cteList d p'.ctes)
  items : Related (fun fs gs => Loses mi (itemsText p.items fs) (itemsText p.items gs))
    (itemList d p.items) (itemList d p'.items)
  source : Related (Loses ms) (optionalSource d p.source) (optionalSource d p'.source)
  joins : Related (Loses mj) (joins d p.joins) (joins d p'.joins)
  condition : Related (ClauseLoses mc " WHERE") (optional d p.condition) (optional d p'.condition)
  groups : Related (JoinLoses mg) (exprs d p.groupBy) (exprs d p'.groupBy)
  having : Related (ClauseLoses mh " HAVING") (optional d p.having) (optional d p'.having)
  orders : Related (JoinLoses mo) (terms d p.orderBy) (terms d p'.orderBy)
  required : requireCtes d p'.ctes = requireCtes d p.ctes
  recursive : p'.ctes.any Cte.recursive = p.ctes.any Cte.recursive
  listed : p'.items.isEmpty = p.items.isEmpty
  ordered : p'.orderBy.isEmpty = p.orderBy.isEmpty
  unordered : p.orderBy.isEmpty = true → mo = 0
  pages : p'.pagination = p.pagination
  distinct : p'.distinct = p.distinct

theorem SelectLoses.unchanged (p : SelectPlan) : SelectLoses d p p 0 0 0 0 0 0 0 0 :=
  ⟨JoinLoses.unchanged _, itemsUnchanged _ _, Loses.unchanged _, Loses.unchanged _,
    ClauseLoses.unchanged _ _, JoinLoses.unchanged _, ClauseLoses.unchanged _ _,
    JoinLoses.unchanged _, rfl, rfl, rfl, rfl, fun _ => rfl, rfl, rfl⟩

/-- Brackets that are lost in the parts of a selection are lost in the selection. -/
theorem SelectLoses.query {p p' : SelectPlan} {mw mi ms mj mc mg mh mo : Nat}
    (h : SelectLoses d p p' mw mi ms mj mc mg mh mo)
    (hm : mw + (mi + ms + mj + mc + mg + mh + mo) = m) :
    Related (Loses m) (Sql.query d (.select p)) (Sql.query d (.select p')) := by
  obtain ⟨hctes, hitems, hsource, hjoins, hcondition, hgroups, hhaving, horders, hrequired,
    hrecursive, hlisted, hordered, hzero, hpages, hdistinct⟩ := h
  cases p with
  | mk items source joined condition groupBy having orderBy pagination distinct ctes =>
  cases p' with
  | mk items' source' joined' condition' groupBy' having' orderBy' pagination' distinct' ctes' =>
  dsimp only at *
  rw [Sql.query, Sql.query, select, select, hrequired, hrecursive, hlisted, hordered, hpages,
    hdistinct, ← hm]
  -- clause by clause, and what each one loses is added up
  refine Related.same fun _ => hctes.bind fun ws ws' hw => ?_
  refine hitems.bind fun is is' hi => hsource.bind fun s s' hs => hjoins.bind fun j j' hj => ?_
  refine hcondition.bind fun c c' hc => hgroups.bind fun gs gs' hg => ?_
  refine hhaving.bind fun h h' hh => horders.bind fun os os' ho => ?_
  have hcore := (((((hi.after (Fragment.text (selectHead distinct (topLimit d pagination)))).append
    hs).append hj).append hc).append (hg.listClause " GROUP BY")).append hh
  have hplain : (!orderBy.isEmpty) = false → mo = 0 := by
    intro h
    exact hzero (by simpa using h)
  refine (Paging.finish_loses hcore (ho.listClause " ORDER BY") d hplain pagination _).bind
    fun body body' hbody => ?_
  exact hw.withClause d _ hbody

/-- Two combinations that are written alike but for the pairs of brackets that each of their parts has
lost. -/
structure SetLoses (d : Dialect) (p p' : SetPlan) (mw ml mr mo : Nat) : Prop where
  ctes : Related (JoinLoses mw) (cteList d p.ctes) (cteList d p'.ctes)
  left : Related (Loses ml) (query d p.left) (query d p'.left)
  right : Related (Loses mr) (query d p.right) (query d p'.right)
  orders : Related (JoinLoses mo) (terms d p.orderBy) (terms d p'.orderBy)
  required : requireCtes d p'.ctes = requireCtes d p.ctes
  recursive : p'.ctes.any Cte.recursive = p.ctes.any Cte.recursive
  leftOperand : ∀ f, setOperand d .left p'.left f = setOperand d .left p.left f
  rightOperand : ∀ f, setOperand d .right p'.right f = setOperand d .right p.right f
  ordered : p'.orderBy.isEmpty = p.orderBy.isEmpty
  unordered : p.orderBy.isEmpty = true → mo = 0
  pages : p'.pagination = p.pagination
  operator : p'.operator = p.operator
  all : p'.all = p.all

theorem SetLoses.unchanged (p : SetPlan) : SetLoses d p p 0 0 0 0 :=
  ⟨JoinLoses.unchanged _, Loses.unchanged _, Loses.unchanged _, JoinLoses.unchanged _, rfl, rfl,
    fun _ => rfl, fun _ => rfl, rfl, fun _ => rfl, rfl, rfl, rfl⟩

/-- Brackets that are lost in the operands and the ordering of a combination are lost in it. -/
theorem SetLoses.query {p p' : SetPlan} {mw ml mr mo : Nat} (h : SetLoses d p p' mw ml mr mo)
    (hm : mw + (ml + mr + mo) = m) :
    Related (Loses m) (Sql.query d (.combined p)) (Sql.query d (.combined p')) := by
  obtain ⟨hctes, hleft, hright, horders, hrequired, hrecursive, hl, hr, hordered, hzero, hpages,
    hoperator, hall⟩ := h
  cases p with
  | mk operator all left right orderBy pagination ctes =>
  cases p' with
  | mk operator' all' left' right' orderBy' pagination' ctes' =>
  dsimp only at *
  -- whether an operand is enclosed does not depend on what was lost in it
  have hside {m : Nat} {f g : Fragment} (side : Side) (q : Query) (h : Loses m f g) :
      Loses m (setOperand d side q f) (setOperand d side q g) := by
    exact h.enclosed.ite ((h.enclosed.after _).ite h)
  rw [Sql.query, Sql.query, combined, combined, hrequired, hrecursive, hordered, hpages, hoperator,
    hall, ← hm]
  refine Related.same fun _ => hctes.bind fun ws ws' hw => Related.same fun _ => ?_
  refine hleft.bind fun l l' hll => hright.bind fun r r' hrr => horders.bind fun os os' ho => ?_
  rw [hl, hr]
  have hcore := ((hside .left left hll).before (Fragment.text (" " ++
    d.setOperatorKeyword operator.keyword ++ (if all then " ALL " else " ")))).append
    (hside .right right hrr)
  have hplain : (!orderBy.isEmpty) = false → mo = 0 := by
    intro h
    exact hzero (by simpa using h)
  refine (Paging.finish_loses hcore (ho.listClause " ORDER BY") d hplain pagination _).bind
    fun body body' hbody => ?_
  exact hw.withClause d _ hbody

/-! ### Expressions with one changed operand -/

/-- An expression with the brackets that it gets at a place. -/
def dressed (d : Dialect) (s : Standing) (e : Expr) : Except Error Fragment := do
  let f ← expr d e
  return s.dress e f

/-- A unary operator beside its operand, which has its brackets already. -/
def besideOperand (op : UnaryOp) (f : Fragment) : Fragment :=
  match op with
  | .not => Fragment.text "NOT " ++ f
  | .neg => Fragment.text "-" ++ f
  | .isNull => f ++ Fragment.text " IS NULL"
  | .isNotNull => f ++ Fragment.text " IS NOT NULL"
  | .exists_ => Fragment.text "EXISTS " ++ f
  | .notExists => Fragment.text "NOT EXISTS " ++ f

theorem besideOperand_loses {f g : Fragment} (h : Loses m f g) (op : UnaryOp) :
    Loses m (besideOperand op f) (besideOperand op g) := by
  cases op with
  | isNull => exact h.before _
  | isNotNull => exact h.before _
  | _ => exact h.after _

theorem expr_binary (op : BinaryOp) (left right : Expr) : expr d (.binary op left right) = (do
    let l ← dressed d (.operand op .left) left
    let r ← dressed d (.operand op .right) right
    return l ++ Fragment.text (" " ++ op.symbol ++ " ") ++ r) := by
  simp only [expr, dressed, bind_assoc, pure_bind, operand_eq]

theorem expr_unary (op : UnaryOp) (e : Expr) : expr d (.unary op e) = (do
    let f ← dressed d op.standing e
    return besideOperand op f) := by
  have hunary (f : Fragment) : unary op e f = besideOperand op (op.standing.dress e f) := by
    cases op with
    | exists_ => rfl
    | notExists => rfl
    | _ => rw [unary, predicateOperand_eq]; rfl
  simp only [expr, dressed, bind_assoc, pure_bind, hunary]

theorem expr_inList {e : Expr} {values : List Expr} (h : values.isEmpty = false)
    (negated : Bool) : expr d (.inList e values negated) = (do
    let f ← dressed d .subject e
    let fs ← exprs d values
    return membership d negated f fs) := by
  rw [expr, h]
  simp only [dressed, bind_assoc, pure_bind, predicateOperand_eq]
  rfl

theorem expr_inQuery (e : Expr) (q : Query) (negated : Bool) :
    expr d (.inQuery e q negated) = (do
    let f ← dressed d .subject e
    let body ← query d q
    return f ++ Fragment.text (" " ++ membershipKeyword negated ++ " ") ++ body.enclosed) := by
  simp only [expr, dressed, bind_assoc, pure_bind, predicateOperand_eq]

theorem expr_call (name : String) (arguments : List Expr) (distinct : Bool)
    (windowed : Option Window) : expr d (.call name arguments distinct windowed) = (do
    d.checkCall name windowed.isSome
    let fs ← exprs d arguments
    let framed ← optionalWindow d windowed
    return windowedCall (ofLayout (d.functionLayout name arguments.length distinct) fs) framed) := by
  rw [expr]
  rfl

theorem window_eq (partitionBy : List Expr) (orderBy : List OrderTerm) (frame : Option Frame) :
    window d ⟨partitionBy, orderBy, frame⟩ = (do
    let partitions ← exprs d partitionBy
    let orders ← terms d orderBy
    return Fragment.join " " (windowParts partitions orders frame)) := by
  rw [window.eq_def]
  rfl

theorem windowParts_partition {place : Nat} {fs gs : List Fragment} (h : Changed m place fs gs)
    (orders : List Fragment) (frame : Option Frame) : Loses m
      (Fragment.join " " (windowParts fs orders frame))
      (Fragment.join " " (windowParts gs orders frame)) := by
  have hclause : Loses m (clause "PARTITION BY" (Fragment.join ", " fs))
      (clause "PARTITION BY" (Fragment.join ", " gs)) := (h.join ", ").clause _
  obtain ⟨hfs, hgs⟩ := h.ne_nil
  unfold windowParts
  rw [List.isEmpty_eq_false_iff.2 hfs, List.isEmpty_eq_false_iff.2 hgs]
  exact (Changed.here hclause _).join " "

theorem windowParts_order {place : Nat} {fs gs : List Fragment} (h : Changed m place fs gs)
    (partitions : List Fragment) (frame : Option Frame) : Loses m
      (Fragment.join " " (windowParts partitions fs frame))
      (Fragment.join " " (windowParts partitions gs frame)) := by
  have hclause : Loses m (clause "ORDER BY" (Fragment.join ", " fs))
      (clause "ORDER BY" (Fragment.join ", " gs)) := (h.join ", ").clause _
  obtain ⟨hfs, hgs⟩ := h.ne_nil
  unfold windowParts
  rw [List.isEmpty_eq_false_iff.2 hfs, List.isEmpty_eq_false_iff.2 hgs]
  cases partitions with
  | nil => exact (Changed.here hclause _).join " "
  | cons p ps => exact (Changed.there _ (.here hclause _)).join " "

end Sql

/-! ### Lists of results -/

namespace Capabilities
variable {c : Capabilities} {category : Category}

/-- Either all features of a category are there or none. -/
def AllOrNone (c : Capabilities) (category : Category) : Prop :=
  c.mask category = 0 ∨ c.mask category = category.all

theorem AllOrNone.add (h : c.AllOrNone category) {k : Category} {flags : List Mask}
    (hflags : k = category → flags = [category.all]) : (c.add k flags).AllOrNone category := by
  unfold AllOrNone at *
  rw [mask_add]
  split
  · next hk =>
    rw [hflags hk.symm, ← hk, List.foldl_cons, List.foldl_nil]
    rcases h with h | h
    · exact .inr (by rw [h, BitVec.ofNat_eq_ofNat, BitVec.zero_or])
    · exact .inr (by rw [h, BitVec.or_self])
  · exact h

theorem AllOrNone.apply (h : c.AllOrNone category) (version : Version) {line : FeatureLine}
    (hline : line.category = category → line.flags = [category.all]) :
    (line.apply version c).AllOrNone category := by
  rw [FeatureLine.apply]
  split
  · exact h.add hline
  · rw [addSince]
    split
    · exact h.add hline
    · exact h

theorem AllOrNone.foldl (version : Version) {lines : List FeatureLine}
    (hlines : ∀ line ∈ lines, line.category = category → line.flags = [category.all])
    (h : c.AllOrNone category) : (lines.foldl (FeatureLine.apply version) c).AllOrNone category := by
  induction lines generalizing c with
  | nil => exact h
  | cons line rest ih =>
    have hnext := h.apply version (hlines line List.mem_cons_self)
    exact ih (fun l hl => hlines l (List.mem_cons_of_mem _ hl)) hnext

/-- Servers that return rows at all can return any expressions under any names. -/
theorem allOrNone_returning (b : Backend) (version : Version) :
    (b.capabilities version).AllOrNone .returningClause := by
  have hlines : ∀ line ∈ b.features, line.category = .returningClause →
      line.flags = [Category.returningClause.all] := by
    cases b <;> decide
  exact .foldl version hlines (.inl rfl)

end Capabilities

namespace Sql
open Fragment
variable {d : Dialect} {m : Nat}

theorem requireReturned_of_basic
    (h : d.require .returningClause ReturningFeature.basic = .ok ()) (e : Expr) :
    requireReturned d e = .ok () := by
  have hall : d.require .returningClause ReturningFeature.aliases = .ok () ∧
      d.require .returningClause ReturningFeature.expressions = .ok () := by
    unfold Dialect.require Capabilities.supports Capabilities.includes at *
    rcases Capabilities.allOrNone_returning d.backend d.version with hmask | hmask
    · rw [Dialect.capabilities, hmask] at h
      cases h
    · rw [Dialect.capabilities, hmask]
      exact ⟨rfl, rfl⟩
  cases e with
  | column table name shown => rfl
  | star table => rfl
  | named inner name =>
    rw [requireReturned, hall.1, hall.2]
    cases isColumn inner <;> rfl
  | _ => exact hall.2

theorem returning_eq {items : List Expr} (h : items.isEmpty = false) : returning d items = (do
    d.require .returningClause ReturningFeature.basic
    let fs ← itemList d items
    return clause " RETURNING" (Fragment.join ", " fs)) := by
  rw [returning, h, if_neg Bool.false_ne_true]
  cases hbasic : d.require .returningClause ReturningFeature.basic with
  | error e => rfl
  | ok u =>
    have hitems : ∀ es : List Expr, requireAllReturned d es = .ok () := by
      intro es
      induction es with
      | nil => rfl
      | cons e es ih =>
        rw [requireAllReturned, requireReturned_of_basic hbasic e]
        exact ih
    rw [hitems]
    rfl

theorem returning_at {e e' : Expr} (h : Related (Loses m) (expr d e) (expr d e'))
    (halias : itemAlias e = itemAlias e') (before after : List Expr) :
    Related (Loses m) (returning d (before ++ e :: after)) (returning d (before ++ e' :: after)) := by
  have hlist (x : Expr) : (before ++ x :: after).isEmpty = false := by
    cases before <;> rfl
  rw [returning_eq (hlist e), returning_eq (hlist e')]
  refine Related.same fun _ => (itemList_at h halias before after).bind fun fs gs hfs => ?_
  exact (hfs.join ", ").clause _

end Sql

end PolyQuery
