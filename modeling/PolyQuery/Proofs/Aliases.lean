import PolyQuery.Proofs.Unbracketed

/-! Names of expressions outside of lists of results. A name for the expression at a spot leaves the
statement as it is, but for the brackets that the expression had there: a named expression is taken
for one that needs none. Main statement: `compile_named_iff`. -/
namespace PolyQuery

/-- How many pairs of brackets a name takes from the text of an expression. -/
def Standing.lost (found : Standing) (e : Expr) (times : Nat) : Nat :=
  if found.wraps e then times else 0

theorem Standing.lost_mul (found : Standing) (e : Expr) (times k : Nat) :
    found.lost e times * k = found.lost e (times * k) := by
  rw [Standing.lost, Standing.lost]
  split
  · rfl
  · exact Nat.zero_mul k

namespace Sql
open Fragment
variable {d : Dialect}

section
variable {e : Expr} {name : String} {place found : Standing} {times : Nat} {c : Expr → Expr}

/-- What is lost inside of an expression is lost with its brackets around it, and a name right at
the place takes these brackets. -/
theorem dressed_loses (h : Expr.Spot d place found times c)
    (hinner : (found = place ∧ times = 1 ∧ c = fun x => x) ∨
      Related (Loses (found.lost e times)) (expr d (c e)) (expr d (c (.named e name)))) :
    Related (Loses (found.lost e times)) (dressed d place (c e))
      (dressed d place (c (.named e name))) := by
  have hhere : Related (Loses (place.lost e 1)) (dressed d place e)
      (dressed d place (.named e name)) := by
    rw [dressed, dressed, expr]
    refine Related.same fun f => ?_
    rw [Standing.dress, Standing.dress, Standing.wraps_named, Standing.lost]
    cases place.wraps e with
    | true => exact Loses.unwrapped f
    | false => exact Loses.refl f
  -- deeper inside, the name is not seen from here, so that the same brackets are put around
  rcases h.alike with ⟨rfl, rfl, rfl⟩ | halike
  · exact hhere
  · rcases hinner with ⟨rfl, rfl, rfl⟩ | hinner
    · exact hhere
    · rw [dressed, dressed]
      refine hinner.bind fun f g hfg => ?_
      rw [Standing.dress, Standing.dress, (halike e (.named e name)).wraps]
      exact hfg.enclosed.ite hfg

/-- Where no brackets are put around an expression, a name at its place takes none. -/
theorem free_loses (h : Expr.Spot d place found times c) (hfree : ∀ x, place.wraps x = false)
    (hinner : (found = place ∧ times = 1 ∧ c = fun x => x) ∨
      Related (Loses (found.lost e times)) (expr d (c e)) (expr d (c (.named e name)))) :
    Related (Loses (found.lost e times)) (expr d (c e)) (expr d (c (.named e name))) := by
  have hdressed (x : Expr) : dressed d place x = expr d x := by
    rw [dressed]
    simp only [Standing.dress, hfree, Bool.false_eq_true, if_false, bind_pure]
  have hall := dressed_loses h hinner
  rwa [hdressed, hdressed] at hall

end

end Sql

section
open Fragment Sql
variable {d : Dialect} (e : Expr) (name : String)

theorem Expr.Spot.itemAlias {found : Standing} {times : Nat} {c : Expr → Expr}
    (h : Expr.Spot d .item found times c) (hne : found ≠ .item) (x y : Expr) :
    Sql.itemAlias (c x) = Sql.itemAlias (c y) := by
  rcases h.alike with ⟨rfl, -⟩ | halike
  · exact absurd rfl hne
  · exact (halike x y).itemAlias

/-- Where no values follow `IN` the operand is not written. -/
theorem Sql.lost_member_nil (found : Standing) (times : Nat) :
    found.lost e (times * listCount d []) = 0 := by
  have hzero : listCount d [] = 0 := rfl
  rw [hzero, Nat.mul_zero, Standing.lost]
  split <;> rfl

mutual

/-- What a name at a spot takes from the text of an expression, where the spot is inside of it. -/
theorem Expr.Spot.loses : ∀ {place found times c}, Expr.Spot d place found times c →
    found ≠ .item → (found = place ∧ times = 1 ∧ c = fun x => x) ∨
      Related (Loses (found.lost e times)) (expr d (c e)) (expr d (c (.named e name)))
  -- at the spot itself nothing is written around the name yet
  | _, _, _, _, .here place, _ => .inl ⟨rfl, rfl, rfl⟩
  | _, _, _, _, .left op right h, hne => .inr <| by
    rw [expr_binary, expr_binary]
    refine (dressed_loses h (h.loses hne)).bind fun f g hfg => Related.same fun r => ?_
    exact (hfg.before _).before r
  | _, _, _, _, .right op left h, hne => .inr <| by
    rw [expr_binary, expr_binary]
    refine Related.same fun l => (dressed_loses h (h.loses hne)).bind fun f g hfg => ?_
    exact hfg.after _
  | _, _, _, _, .unary op h, hne => .inr <| by
    rw [expr_unary, expr_unary]
    exact (dressed_loses h (h.loses hne)).bind fun f g hfg => besideOperand_loses hfg op
  | _, found, _, _, @Expr.Spot.member _ _ _ times _ values negated h, hne => .inr <| by
    -- no operand is written before an empty list, and before another one it is written for each
    -- chunk
    cases values with
    | nil =>
      rw [expr, expr, lost_member_nil]
      exact Loses.refl _
    | cons v vs =>
      rw [expr_inList rfl, expr_inList rfl, ← found.lost_mul]
      refine (dressed_loses h (h.loses hne)).bind fun f g hfg => Related.same_ok fun fs hfs => ?_
      exact membership_test hfg negated (length_exprs hfs)
  | _, _, _, _, .value operand before after negated h, hne => .inr <| by
    rw [expr_inList (by cases before <;> rfl), expr_inList (by cases before <;> rfl)]
    have hvalues := exprs_at (free_loses h (fun _ => rfl) (h.loses hne)) before after
    refine Related.same fun f => hvalues.bind fun fs gs hfs => ?_
    exact membership_value hfs negated f
  | _, _, _, _, .rowMember q negated h, hne => .inr <| by
    rw [expr_inQuery, expr_inQuery]
    refine (dressed_loses h (h.loses hne)).bind fun f g hfg => Related.same fun body => ?_
    exact (hfg.before _).before _
  | _, _, _, _, .rows operand negated h, hne => .inr <| by
    rw [expr_inQuery, expr_inQuery]
    exact Related.same fun f => (h.loses hne).bind fun body body' hbody => hbody.enclosed.after _
  | _, found, _, _, .argument called before after distinct windowed h, hne => .inr <| by
    rw [expr_call, expr_call, List.length_append, List.length_append, List.length_cons,
      List.length_cons, ← found.lost_mul]
    -- the layout of the call says how often the argument is written
    have harguments := exprs_at (free_loses h (fun _ => rfl) (h.loses hne)) before after
    refine Related.same fun _ => harguments.bind fun fs gs hfs => Related.same fun framed => ?_
    cases framed with
    | none => exact hfs.ofLayout _
    | some w => exact ((hfs.ofLayout _).before _).before _
  | _, _, _, _, .framed called arguments distinct h, hne => .inr <| by
    rw [expr_call, expr_call]
    refine Related.same fun _ => Related.same fun fs => ?_
    rw [optionalWindow, optionalWindow, bind_assoc, bind_assoc]
    exact (h.loses hne).bind fun w w' hw => hw.enclosed.after _
  | _, _, _, _, .window h, hne => .inr <| by
    rw [expr, expr]
    exact h.loses hne
  | _, _, _, _, .subquery h, hne => .inr <| by
    rw [expr, expr]
    exact (h.loses hne).bind fun f g hfg => hfg.enclosed
  | _, _, _, _, .condition before result after otherwise h, hne => .inr <| by
    have hbranches := branches_at (free_loses h (fun _ => rfl) (h.loses hne))
      (Related.refl Loses.refl (expr d result)) before after
    rw [expr, expr]
    refine hbranches.bind fun f g hfg => Related.same fun last => ?_
    exact ((hfg.after _).before _).before _
  | _, _, _, _, .result before condition after otherwise h, hne => .inr <| by
    have hbranches := branches_at (Related.refl Loses.refl (expr d condition))
      (free_loses h (fun _ => rfl) (h.loses hne)) before after
    rw [expr, expr]
    refine hbranches.bind fun f g hfg => Related.same fun last => ?_
    exact (((hfg.cast (Nat.zero_add _)).after _).before _).before _
  | _, _, _, _, .otherwise branchList h, hne => .inr <| by
    have hlast := optional_at (free_loses h (fun _ => rfl) (h.loses hne)) " ELSE"
    rw [expr, expr]
    exact Related.same fun fs => hlast.bind fun x y hxy => (hxy.after _).before _
  | _, _, _, _, .named shown h, hne => .inr <| by
    rw [expr, expr]
    exact free_loses h (fun _ => rfl) (h.loses hne)

theorem Window.Spot.loses : ∀ {found times c}, Window.Spot d found times c → found ≠ .item →
    Related (Loses (found.lost e times)) (window d (c e)) (window d (c (.named e name)))
  | _, _, _, .partition before after orderBy frame h, hne => by
    rw [window_eq, window_eq]
    have hpartitions := exprs_at (free_loses h (fun _ => rfl) (h.loses hne)) before after
    refine hpartitions.bind fun fs gs hfs => Related.same fun orders => ?_
    exact windowParts_partition hfs orders frame
  | _, _, _, .order partitionBy before direction after frame h, hne => by
    rw [window_eq, window_eq]
    have horders := terms_at (free_loses h (fun _ => rfl) (h.loses hne)) direction before after
    refine Related.same fun partitions => horders.bind fun fs gs hfs => ?_
    exact windowParts_order hfs partitions frame

theorem Query.Spot.loses : ∀ {found times c}, Query.Spot d found times c → found ≠ .item →
    Related (Loses (found.lost e times)) (query d (c e)) (query d (c (.named e name)))
  | _, _, _, .item p before after h, hne => by
    have hitems := itemList_at (free_loses h (fun _ => rfl) (h.loses hne))
      (h.itemAlias hne e (.named e name)) before after
    refine SelectLoses.query { SelectLoses.unchanged p with
      items := items_at hitems before _ after
      listed := Plan.isEmpty_at _ _ before after } ?_
    omega
  | _, _, _, .source p shown h, hne => by
    have hsource := optionalSource_query (h.loses hne) shown
    refine SelectLoses.query { SelectLoses.unchanged p with source := hsource } ?_
    omega
  | _, _, _, .joined p before kind shown on blank after h, hne => by
    have hjoin := join_related (source_query (h.loses hne) shown)
      (ClauseLoses.unchanged " ON" (optional d on)) kind blank
    refine SelectLoses.query
      { SelectLoses.unchanged p with joins := joins_at hjoin before after } ?_
    omega
  | _, _, _, .matched p before kind target blank after h, hne => by
    have hon := optional_at (free_loses h (fun _ => rfl) (h.loses hne)) " ON"
    have hjoin := join_related (Loses.unchanged (source d target)) hon kind blank
    refine SelectLoses.query
      { SelectLoses.unchanged p with joins := joins_at hjoin before after } ?_
    omega
  | _, _, _, .condition p h, hne => by
    have hcondition := optional_at (free_loses h (fun _ => rfl) (h.loses hne)) " WHERE"
    refine SelectLoses.query { SelectLoses.unchanged p with condition := hcondition } ?_
    omega
  | _, _, _, .group p before after h, hne => by
    have hgroups := exprs_at (free_loses h (fun _ => rfl) (h.loses hne)) before after
    refine SelectLoses.query { SelectLoses.unchanged p with groups := hgroups.joined } ?_
    omega
  | _, _, _, .having p h, hne => by
    have hhaving := optional_at (free_loses h (fun _ => rfl) (h.loses hne)) " HAVING"
    refine SelectLoses.query { SelectLoses.unchanged p with having := hhaving } ?_
    omega
  | _, _, _, .order p before direction after h, hne => by
    have horders := terms_at (free_loses h (fun _ => rfl) (h.loses hne)) direction before after
    refine SelectLoses.query { SelectLoses.unchanged p with
      orders := horders.joined
      ordered := Plan.isEmpty_at _ _ before after
      unordered := fun h => ?_ } ?_
    · cases before <;> cases h
    · omega
  -- what a list of tables requires, and whether it is recursive, is told without a look at the name
  | _, _, _, .cte p before shown columns materialized recursive after h, hne => by
    have hctes := cteList_at (cte_related (h.loses hne) (h.alike hne _ _) shown columns materialized
      recursive) before after
    refine SelectLoses.query { SelectLoses.unchanged p with
      ctes := hctes.joined
      required := requireCtes_at _ _ _ _ _ _ _ _ d
      recursive := anyRecursive_at _ _ _ _ _ _ _ _ } ?_
    omega
  | _, _, _, .left p h, hne => by
    refine SetLoses.query { SetLoses.unchanged p with
      left := h.loses hne
      leftOperand := fun f => (h.alike hne _ _).operand d .left f } ?_
    omega
  | _, _, _, .right p h, hne => by
    refine SetLoses.query { SetLoses.unchanged p with
      right := h.loses hne
      rightOperand := fun f => (h.alike hne _ _).operand d .right f } ?_
    omega
  | _, _, _, .setOrder p before direction after h, hne => by
    have horders := terms_at (free_loses h (fun _ => rfl) (h.loses hne)) direction before after
    refine SetLoses.query { SetLoses.unchanged p with
      orders := horders.joined
      ordered := Plan.isEmpty_at _ _ before after
      unordered := fun h => ?_ } ?_
    · cases before <;> cases h
    · omega
  | _, _, _, .setCte p before shown columns materialized recursive after h, hne => by
    have hctes := cteList_at (cte_related (h.loses hne) (h.alike hne _ _) shown columns materialized
      recursive) before after
    refine SetLoses.query { SetLoses.unchanged p with
      ctes := hctes.joined
      required := requireCtes_at _ _ _ _ _ _ _ _ d
      recursive := anyRecursive_at _ _ _ _ _ _ _ _ } ?_
    omega

end

end

section
open Fragment Sql
variable {d : Dialect} (e : Expr) (name : String)

theorem Statement.Spot.loses {found : Standing} {times : Nat} {c : Expr → Statement}
    (h : Statement.Spot d found times c) (hne : found ≠ .item) :
    Related (Loses (found.lost e times)) (statement d (c e)) (statement d (c (.named e name))) := by
  cases h with
  | query h => exact h.loses e name hne
  | row p before left right after h =>
    have hrow := exprs_at (free_loses h (fun _ => rfl) (h.loses e name hne)) left right
    have hlength (x : Expr) : (before ++ (left ++ x :: right) :: after).length =
        before.length + after.length + 1 := by
      simp only [List.length_append, List.length_cons]
      omega
    rw [statement, statement, Sql.insert, Sql.insert, hlength, hlength]
    have hrows := rowList_at hrow before after
    -- several rows need a capability that is asked for first, one row does not
    split
    · refine Related.same fun _ => hrows.bind fun fs gs hfs => Related.same fun r => ?_
      exact ((hfs.join ", ").after _).before r
    · refine hrows.bind fun fs gs hfs => Related.same fun r => ?_
      exact ((hfs.join ", ").after _).before r
  | inserted p before after h =>
    have hitems := returning_at (free_loses h (fun _ => rfl) (h.loses e name hne))
      (h.itemAlias hne e (.named e name)) before after
    rw [statement, statement, Sql.insert, Sql.insert]
    split
    · refine Related.same fun _ => Related.same fun rows => hitems.bind fun f g hfg => ?_
      exact hfg.after _
    · refine Related.same fun rows => hitems.bind fun f g hfg => ?_
      exact hfg.after _
  | assigned p before column after h =>
    have hset := assignments_at (free_loses h (fun _ => rfl) (h.loses e name hne)) column before after
    rw [statement, statement, Sql.update, Sql.update]
    refine hset.bind fun fs gs hfs => Related.same fun o => Related.same fun r => ?_
    exact (((hfs.join ", ").after _).before _).before r
  | changing p h =>
    have hcondition := optional_at (free_loses h (fun _ => rfl) (h.loses e name hne)) " WHERE"
    rw [statement, statement, Sql.update, Sql.update]
    refine Related.same fun fs => hcondition.bind fun x y hxy => Related.same fun r => ?_
    exact (hxy.after _).before r
  | changed p before after h =>
    have hitems := returning_at (free_loses h (fun _ => rfl) (h.loses e name hne))
      (h.itemAlias hne e (.named e name)) before after
    rw [statement, statement, Sql.update, Sql.update]
    refine Related.same fun fs => Related.same fun o => hitems.bind fun f g hfg => ?_
    exact hfg.after _
  | deleting p h =>
    have hcondition := optional_at (free_loses h (fun _ => rfl) (h.loses e name hne)) " WHERE"
    rw [statement, statement, Sql.delete, Sql.delete]
    refine hcondition.bind fun x y hxy => Related.same fun r => ?_
    exact (hxy.after _).before r
  | deleted p before after h =>
    have hitems := returning_at (free_loses h (fun _ => rfl) (h.loses e name hne))
      (h.itemAlias hne e (.named e name)) before after
    rw [statement, statement, Sql.delete, Sql.delete]
    refine Related.same fun o => hitems.bind fun f g hfg => ?_
    exact hfg.after _

end

/-- The length of a text is that of its fragment behind no values. -/
theorem Fragment.Loses.length_sql {m : Nat} {f g : Fragment} (h : Fragment.Loses m f g)
    (d : Dialect) : (f.sql d).length = (g.sql d).length + 2 * m := by
  have hlength := h.length d 0
  rwa [← Fragment.toList_sql, ← Fragment.toList_sql, String.length_toList, String.length_toList]
    at hlength

/-- Names take effect in lists of results alone, but for brackets. An expression anywhere else gets
a name: the statement fails as it did or compiles as it did, binds the same values, and its text is
shorter by the pairs of brackets that stood around the expression. So the text is the same exactly if
the expression needs no brackets at its place, or is not written there at all. -/
theorem compile_named_iff {d : Dialect} {found : Standing} {times : Nat} {c : Expr → Statement}
    (h : Statement.Spot d found times c) (hne : found ≠ .item) (e : Expr) (name : String) :
    (∀ error, compile d (c (.named e name)) = .error error ↔ compile d (c e) = .error error) ∧
    ∀ plain renamed, compile d (c e) = .ok plain → compile d (c (.named e name)) = .ok renamed →
      renamed.bindings = plain.bindings ∧
      plain.sql.length = renamed.sql.length + 2 * (if found.wraps e then times else 0) ∧
      (renamed.sql = plain.sql ↔ found.wraps e = false ∨ times = 0) := by
  have hrelated : Related (fun plain renamed : Compiled =>
      ∃ f g, Fragment.Loses (found.lost e times) f g ∧ plain = ⟨f.sql d, f.bindings⟩ ∧
        renamed = ⟨g.sql d, g.bindings⟩)
      (compile d (c e)) (compile d (c (.named e name))) := by
    rw [compile, compile, h.check_named e name hne]
    refine Related.same fun _ => (h.loses e name hne).bind fun f g hfg => ?_
    exact ⟨f, g, hfg, rfl, rfl⟩
  rcases hrelated.outcome with ⟨error, hplain, hrenamed⟩ | ⟨plain, renamed, hplain, hrenamed, hloses⟩
  · rw [hplain, hrenamed]
    exact ⟨fun _ => Iff.rfl, fun _ _ h => nomatch h⟩
  · rw [hplain, hrenamed]
    refine ⟨fun _ => ⟨(nomatch ·), (nomatch ·)⟩, fun o o' ho ho' => ?_⟩
    cases ho
    cases ho'
    obtain ⟨f, g, hfg, rfl, rfl⟩ := hloses
    have hlength := hfg.length_sql d
    refine ⟨hfg.bindings, hlength, ?_⟩
    -- a text that is no shorter has lost nothing, and where nothing is lost nothing is changed
    have hnone : found.lost e times = 0 ↔ found.wraps e = false ∨ times = 0 := by
      rw [Standing.lost]
      cases found.wraps e <;> simp
    rw [← hnone]
    constructor
    · intro hsql
      have hsame : g.sql d = f.sql d := hsql
      rw [hsame] at hlength
      omega
    · intro hzero
      rw [hfg.same hzero]

/-- A selection under two conditions, the first of them left open. -/
def bothHold (x : Expr) : Statement := .query (.select
  { SelectPlan.all (some (.table "t" none)) with
    condition := some (.binary .and x (.column none "c" none)) })

/-- One of two columns. -/
def eitherColumn : Expr := .binary .or (.column none "a" none) (.column none "b" none)

theorem spot_bothHold (d : Dialect) : Statement.Spot d (.operand .and .left) 1 bothHold :=
  .query (.condition (SelectPlan.all (some (.table "t" none))) (.left .and _ (.here _)))

theorem compile_named_bothHold :
    Statement.Spot (.make .sqlite none) (.operand .and .left) 1 bothHold ∧
    Standing.operand .and .left ≠ .item ∧
    ∃ plain renamed, compile (.make .sqlite none) (bothHold eitherColumn) = .ok plain ∧
      compile (.make .sqlite none) (bothHold (.named eitherColumn "x")) = .ok renamed ∧
      renamed.bindings = plain.bindings ∧ plain.sql.length = renamed.sql.length + 2 := by
  have hspot := spot_bothHold (.make .sqlite none)
  have hitem : Standing.operand .and .left ≠ .item := Standing.noConfusion
  obtain ⟨plain, hplain, _⟩ := compile_of_sql (d := .make .sqlite none) (s := bothHold eitherColumn)
    "SELECT * FROM t WHERE (a OR b) AND c" (by decide +kernel)
  obtain ⟨renamed, hrenamed, _⟩ := compile_of_sql (d := .make .sqlite none)
    (s := bothHold (.named eitherColumn "x")) "SELECT * FROM t WHERE a OR b AND c"
    (by decide +kernel)
  obtain ⟨hbindings, hlength, -⟩ :=
    (compile_named_iff hspot hitem eitherColumn "x").2 plain renamed hplain hrenamed
  exact ⟨hspot, hitem, plain, renamed, hplain, hrenamed, hbindings, hlength⟩

/-- A name under `AND` lets an `OR` fall apart, although it stands in no list of results. -/
theorem named_operand_loses_brackets :
    ¬ ∀ (d : Dialect) (found : Standing) (times : Nat) (c : Expr → Statement),
      Statement.Spot d found times c → found ≠ .item → ∀ (e : Expr) (name : String),
        (compile d (c (.named e name))).map Compiled.sql = (compile d (c e)).map Compiled.sql := by
  intro hall
  have hsame := hall _ _ _ _ (spot_bothHold (.make .sqlite none)) Standing.noConfusion eitherColumn
    "x"
  obtain ⟨plain, hplain, hplainSql⟩ := compile_of_sql (d := .make .sqlite none)
    (s := bothHold eitherColumn) "SELECT * FROM t WHERE (a OR b) AND c" (by decide +kernel)
  obtain ⟨renamed, hrenamed, hrenamedSql⟩ := compile_of_sql (d := .make .sqlite none)
    (s := bothHold (.named eitherColumn "x")) "SELECT * FROM t WHERE a OR b AND c"
    (by decide +kernel)
  rw [hplain, hrenamed] at hsame
  have hsql : renamed.sql = plain.sql := Except.ok.inj hsame
  rw [hplainSql, hrenamedSql] at hsql
  exact absurd hsql (by decide +kernel)

end PolyQuery
