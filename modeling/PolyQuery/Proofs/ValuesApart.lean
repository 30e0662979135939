import PolyQuery.Proofs.Blank

/-! Values stay apart from text. A fragment whose values are forgotten is put together in the same
way as the fragment itself, so the text of a statement, the number of its values and its failure are
those of its blank. Main statement: `compile_values_apart`, about two statements that differ only in
their values. -/
namespace PolyQuery

namespace Fragment

/-- A fragment that has forgotten its values but not their number. -/
def faded (f : Fragment) : Fragment := ⟨f.pieces, f.bindings.map fun _ => .plain .null⟩

@[simp] theorem faded_bindings_length (f : Fragment) :
    f.faded.bindings.length = f.bindings.length := by simp [faded]

@[simp] theorem faded_text (s : String) : (text s).faded = text s := rfl

@[simp] theorem faded_empty : empty.faded = empty := rfl

@[simp] theorem faded_append (a b : Fragment) : (a ++ b).faded = a.faded ++ b.faded := by
  simp [faded, append_def]

@[simp] theorem faded_enclosed (f : Fragment) : f.enclosed.faded = f.faded.enclosed := by
  simp [enclosed]

@[simp] theorem faded_join (separator : String) (fs : List Fragment) :
    (join separator fs).faded = join separator (fs.map faded) := by
  induction fs with
  | nil => rfl
  | cons f fs ih =>
    cases fs with
    | nil => rfl
    | cons g gs =>
      rw [join_cons_cons, faded_append, faded_append, ih, faded_text]
      rfl

/-- The places of a layout do not see values: an argument is moved by the number of values before
it. -/
@[simp] theorem faded_ofLayout (layout : List LayoutPart) (fs : List Fragment) :
    (ofLayout layout fs).faded = ofLayout layout (fs.map faded) := by
  have hoffset (n : Nat) : offset (fs.map faded) n = offset fs n := by
    simp [offset, ← List.map_take, List.flatMap_map]
  have hpieces : layoutPieces (fs.map faded) = layoutPieces fs := by
    funext part
    cases part with
    | text s => rfl
    | argument n =>
      simp only [layoutPieces, List.getElem?_map, hoffset]
      cases fs[n]? <;> rfl
  simp [ofLayout, faded, hpieces, List.map_flatMap, List.flatMap_map]

/-- The text of a fragment is that of the faded one. -/
theorem sql_eq_of_faded {f g : Fragment} (h : f.faded = g.faded) (d : Dialect) :
    f.sql d = g.sql d := by
  have hpieces : f.faded.pieces = g.faded.pieces := by rw [h]
  change f.pieces = g.pieces at hpieces
  rw [sql, sql, hpieces]

theorem length_eq_of_faded {f g : Fragment} (h : f.faded = g.faded) :
    f.bindings.length = g.bindings.length := by
  rw [← faded_bindings_length f, h, faded_bindings_length]

end Fragment

namespace Sql
open Fragment

@[simp] theorem faded_predicateOperand (e : Expr) (f : Fragment) :
    (predicateOperand e f).faded = predicateOperand e f.faded := by
  unfold predicateOperand
  split <;> simp

@[simp] theorem predicateOperand_blank (e : Expr) (f : Fragment) :
    predicateOperand (Blank.expr e) f = predicateOperand e f := by
  rw [predicateOperand, predicateOperand, Blank.precedence_expr]

@[simp] theorem faded_operand (op : BinaryOp) (side : Side) (e : Expr) (f : Fragment) :
    (operand op side e f).faded = operand op side e f.faded := by
  unfold operand
  split <;> simp

@[simp] theorem operand_blank (op : BinaryOp) (side : Side) (e : Expr) (f : Fragment) :
    operand op side (Blank.expr e) f = operand op side e f := by
  rw [operand, operand, Blank.needsParens_expr]

@[simp] theorem faded_unary (op : UnaryOp) (e : Expr) (f : Fragment) :
    (unary op e f).faded = unary op e f.faded := by
  cases op <;> simp [unary]

@[simp] theorem unary_blank (op : UnaryOp) (e : Expr) (f : Fragment) :
    unary op (Blank.expr e) f = unary op e f := by
  cases op <;> simp [unary]

/-- A list is split by its length alone. -/
@[simp] theorem faded_membership (d : Dialect) (negated : Bool) (test : Fragment)
    (values : List Fragment) : (membership d negated test values).faded =
      membership d negated test.faded (values.map faded) := by
  unfold membership
  dsimp only
  rw [List.length_map, chunks_map, List.map_map]
  have htests (parts : List (List Fragment)) : (parts.map ((fun part => test.faded ++
      Fragment.text (" " ++ membershipKeyword negated ++ " (") ++ Fragment.join ", " part ++
      Fragment.text ")") ∘ List.map faded)) =
      (parts.map fun part => test ++ Fragment.text (" " ++ membershipKeyword negated ++ " (") ++
        Fragment.join ", " part ++ Fragment.text ")").map faded := by
    rw [List.map_map]
    refine List.map_congr_left fun part _ => ?_
    simp
  rw [htests]
  -- how the tests are joined depends on how many there are, not on what they hold
  generalize ((chunks _ _ values).map fun part => test ++ _ ++ _ ++ _ : List Fragment) = tests
  cases tests with
  | nil => rfl
  | cons t ts =>
    cases ts with
    | nil => rfl
    | cons u us => simp

@[simp] theorem faded_clause (keyword : String) (f : Fragment) :
    (clause keyword f).faded = clause keyword f.faded := by simp [clause]

@[simp] theorem faded_optionalClause (keyword : String) (x : Option Fragment) :
    (optionalClause keyword x).faded = optionalClause keyword (x.map faded) := by
  cases x <;> simp [optionalClause]

@[simp] theorem faded_listClause (keyword : String) (fs : List Fragment) :
    (listClause keyword fs).faded = listClause keyword (fs.map faded) := by
  cases fs <;> simp [listClause]

@[simp] theorem faded_aliased (d : Dialect) (f : Fragment) (name : String) :
    (aliased d f name).faded = aliased d f.faded name := by simp [aliased]

@[simp] theorem faded_table (d : Dialect) (name : String) (shown : Option String) :
    (table d name shown).faded = table d name shown := by
  cases shown with
  | none => rfl
  | some a => by_cases ha : a = "" <;> simp [table, ha]

@[simp] theorem faded_selectItem (d : Dialect) (e : Expr) (f : Fragment) :
    (selectItem d e f).faded = selectItem d e f.faded := by
  unfold selectItem
  split <;> simp

@[simp] theorem selectItem_blank (d : Dialect) (e : Expr) (f : Fragment) :
    selectItem d (Blank.expr e) f = selectItem d e f := by
  rw [selectItem, selectItem, Blank.itemAlias_expr]

@[simp] theorem faded_setOperand (d : Dialect) (side : Side) (q : Query) (f : Fragment) :
    (setOperand d side q f).faded = setOperand d side q f.faded := by
  unfold setOperand
  cases q <;> dsimp only <;> split <;> (try split) <;> simp

@[simp] theorem setOperand_blank (d : Dialect) (side : Side) (q : Query) (f : Fragment) :
    setOperand d side (Blank.query q) f = setOperand d side q f := by
  unfold setOperand
  rw [Blank.orderBy_query, Blank.terms_isEmpty, Blank.pagination_query]
  cases q <;> rfl

@[simp] theorem faded_withClause (d : Dialect) (recursive : Bool) (ctes : List Fragment)
    (body : Fragment) : (withClause d recursive ctes body).faded =
      withClause d recursive (ctes.map faded) body.faded := by
  cases ctes <;> simp [withClause]

@[simp] theorem faded_windowedCall (called : Fragment) (framed : Option Fragment) :
    (windowedCall called framed).faded = windowedCall called.faded (framed.map faded) := by
  cases framed <;> simp [windowedCall]

@[simp] theorem faded_windowParts (partitions orders : List Fragment) (frame : Option Frame) :
    (windowParts partitions orders frame).map faded =
      windowParts (partitions.map faded) (orders.map faded) frame := by
  cases partitions <;> cases orders <;> cases frame <;> simp [windowParts]

end Sql

/-- Two results that fail alike, or that both exist and look the same through a function. -/
def Same {α β : Type} (g : α → β) (x y : Except Error α) : Prop := x.map g = y.map g

namespace Same
variable {α β γ δ : Type} {g : α → β} {k : γ → δ}

theorem refl (x : Except Error α) : Same g x x := rfl

theorem ok {a b : α} (h : g a = g b) : Same g (.ok a) (.ok b) := congrArg Except.ok h

theorem pure {a b : α} (h : g a = g b) : Same g (Pure.pure a) (Pure.pure b) :=
  congrArg Except.ok h

/-- Two chains are the same when their first steps are and what follows sees no more of them. -/
theorem bind {x y : Except Error α} {f f' : α → Except Error γ} (h : Same g x y)
    (hf : ∀ a b, g a = g b → Same k (f a) (f' b)) : Same k (x >>= f) (y >>= f') := by
  unfold Same at h
  cases x with
  | error e =>
    cases y with
    | error e' =>
      have he : e = e' := Except.error.inj h
      rw [he]
      exact refl _
    | ok b => cases h
  | ok a =>
    cases y with
    | error e' => cases h
    | ok b => exact hf a b (Except.ok.inj h)

theorem guard {c : Prop} [Decidable c] {x : Except Error Unit} {f f' : Unit → Except Error γ}
    (hf : ∀ u, Same k (f u) (f' u)) :
    Same k (if c then x >>= f else f ()) (if c then x >>= f' else f' ()) := by
  split
  · exact (refl (g := id) x).bind fun a b _ => hf ()
  · exact hf ()

/-- Both results fail with one error, or both exist. -/
theorem elim {x y : Except Error α} (h : Same g x y) :
    (∃ e, x = .error e ∧ y = .error e) ∨ ∃ a b, x = .ok a ∧ y = .ok b ∧ g a = g b := by
  unfold Same at h
  cases x with
  | error e =>
    cases y with
    | error e' =>
      have he : e = e' := Except.error.inj h
      exact .inl ⟨e, rfl, by rw [he]⟩
    | ok b => cases h
  | ok a =>
    cases y with
    | error e' => cases h
    | ok b => exact .inr ⟨a, b, rfl, rfl, Except.ok.inj h⟩

end Same

namespace Paging
open Fragment

theorem faded_limitOffset (d : Dialect) (core order : Fragment) (limit offset : Option Value) :
    (limitOffset d core order limit offset).faded =
      limitOffset d core.faded order.faded limit offset := by
  cases limit <;> cases offset <;> cases hn : d.noLimit <;> simp [limitOffset, hn]

theorem faded_offsetFetch (d : Dialect) (core order : Fragment) (ordered : Bool)
    (limit offset : Option Value) : (offsetFetch d core order ordered limit offset).faded =
      offsetFetch d core.faded order.faded ordered limit offset := by
  unfold offsetFetch
  cases limit <;> dsimp only <;> split <;> simp

theorem faded_rownum (core order : Fragment) (limit offset : Option Value) :
    (rownum core order limit offset).faded = rownum core.faded order.faded limit offset := by
  cases limit with
  | none => simp [rownum]
  | some v => cases hz : isZero (skipped offset) <;> simp [rownum, hz]

theorem faded_top (d : Dialect) (core order : Fragment) (limit offset : Option Value)
    (applied : Bool) : (top d core order limit offset applied).map faded =
      top d core.faded order.faded limit offset applied := by
  have hnone : (Except.ok (core ++ order) : Except Error Fragment).map faded =
      .ok (core.faded ++ order.faded) := by
    simp [Except.map]
  -- the count is part of the text, so it does not fade
  have hsome (v : Value) : (if applied then Except.ok (core ++ order)
      else .ok (topped core order v) : Except Error Fragment).map faded =
      if applied then Except.ok (core.faded ++ order.faded)
      else .ok (topped core.faded order.faded v) := by
    cases applied <;> simp [Except.map, topped]
  unfold top
  dsimp only
  cases offset with
  | none =>
    cases limit with
    | none => exact hnone
    | some v => exact hsome v
  | some w =>
    dsimp only
    split
    · rfl
    · cases limit with
      | none => exact hnone
      | some v => exact hsome v

/-- A page is put around a query without a look at its values. -/
theorem faded_finish (d : Dialect) (core order : Fragment) (ordered : Bool)
    (pagination : Option Pagination) (applied : Bool) :
    (finish d core order ordered pagination applied).map faded =
      finish d core.faded order.faded ordered pagination applied := by
  unfold finish
  dsimp only
  by_cases hw : isWhole (pagination.bind Pagination.limit) (pagination.bind Pagination.offset)
  · rw [if_pos hw, if_pos hw]
    exact congrArg Except.ok (faded_append core order)
  · rw [if_neg hw, if_neg hw]
    cases d.paginationStyle with
    | limitOffset => exact congrArg Except.ok (faded_limitOffset d core order _ _)
    | offsetFetch => exact congrArg Except.ok (faded_offsetFetch d core order ordered _ _)
    | rownum => exact congrArg Except.ok (faded_rownum core order _ _)
    | top => exact faded_top d core order _ _ applied

theorem finish_same {d : Dialect} {core core' order order' : Fragment}
    (hcore : core.faded = core'.faded) (horder : order.faded = order'.faded) (ordered : Bool)
    (pagination : Option Pagination) (applied : Bool) :
    Same faded (finish d core order ordered pagination applied)
      (finish d core' order' ordered pagination applied) := by
  unfold Same
  rw [faded_finish, faded_finish, hcore, horder]

end Paging

namespace Raw
open Fragment

theorem faded_interleave (pieces : List (List Char)) (values values' : List Value)
    (h : values.length = values'.length) :
    (interleave pieces values).faded = (interleave pieces values').faded := by
  induction values generalizing pieces values' with
  | nil =>
    cases values' with
    | nil => rfl
    | cons v vs => cases h
  | cons v vs ih =>
    cases values' with
    | nil => cases h
    | cons v' vs' =>
      cases pieces with
      | nil => rfl
      | cons p ps =>
        have hrest := ih ps vs' (Nat.succ.inj h)
        rw [interleave, interleave, faded_append, faded_append, hrest, faded_append, faded_append]
        rfl

/-- Raw text is cut by its own characters, and only the number of its parameters is looked at. -/
theorem fragment_same (sql : String) (parameters : List Value) :
    Same faded (fragment sql (parameters.map fun _ => .null)) (fragment sql parameters) := by
  unfold fragment
  dsimp only
  rw [List.length_map]
  split
  · exact Same.ok (faded_interleave _ _ _ (by rw [List.length_map]))
  · exact Same.refl _

end Raw

namespace Sql
open Fragment
variable (d : Dialect)

theorem requireCtes_blank (cs : List Cte) :
    requireCtes d (Blank.cteList cs) = requireCtes d cs := by
  rw [requireCtes, requireCtes, Blank.cteList_isEmpty, Blank.any_recursive]

/-- The columns that a recursive expression must list are names and not values. -/
theorem requiredColumns_blank (name : String) (recursive : Bool) (q : Query) :
    requiredColumns d name recursive (Blank.query q) = requiredColumns d name recursive q := by
  have hnames : (Blank.query q).leftmost.items.map Expr.outputName =
      q.leftmost.items.map Expr.outputName := by
    have hitems (p : SelectPlan) : (Blank.select p).items = p.items.map Blank.expr := by
      cases p
      exact Blank.exprs_eq_map _
    rw [Blank.leftmost_query, hitems, List.map_map]
    exact List.map_congr_left fun e _ => Blank.outputName_expr e
  rw [requiredColumns, requiredColumns, hnames]

mutual

theorem query_same (q : Query) : Same faded (query d (Blank.query q)) (query d q) := by
  cases q with
  | select p =>
    rw [Blank.query, query, query]
    exact select_same p
  | combined p =>
    rw [Blank.query, query, query]
    exact combined_same p

theorem select_same (p : SelectPlan) : Same faded (select d (Blank.select p)) (select d p) := by
  cases p with
  | mk items source joined condition groupBy having orderBy pagination distinct ctes =>
  rw [Blank.select, select, select, requireCtes_blank]
  refine (Same.refl (g := id) _).bind fun _ _ _ => ?_
  refine (cteList_same ctes).bind fun ws ws' hw => ?_
  refine (itemList_same items).bind fun is is' hi => ?_
  refine (optionalSource_same source).bind fun s s' hs => ?_
  refine (joins_same joined).bind fun j j' hj => ?_
  refine (optional_same condition).bind fun c c' hc => ?_
  refine (exprs_same groupBy).bind fun gs gs' hg => ?_
  refine (optional_same having).bind fun h h' hh => ?_
  refine (terms_same orderBy).bind fun os os' ho => ?_
  -- a plan without its values has the same clauses
  rw [Blank.exprs_isEmpty, Blank.terms_isEmpty, Blank.any_recursive]
  have hitems : (if items.isEmpty then Fragment.text "*" else Fragment.join ", " is).faded =
      (if items.isEmpty then Fragment.text "*" else Fragment.join ", " is').faded := by
    split
    · rfl
    · rw [faded_join, faded_join, hi]
  refine (Paging.finish_same ?_ ?_ _ _ _).bind fun body body' hb => Same.pure ?_
  · simp only [faded_append, faded_text, faded_optionalClause, faded_listClause, hitems, hs, hj, hc,
      hg, hh]
  · rw [faded_listClause, faded_listClause, ho]
  · rw [faded_withClause, faded_withClause, hw, hb]

theorem combined_same (p : SetPlan) :
    Same faded (combined d (Blank.combined p)) (combined d p) := by
  cases p with
  | mk operator all left right orderBy pagination ctes =>
  rw [Blank.combined, combined, combined, requireCtes_blank]
  refine (Same.refl (g := id) _).bind fun _ _ _ => ?_
  refine (cteList_same ctes).bind fun ws ws' hw => ?_
  refine (Same.refl (g := id) _).bind fun _ _ _ => ?_
  refine (query_same left).bind fun l l' hl => ?_
  refine (query_same right).bind fun r r' hr => ?_
  refine (terms_same orderBy).bind fun os os' ho => ?_
  rw [Blank.terms_isEmpty, Blank.any_recursive]
  refine (Paging.finish_same ?_ ?_ _ _ _).bind fun body body' hb => Same.pure ?_
  · simp only [faded_append, faded_text, faded_setOperand, setOperand_blank, hl, hr]
  · rw [faded_listClause, faded_listClause, ho]
  · rw [faded_withClause, faded_withClause, hw, hb]

theorem cteList_same (cs : List Cte) :
    Same (List.map faded) (cteList d (Blank.cteList cs)) (cteList d cs) := by
  cases cs with
  | nil => rfl
  | cons c cs =>
    rw [Blank.cteList, cteList, cteList]
    refine (cte_same c).bind fun f f' hf => ?_
    refine (cteList_same cs).bind fun fs fs' hfs => Same.pure ?_
    rw [List.map_cons, List.map_cons, hf, hfs]

theorem cte_same (c : Cte) : Same faded (cte d (Blank.cte c)) (cte d c) := by
  cases c with
  | mk name body columns materialized recursive =>
  rw [Blank.cte, cte, cte]
  refine Same.guard fun _ => ?_
  -- whatever columns are listed, the body is where values are
  have hrest (listed : Option (List String)) : Same faded
      (do
        let f ← query d (Blank.query body)
        return Fragment.text (d.quoteIdentifier name ++ columnList d listed ++ " AS" ++
          materialization materialized ++ " ") ++ f.enclosed)
      (do
        let f ← query d body
        return Fragment.text (d.quoteIdentifier name ++ columnList d listed ++ " AS" ++
          materialization materialized ++ " ") ++ f.enclosed) := by
    refine (query_same body).bind fun f f' hf => Same.pure ?_
    rw [faded_append, faded_append, faded_enclosed, faded_enclosed, hf]
  cases columns with
  | some cs => exact hrest (some cs)
  | none =>
    dsimp only
    rw [requiredColumns_blank]
    refine (Same.refl (g := id) _).bind fun listed listed' hlisted => ?_
    have heq : listed = listed' := hlisted
    rw [heq]
    exact hrest listed'

theorem source_same (s : Source) : Same faded (source d (Blank.source s)) (source d s) := by
  cases s with
  | table name shown => rfl
  | query q shown =>
    rw [Blank.source, source, source]
    refine (query_same q).bind fun f f' hf => Same.pure ?_
    rw [faded_aliased, faded_aliased, faded_enclosed, faded_enclosed, hf]

theorem optionalSource_same (s : Option Source) :
    Same faded (optionalSource d (Blank.optionalSource s)) (optionalSource d s) := by
  cases s with
  | none => rfl
  | some s =>
    rw [Blank.optionalSource, optionalSource, optionalSource]
    refine (source_same s).bind fun f f' hf => Same.pure ?_
    rw [faded_clause, faded_clause, hf]

theorem joins_same (js : List Join) : Same faded (joins d (Blank.joins js)) (joins d js) := by
  cases js with
  | nil => rfl
  | cons j js =>
    rw [Blank.joins, joins, joins]
    refine (join_same j).bind fun f f' hf => ?_
    refine (joins_same js).bind fun g g' hg => Same.pure ?_
    rw [faded_append, faded_append, hf, hg]

theorem join_same (j : Join) : Same faded (join d (Blank.join j)) (join d j) := by
  cases j with
  | mk kind target on blank =>
  rw [Blank.join, join, join]
  refine (Same.refl (g := id) _).bind fun _ _ _ => ?_
  refine (source_same target).bind fun f f' hf => ?_
  refine (optional_same on).bind fun o o' ho => Same.pure ?_
  simp only [faded_append, faded_text, faded_optionalClause, hf, ho]

theorem expr_same (e : Expr) : Same faded (expr d (Blank.expr e)) (expr d e) := by
  cases e with
  | column table name shown => rfl
  | star table => rfl
  -- a literal is a hole, whatever its value
  | literal value hint => rfl
  | binary op left right =>
    rw [Blank.expr, expr, expr]
    refine (expr_same left).bind fun l l' hl => ?_
    refine (expr_same right).bind fun r r' hr => Same.pure ?_
    simp only [faded_append, faded_text, faded_operand, operand_blank, hl, hr]
  | unary op e =>
    rw [Blank.expr, expr, expr]
    refine (expr_same e).bind fun f f' hf => Same.pure ?_
    rw [unary_blank, faded_unary, faded_unary, hf]
  | inList e values negated =>
    rw [Blank.expr, expr, expr, Blank.exprs_isEmpty]
    split
    · rfl
    · refine (expr_same e).bind fun f f' hf => ?_
      refine (exprs_same values).bind fun fs fs' hfs => Same.pure ?_
      rw [predicateOperand_blank, faded_membership, faded_membership, faded_predicateOperand,
        faded_predicateOperand, hf, hfs]
  | inQuery e q negated =>
    rw [Blank.expr, expr, expr]
    refine (expr_same e).bind fun f f' hf => ?_
    refine (query_same q).bind fun g g' hg => Same.pure ?_
    simp only [predicateOperand_blank, faded_append, faded_text, faded_predicateOperand,
      faded_enclosed, hf, hg]
  | call name arguments distinct windowed =>
    rw [Blank.expr, expr, expr, Blank.optionalWindow_isSome, Blank.exprs_length]
    refine (Same.refl (g := id) _).bind fun _ _ _ => ?_
    refine (exprs_same arguments).bind fun fs fs' hfs => ?_
    refine (optionalWindow_same windowed).bind fun w w' hw => Same.pure ?_
    have hcall (layout : List LayoutPart) : (windowedCall (ofLayout layout fs) w).faded =
        (windowedCall (ofLayout layout fs') w').faded := by
      rw [faded_windowedCall, faded_windowedCall, faded_ofLayout, faded_ofLayout, hfs, hw]
    exact hcall _
  | window w =>
    rw [Blank.expr, expr, expr]
    exact window_same w
  | subquery q =>
    rw [Blank.expr, expr, expr]
    refine (query_same q).bind fun f f' hf => Same.pure ?_
    rw [faded_enclosed, faded_enclosed, hf]
  | cases bs otherwise =>
    rw [Blank.expr, expr, expr]
    refine (branches_same bs).bind fun f f' hf => ?_
    refine (optional_same otherwise).bind fun o o' ho => Same.pure ?_
    simp only [faded_append, faded_text, faded_optionalClause, hf, ho]
  | named e name =>
    rw [Blank.expr, expr, expr]
    exact expr_same e
  | raw sql parameters =>
    rw [Blank.expr, expr, expr]
    exact Raw.fragment_same sql parameters

theorem exprs_same (es : List Expr) :
    Same (List.map faded) (exprs d (Blank.exprs es)) (exprs d es) := by
  cases es with
  | nil => rfl
  | cons e es =>
    rw [Blank.exprs, exprs, exprs]
    refine (expr_same e).bind fun f f' hf => ?_
    refine (exprs_same es).bind fun fs fs' hfs => Same.pure ?_
    rw [List.map_cons, List.map_cons, hf, hfs]

theorem optional_same (e : Option Expr) :
    Same (Option.map faded) (optional d (Blank.optional e)) (optional d e) := by
  cases e with
  | none => rfl
  | some e =>
    rw [Blank.optional, optional, optional]
    refine (expr_same e).bind fun f f' hf => Same.pure ?_
    exact congrArg some hf

theorem itemList_same (es : List Expr) :
    Same (List.map faded) (itemList d (Blank.exprs es)) (itemList d es) := by
  cases es with
  | nil => rfl
  | cons e es =>
    rw [Blank.exprs, itemList, itemList]
    refine (expr_same e).bind fun f f' hf => ?_
    refine (itemList_same es).bind fun fs fs' hfs => Same.pure ?_
    rw [List.map_cons, List.map_cons, selectItem_blank, faded_selectItem, faded_selectItem, hf, hfs]

theorem branches_same (bs : List Branch) :
    Same faded (branches d (Blank.branches bs)) (branches d bs) := by
  cases bs with
  | nil => rfl
  | cons b bs =>
    cases b with
    | mk condition result =>
    rw [Blank.branches, branches, branches]
    refine (expr_same condition).bind fun c c' hc => ?_
    refine (expr_same result).bind fun r r' hr => ?_
    refine (branches_same bs).bind fun f f' hf => Same.pure ?_
    simp only [faded_append, faded_clause, hc, hr, hf]

theorem window_same (w : Window) : Same faded (window d (Blank.window w)) (window d w) := by
  cases w with
  | mk partitionBy orderBy frame =>
  rw [Blank.window]
  unfold window
  refine (exprs_same partitionBy).bind fun ps ps' hp => ?_
  refine (terms_same orderBy).bind fun os os' ho => Same.pure ?_
  have hparts : (windowParts ps os frame).map faded = (windowParts ps' os' frame).map faded := by
    rw [faded_windowParts, faded_windowParts, hp, ho]
  have hjoin := congrArg (Fragment.join " ") hparts
  rw [← faded_join, ← faded_join] at hjoin
  exact hjoin

theorem optionalWindow_same (w : Option Window) :
    Same (Option.map faded) (optionalWindow d (Blank.optionalWindow w)) (optionalWindow d w) := by
  cases w with
  | none => rfl
  | some w =>
    rw [Blank.optionalWindow, optionalWindow, optionalWindow]
    refine (window_same w).bind fun f f' hf => Same.pure ?_
    exact congrArg some hf

theorem terms_same (ts : List OrderTerm) :
    Same (List.map faded) (terms d (Blank.terms ts)) (terms d ts) := by
  cases ts with
  | nil => rfl
  | cons t ts =>
    cases t with
    | mk e direction =>
    rw [Blank.terms, terms, terms]
    refine (expr_same e).bind fun f f' hf => ?_
    refine (terms_same ts).bind fun fs fs' hfs => Same.pure ?_
    rw [List.map_cons, List.map_cons, faded_append, faded_append, hf, hfs]

end

theorem requireReturned_blank (e : Expr) :
    requireReturned d (Blank.expr e) = requireReturned d e := by
  cases e with
  | named e name => rw [Blank.expr, requireReturned, requireReturned, Blank.isColumn_expr]
  | _ => rfl

theorem requireAllReturned_blank (es : List Expr) :
    requireAllReturned d (Blank.exprs es) = requireAllReturned d es := by
  induction es with
  | nil => rfl
  | cons e es ih =>
    rw [Blank.exprs, requireAllReturned, requireAllReturned, requireReturned_blank, ih]

theorem returning_same (items : List Expr) :
    Same faded (returning d (Blank.exprs items)) (returning d items) := by
  rw [returning, returning, Blank.exprs_isEmpty, requireAllReturned_blank]
  split
  · rfl
  · refine (Same.refl (g := id) _).bind fun _ _ _ => ?_
    refine (Same.refl (g := id) _).bind fun _ _ _ => ?_
    refine (itemList_same d items).bind fun fs fs' hfs => Same.pure ?_
    rw [faded_clause, faded_clause, faded_join, faded_join, hfs]

theorem rowList_same (rows : List (List Expr)) :
    Same (List.map faded) (rowList d (rows.map Blank.exprs)) (rowList d rows) := by
  induction rows with
  | nil => rfl
  | cons row rows ih =>
    rw [List.map_cons, rowList, rowList]
    refine (exprs_same d row).bind fun fs fs' hfs => ?_
    refine ih.bind fun gs gs' hgs => Same.pure ?_
    rw [List.map_cons, List.map_cons, faded_enclosed, faded_enclosed, faded_join, faded_join, hfs,
      hgs]

theorem assignments_same (as : List Assignment) :
    Same (List.map faded) (assignments d (as.map Blank.assignment)) (assignments d as) := by
  induction as with
  | nil => rfl
  | cons a as ih =>
    rw [List.map_cons, assignments, assignments]
    refine (expr_same d a.value).bind fun f f' hf => ?_
    refine ih.bind fun fs fs' hfs => Same.pure ?_
    rw [List.map_cons, List.map_cons, faded_append, faded_append, hf, hfs]
    rfl

/-- A statement and its blank fail alike, or have the same text around as many values. -/
theorem statement_same (s : Statement) :
    Same faded (statement d (Blank.statement s)) (statement d s) := by
  cases s with
  | query q => exact query_same d q
  | insert p =>
    change Same faded (insert d ⟨p.table, p.columns, p.rows.map Blank.exprs,
      Blank.exprs p.returning⟩) (insert d p)
    unfold insert
    dsimp only
    rw [List.length_map]
    refine Same.guard fun _ => ?_
    refine (rowList_same d p.rows).bind fun rows rows' hrows => ?_
    refine (returning_same d p.returning).bind fun r r' hr => Same.pure ?_
    simp only [faded_append, faded_text, faded_join, hrows, hr]
  | update p =>
    change Same faded (update d ⟨p.table, p.assignments.map Blank.assignment,
      Blank.optional p.condition, Blank.exprs p.returning⟩) (update d p)
    unfold update
    dsimp only
    refine (assignments_same d p.assignments).bind fun as as' has => ?_
    refine (optional_same d p.condition).bind fun c c' hc => ?_
    refine (returning_same d p.returning).bind fun r r' hr => Same.pure ?_
    simp only [faded_append, faded_text, faded_join, faded_optionalClause, has, hc, hr]
  | delete p =>
    change Same faded (delete d ⟨p.table, Blank.optional p.condition, Blank.exprs p.returning⟩)
      (delete d p)
    unfold delete
    dsimp only
    refine (optional_same d p.condition).bind fun c c' hc => ?_
    refine (returning_same d p.returning).bind fun r r' hr => Same.pure ?_
    simp only [faded_append, faded_text, faded_optionalClause, hc, hr]

end Sql

/-- What can be seen of a compiled statement without its values. -/
def Compiled.outline (c : Compiled) : String × Nat := (c.sql, c.bindings.length)

/-- A statement and its blank fail alike, or compile to the same text with as many values. -/
theorem compile_blank (d : Dialect) (s : Statement) :
    Same Compiled.outline (compile d (Blank.statement s)) (compile d s) := by
  rw [compile, compile, Blank.check_statement]
  refine (Same.refl (g := id) _).bind fun _ _ _ => ?_
  refine (Sql.statement_same d s).bind fun f f' hf => Same.pure ?_
  exact Prod.ext (Fragment.sql_eq_of_faded hf d) (Fragment.length_eq_of_faded hf)

theorem compile_parameters {d : Dialect} {s : Statement} {c : Compiled} (h : compile d s = .ok c) :
    c.parameters = (Slots.statement d s).map Slot.value := by
  obtain ⟨f, _, hf, rfl⟩ := compile_ok h
  have hvalue : Binding.value ∘ Slot.binding = Slot.value := funext Slot.binding_value
  rw [← hvalue, ← List.map_map, ← Sql.statement_bindings s hf]
  rfl

/-- Places that differ at most in their values and hold the same value are the same. -/
theorem Slot.eq_of_given {a b : Slot} (hplace : Blank.place a = Blank.place b)
    (hgiven : a.given = b.given) : a = b := by
  cases a with
  | literal v hint =>
    cases b with
    | literal w hint' =>
      have hhint := (Slot.literal.inj hplace).2
      have hv : v = w := hgiven
      rw [hv, hhint]
    | parameter w => cases hplace
  | parameter v =>
    cases b with
    | literal w hint' => cases hplace
    | parameter w => exact congrArg Slot.parameter hgiven

/-- Two statements that differ only in their values fail with the same error, or compile to the same
text with equally many parameters, which differ at most where the statements hold different
values. -/
theorem compile_values_apart (d : Dialect) {s t : Statement}
    (h : Blank.statement s = Blank.statement t) :
    (∃ e, compile d s = .error e ∧ compile d t = .error e) ∨
    ∃ a b, compile d s = .ok a ∧ compile d t = .ok b ∧ a.sql = b.sql ∧
      a.parameters.length = b.parameters.length ∧
      a.parameters = (Slots.statement d s).map Slot.value ∧
      b.parameters = (Slots.statement d t).map Slot.value ∧
      ∀ i : Nat,
        (Slots.statement d s)[i]?.map Slot.given = (Slots.statement d t)[i]?.map Slot.given →
        a.parameters[i]? = b.parameters[i]? := by
  have hs := compile_blank d s
  have ht := compile_blank d t
  rw [h] at hs
  have hboth : Same Compiled.outline (compile d s) (compile d t) := hs.symm.trans ht
  rcases hboth.elim with ⟨e, hes, het⟩ | ⟨a, b, ha, hb, hab⟩
  · exact .inl ⟨e, hes, het⟩
  · have hsql : a.sql = b.sql := congrArg Prod.fst hab
    have hlength : a.bindings.length = b.bindings.length := congrArg Prod.snd hab
    have hpa := compile_parameters ha
    have hpb := compile_parameters hb
    refine .inr ⟨a, b, ha, hb, hsql, ?_, hpa, hpb, fun i hi => ?_⟩
    · rw [Compiled.parameters, Compiled.parameters, List.length_map, List.length_map, hlength]
    · -- the places of both statements are of the same kind, so equal values make equal places
      have hplaces : (Slots.statement d s).map Blank.place =
          (Slots.statement d t).map Blank.place := by
        rw [← Blank.slots_statement, ← Blank.slots_statement, h]
      have hplace := congrArg (fun slots => slots[i]?) hplaces
      simp only [List.getElem?_map] at hplace
      rw [hpa, hpb, List.getElem?_map, List.getElem?_map]
      cases hx : (Slots.statement d s)[i]? with
      | none =>
        rw [hx] at hplace
        cases hy : (Slots.statement d t)[i]? with
        | none => rfl
        | some y => rw [hy] at hplace; cases hplace
      | some x =>
        rw [hx] at hplace hi
        cases hy : (Slots.statement d t)[i]? with
        | none => rw [hy] at hplace; cases hplace
        | some y =>
          rw [hy] at hplace hi
          have hxy := Slot.eq_of_given (Option.some.inj hplace) (Option.some.inj hi)
          rw [hxy]

/-- A condition on a name in a list, with the values that are given. -/
def nameQuery (first second raw : Value) : Statement := .query (.select
  { SelectPlan.all (some (.table "t" none)) with
    condition := some (.binary .and
      (.inList (.column none "name" none)
        [.literal first ⟨"string", none, none⟩, .literal second ⟨"string", none, none⟩] true)
      (.raw "lower(name) = ?" [raw])) })

theorem compile_values_apart_nameQuery :
    let s := nameQuery (.string "a") (.string "b") (.string "c")
    let t := nameQuery (.string "'; DROP TABLE t; --") (.string "b") .undefined
    Blank.statement s = Blank.statement t ∧
    ∃ a b, compile (.make .mysql none) s = .ok a ∧ compile (.make .mysql none) t = .ok b ∧
      a.sql = b.sql ∧ a.parameters.length = b.parameters.length ∧
      a.parameters[1]? = b.parameters[1]? := by
  intro s t
  have hblank : Blank.statement s = Blank.statement t := rfl
  obtain ⟨c, hc, _⟩ := compile_of_sql (d := .make .mysql none) (s := s)
    "SELECT * FROM t WHERE name NOT IN (?, ?) AND lower(name) = ?" (by decide +kernel)
  rcases compile_values_apart (.make .mysql none) hblank with
    ⟨e, he, _⟩ | ⟨a, b, ha, hb, hsql, hlength, _, _, hvalues⟩
  · rw [hc] at he
    cases he
  · exact ⟨hblank, a, b, ha, hb, hsql, hlength, hvalues 1 rfl⟩

end PolyQuery
