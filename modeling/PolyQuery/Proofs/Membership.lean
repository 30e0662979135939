import Mathlib.Algebra.Order.Floor.Div
import Mathlib.GroupTheory.GroupAction.Ring
import PolyQuery.Expr.Build
import PolyQuery.Proofs.Evaluation
import PolyQuery.Proofs.Portable

/-! Membership in a long list. Where a server limits the lists of membership tests, one test is
written as several tests of the same operand, with `OR` between them, or `AND` if it is negated. The
lists of these tests are the long list in pieces, and together the tests have the truth value of the
one test, whatever the operand and the values are: `membership_split`. -/
namespace PolyQuery

/-! ## Pieces of a list -/

namespace Sql
variable {α : Type} {size fuel : Nat} {xs : List α}

/-- Every piece has an element, and none is longer than the limit. -/
theorem length_of_mem_chunks (hsize : 0 < size) {part : List α}
    (hpart : part ∈ chunks size fuel xs) : 1 ≤ part.length ∧ part.length ≤ size := by
  induction fuel generalizing xs with
  | zero => cases hpart
  | succ fuel ih =>
    cases xs with
    | nil => cases hpart
    | cons x xs =>
      rw [chunks, if_neg (by simp)] at hpart
      rcases List.mem_cons.1 hpart with rfl | hpart
      · rw [List.length_take, List.length_cons]
        omega
      · exact ih hpart

/-- A list has as many pieces as the limit goes into its length, counting a rest. -/
theorem length_chunks (hsize : 0 < size) (hfuel : xs.length ≤ fuel) :
    (chunks size fuel xs).length = xs.length ⌈/⌉ size := by
  induction fuel generalizing xs with
  | zero =>
    obtain rfl := List.length_eq_zero_iff.1 (Nat.le_zero.1 hfuel)
    simp [chunks]
  | succ fuel ih =>
    cases xs with
    | nil => simp [chunks]
    | cons x xs =>
      have hdrop : ((x :: xs).drop size).length = xs.length + 1 - size := by
        rw [List.length_drop, List.length_cons]
      have hrest : ((x :: xs).drop size).length ≤ fuel := by
        rw [List.length_cons] at hfuel
        omega
      rw [chunks, if_neg (by simp), List.length_cons, ih hrest, hdrop, List.length_cons,
        Nat.ceilDiv_eq_add_pred_div, Nat.ceilDiv_eq_add_pred_div]
      -- one piece less than before, of a list that is shorter by one limit or has no rest
      by_cases hle : size ≤ xs.length + 1
      · have hsplit : xs.length + 1 + size - 1 = xs.length + 1 - size + size - 1 + size := by omega
        rw [hsplit, Nat.add_div_right _ hsize]
      · have hnone : xs.length + 1 - size + size - 1 = size - 1 := by omega
        have hone : xs.length + 1 + size - 1 = xs.length + size := by omega
        rw [hnone, hone, Nat.div_eq_of_lt (by omega), Nat.add_div_right _ hsize,
          Nat.div_eq_of_lt (by omega)]

end Sql

/-! ## Truth values -/

section Truth
variable {κ : Type} [DecidableEq κ]

/-- Whether a datum is among others, or whether it is not. -/
def Datum.membership? (a : Datum κ) (negated : Bool) (data : List (Datum κ)) : Option (Datum κ) :=
  if negated then (a.among data).not else some (a.among data)

/-- The operator between the tests of a long list. -/
def connective (negated : Bool) : BinaryOp := if negated then .and else .or

/-- Two tests with the operator between them are one test of both lists. -/
theorem Datum.membership?_append (a : Datum κ) (negated : Bool) (xs ys : List (Datum κ)) :
    (do let l ← a.membership? negated xs
        let r ← a.membership? negated ys
        (connective negated).datum? l r) = a.membership? negated (xs ++ ys) := by
  unfold membership? among
  rw [List.any_append, List.any_append]
  -- whether an equal datum is there, and whether one is that might be equal, on either side
  generalize xs.any (fun b => decide (a.equal b = .truth true)) = equalLeft
  generalize ys.any (fun b => decide (a.equal b = .truth true)) = equalRight
  generalize xs.any (fun b => decide (a.equal b = .null)) = openLeft
  generalize ys.any (fun b => decide (a.equal b = .null)) = openRight
  cases negated <;> cases equalLeft <;> cases equalRight <;> cases openLeft <;> cases openRight <;>
    rfl

/-- A test has a truth value, which may be unknown. -/
theorem Datum.exists_membership? (a : Datum κ) (negated : Bool) (data : List (Datum κ)) :
    ∃ v, a.membership? negated data = some v := by
  unfold membership? among
  cases negated with
  | false => exact ⟨_, rfl⟩
  | true =>
    rw [if_pos rfl]
    split_ifs
    · exact ⟨_, rfl⟩
    · exact ⟨_, rfl⟩
    · exact ⟨_, rfl⟩

/-- What a condition gives, where every other expression in it has the given value, the same
wherever it stands. -/
def Expr.verdict? (value : Expr → Datum κ) : Expr → Option (Datum κ)
  | .binary op left right => do
    let a ← left.verdict? value
    let b ← right.verdict? value
    op.datum? a b
  | .inList operand values negated => (value operand).membership? negated (values.map value)
  | e => some (value e)

/-- The first of the conditions in a chain is taken into the one before them. -/
theorem Expr.chain_cons (op : BinaryOp) (e next : Expr) (rest : List Expr) :
    chain op e (next :: rest) = chain op (.binary op e next) rest := rfl

/-- Tests of one operand in a chain are one test of all their lists. -/
theorem Expr.verdict?_chain (value : Expr → Datum κ) (operand : Expr) (negated : Bool) (e : Expr)
    (values : List Expr) (groups : List (List Expr))
    (he : e.verdict? value = (Expr.inList operand values negated).verdict? value) :
    (chain (connective negated) e (groups.map (.inList operand · negated))).verdict? value =
      (Expr.inList operand (values ++ groups.flatten) negated).verdict? value := by
  induction groups generalizing e values with
  | nil =>
    rw [List.flatten_nil, List.append_nil]
    exact he
  | cons group groups ih =>
    rw [List.map_cons, chain_cons, List.flatten_cons, ← List.append_assoc]
    -- what is tested so far, with one more test, is a test of the lists so far, with one more list
    apply ih
    rw [verdict?, he, verdict?, verdict?, verdict?, List.map_append]
    exact Datum.membership?_append _ _ _ _

end Truth

/-! ## Texts -/

namespace Sql
variable {d : Dialect}

/-- The list of a membership test in the pieces that the server accepts. -/
def groups (d : Dialect) (values : List Expr) : List (List Expr) :=
  chunks (d.maxInList.getD values.length) values.length values

/-- The text of a membership test with one list. -/
def listTest (negated : Bool) (operand : Fragment) (list : List Fragment) : Fragment :=
  operand ++ Fragment.text (" " ++ membershipKeyword negated ++ " (") ++ Fragment.join ", " list ++
    Fragment.text ")"

/-- The text between two tests. -/
def between (negated : Bool) : String := if negated then " AND " else " OR "

theorem exprs_append (es es' : List Expr) :
    exprs d (es ++ es') = (do
      let fs ← exprs d es
      let fs' ← exprs d es'
      return fs ++ fs') := by
  induction es with
  | nil =>
    change exprs d es' = (exprs d es' >>= fun fs' => .ok ([] ++ fs'))
    cases exprs d es' <;> rfl
  | cons e es ih =>
    rw [List.cons_append, exprs, exprs, ih]
    simp

/-- A first piece of full size, or without anything behind it, is cut off again. -/
theorem chunks_append {α : Type} {size fuel : Nat} {xs ys : List α} (hne : xs ≠ [])
    (h : xs.length = size ∨ ys = [] ∧ xs.length ≤ size) :
    chunks size (fuel + 1) (xs ++ ys) = xs :: chunks size fuel ys := by
  have htake : (xs ++ ys).take size = xs ∧ (xs ++ ys).drop size = ys := by
    rcases h with rfl | ⟨rfl, hle⟩
    · exact ⟨List.take_left, List.drop_left⟩
    · rw [List.append_nil]
      exact ⟨List.take_of_length_le hle, List.drop_of_length_le hle⟩
  rw [chunks, if_neg (by simp [hne]), htake.1, htake.2]

/-- The pieces of a list are written as the pieces of what is written for the list. -/
theorem mapM_exprs_chunks {size fuel : Nat} {es : List Expr} (hsize : 0 < size)
    (hfuel : es.length ≤ fuel) :
    (chunks size fuel es).mapM (exprs d) = (do
      let fs ← exprs d es
      return chunks size fuel fs) := by
  induction fuel generalizing es with
  | zero =>
    obtain rfl := List.length_eq_zero_iff.1 (Nat.le_zero.1 hfuel)
    rfl
  | succ fuel ih =>
    cases es with
    | nil => rfl
    | cons e es =>
      have hlength : (e :: es).length = es.length + 1 := List.length_cons
      have hrest : ((e :: es).drop size).length ≤ fuel := by
        rw [List.length_drop]
        omega
      have hsplit : exprs d (e :: es) = exprs d ((e :: es).take size ++ (e :: es).drop size) := by
        rw [List.take_append_drop]
      rw [chunks, if_neg (by simp), List.mapM_cons, ih hrest, hsplit, exprs_append]
      cases hfirst : exprs d ((e :: es).take size) with
      | error err => rfl
      | ok fs =>
        cases hlast : exprs d ((e :: es).drop size) with
        | error err => rfl
        | ok gs =>
          -- there is a text for each expression, so the texts are cut at the same places
          have hfs : fs.length = min size (e :: es).length := by
            rw [length_exprs hfirst, List.length_take]
          have hgs : gs.length = (e :: es).length - size := by
            rw [length_exprs hlast, List.length_drop]
          have hcut : chunks size (fuel + 1) (fs ++ gs) = fs :: chunks size fuel gs := by
            apply chunks_append
            · apply List.ne_nil_of_length_pos
              omega
            · by_cases hle : size ≤ es.length + 1
              · left
                omega
              · right
                refine ⟨List.length_eq_zero_iff.1 ?_, ?_⟩ <;> omega
          change Except.ok (fs :: chunks size fuel gs) =
            Except.ok (chunks size (fuel + 1) (fs ++ gs))
          rw [hcut]

/-- A membership test is written as one test for each piece of its list. -/
theorem expr_inList_groups (e : Expr) {values : List Expr} (hne : values ≠ []) (negated : Bool) :
    expr d (.inList e values negated) = (do
      let f ← expr d e
      let lists ← (groups d values).mapM (exprs d)
      return match lists.map (listTest negated (predicateOperand e f)) with
        | [t] => t
        | ts => (Fragment.join (between negated) ts).enclosed) := by
  have hsize := Dialect.chunkSize_pos (d := d) hne
  have hlists := mapM_exprs_chunks (d := d) hsize (Nat.le_refl values.length)
  rw [expr, if_neg (by simpa using hne), groups, hlists]
  cases expr d e with
  | error err => rfl
  | ok f =>
    cases hfs : exprs d values with
    | error err => rfl
    | ok fs =>
      rw [← length_exprs hfs]
      rfl

/-- Conditions with an operator between them are written side by side. -/
theorem expr_chain (negated : Bool) (e : Expr) (tests : List Expr)
    (he : e.needsParens (connective negated) .left = false)
    (htests : ∀ t ∈ tests, t.needsParens (connective negated) .right = false) :
    expr d (Expr.chain (connective negated) e tests) = (do
      let f ← expr d e
      let fs ← exprs d tests
      return Fragment.join (between negated) (f :: fs)) := by
  induction tests generalizing e with
  | nil =>
    change expr d e = _
    cases expr d e <;> rfl
  | cons t ts ih =>
    obtain ⟨ht, hts⟩ := List.forall_mem_cons.1 htests
    have hboth : (Expr.binary (connective negated) e t).needsParens (connective negated) .left =
        false := by
      cases negated <;> rfl
    have hsymbol : " " ++ (connective negated).symbol ++ " " = between negated := by
      cases negated <;> rfl
    rw [Expr.chain_cons, ih _ hboth hts, expr, exprs]
    cases expr d e with
    | error err => rfl
    | ok f =>
      cases expr d t with
      | error err => rfl
      | ok g =>
        cases exprs d ts with
        | error err => rfl
        | ok gs =>
          -- the first two conditions are one operand of the rest
          have hoperands : operand (connective negated) .left e f = f ∧
              operand (connective negated) .right t g = g := by
            rw [operand, he, operand, ht]
            exact ⟨rfl, rfl⟩
          have hjoin : Fragment.join (between negated)
              ((f ++ Fragment.text (between negated) ++ g) :: gs) =
                Fragment.join (between negated) (f :: g :: gs) := by
            cases gs with
            | nil => rfl
            | cons k ks =>
              rw [Fragment.join_cons_cons, Fragment.join_cons_cons, Fragment.join_cons_cons]
              simp only [Fragment.append_assoc]
          change Except.ok (Fragment.join (between negated)
            ((operand (connective negated) .left e f ++
              Fragment.text (" " ++ (connective negated).symbol ++ " ") ++
              operand (connective negated) .right t g) :: gs)) = _
          rw [hoperands.1, hoperands.2, hsymbol, hjoin]
          rfl

/-- A list that is not split is written as one test. -/
theorem expr_shortList (e : Expr) (negated : Bool) {list : List Expr} (h : groups d list = [list]) :
    expr d (.inList e list negated) = (do
      let f ← expr d e
      let fs ← exprs d list
      return listTest negated (predicateOperand e f) fs) := by
  have hne : list ≠ [] := by
    rintro rfl
    cases h
  rw [expr_inList_groups e hne negated, h, List.mapM_cons, List.mapM_nil]
  cases expr d e with
  | error err => rfl
  | ok f => cases exprs d list <;> rfl

/-- Several such tests of one operand. -/
theorem exprs_tests (e : Expr) (negated : Bool) {lists : List (List Expr)} (hne : lists ≠ [])
    (hlists : ∀ list ∈ lists, groups d list = [list]) :
    exprs d (lists.map (.inList e · negated)) = (do
      let f ← expr d e
      let written ← lists.mapM (exprs d)
      return written.map (listTest negated (predicateOperand e f))) := by
  cases he : expr d e with
  | error err =>
    obtain ⟨list, rest, rfl⟩ := List.exists_cons_of_ne_nil hne
    rw [List.map_cons, exprs, expr_shortList e negated (hlists list List.mem_cons_self), he]
    rfl
  | ok f =>
    -- the operand is written; behind the first test there may be none
    clear hne
    induction lists with
    | nil => rfl
    | cons list rest ih =>
      obtain ⟨hlist, hrest⟩ := List.forall_mem_cons.1 hlists
      rw [List.map_cons, exprs, expr_shortList e negated hlist, he, ih hrest, List.mapM_cons]
      cases exprs d list with
      | error err => rfl
      | ok fs => cases rest.mapM (exprs d) <;> rfl

/-- The chain of the tests of several pieces. -/
theorem expr_splitTests (e : Expr) (negated : Bool) {first : List Expr} {rest : List (List Expr)}
    (hlists : ∀ list ∈ first :: rest, groups d list = [list]) :
    expr d (Expr.chain (connective negated) (.inList e first negated)
        (rest.map (.inList e · negated))) = (do
      let f ← expr d e
      let lists ← (first :: rest).mapM (exprs d)
      return Fragment.join (between negated)
        (lists.map (listTest negated (predicateOperand e f)))) := by
  -- a test never needs brackets beside the operator that joins the tests
  have hplain (list : List Expr) (side : Side) :
      (Expr.inList e list negated).needsParens (connective negated) side = false := by
    cases negated <;> cases side <;> rfl
  have htests : ∀ t ∈ rest.map (Expr.inList e · negated),
      t.needsParens (connective negated) .right = false := by
    intro t ht
    obtain ⟨list, _, rfl⟩ := List.mem_map.1 ht
    exact hplain list .right
  have hall := exprs_tests e negated (List.cons_ne_nil first rest) hlists
  rw [List.map_cons, exprs] at hall
  calc expr d (Expr.chain (connective negated) (.inList e first negated)
        (rest.map (.inList e · negated)))
      = (do
        let tests ← (do
          let t ← expr d (.inList e first negated)
          let ts ← exprs d (rest.map (.inList e · negated))
          return t :: ts)
        return Fragment.join (between negated) tests) := by
        rw [expr_chain negated _ _ (hplain first .left) htests]
        simp
    _ = _ := by
        rw [hall]
        simp

/-- The tests of several pieces stand between brackets, the test of a single one does not. -/
theorem expr_bracketed (e : Expr) {values first : List Expr} {rest : List (List Expr)}
    (hne : values ≠ []) (negated : Bool) (hgroups : groups d values = first :: rest) :
    expr d (.inList e values negated) = (do
      let f ← expr d e
      let lists ← (first :: rest).mapM (exprs d)
      let tests := Fragment.join (between negated)
        (lists.map (listTest negated (predicateOperand e f)))
      return if rest = [] then tests else tests.enclosed) := by
  rw [expr_inList_groups e hne negated, hgroups, List.mapM_cons]
  cases expr d e with
  | error err => rfl
  | ok f =>
    -- the fragments are made in the same order on both sides, so the first fault is the same
    cases exprs d first with
    | error err => rfl
    | ok fs =>
      cases rest with
      | nil => rfl
      | cons second rest =>
        rw [List.mapM_cons]
        cases exprs d second with
        | error err => rfl
        | ok gs => cases rest.mapM (exprs d) <;> rfl

/-- A piece is not split again. -/
theorem groups_group {values group : List Expr} (hne : values ≠ [])
    (hgroup : group ∈ groups d values) : groups d group = [group] := by
  obtain ⟨hpos, hle⟩ := length_of_mem_chunks (Dialect.chunkSize_pos hne) hgroup
  apply chunks_whole (List.ne_nil_of_length_pos hpos) rfl
  cases hlimit : d.maxInList with
  | none => exact Nat.le_refl _
  | some limit =>
    rw [hlimit] at hle
    exact hle

end Sql

/-- A membership test with a list of any length is written as tests of its operand with pieces of
the list, as few as the server allows, which stand between brackets if there are several. The pieces
put together are the list, and the tests put together have the truth value of the test, whatever
values the expressions have. -/
theorem membership_split (d : Dialect) (e : Expr) {values : List Expr} (hne : values ≠ [])
    (negated : Bool) : ∃ first rest,
      (first :: rest).flatten = values ∧
      (first :: rest).length = (d.maxInList.map (values.length ⌈/⌉ ·)).getD 1 ∧
      (∀ group ∈ first :: rest,
        1 ≤ group.length ∧ ∀ limit, d.maxInList = some limit → group.length ≤ limit) ∧
      (Sql.expr d (.inList e values negated) = do
        let f ← Sql.expr d e
        let lists ← (first :: rest).mapM (Sql.exprs d)
        let tests := Fragment.join (if negated then " AND " else " OR ") (lists.map fun list =>
          Sql.predicateOperand e f ++ Fragment.text (if negated then " NOT IN (" else " IN (") ++
            Fragment.join ", " list ++ Fragment.text ")")
        return if rest = [] then tests else tests.enclosed) ∧
      let split := Expr.chain (if negated then .and else .or) (.inList e first negated)
        (rest.map (.inList e · negated))
      (Sql.expr d (.inList e values negated) = do
        let tests ← Sql.expr d split
        return if rest = [] then tests else tests.enclosed) ∧
      ∀ {κ : Type} [DecidableEq κ] (value : Expr → Datum κ), ∃ verdict,
        (Expr.inList e values negated).verdict? value = some verdict ∧
          split.verdict? value = some verdict := by
  have hsize := Dialect.chunkSize_pos (d := d) hne
  have hflatten : (Sql.groups d values).flatten = values :=
    Sql.flatten_chunks hsize (Nat.le_refl _)
  have hsome : Sql.groups d values ≠ [] := by
    intro hnone
    rw [hnone] at hflatten
    exact hne hflatten.symm
  obtain ⟨first, rest, hgroups⟩ := List.exists_cons_of_ne_nil hsome
  -- a piece alone is no longer than the limit, so each of the tests is written as it is
  have hwhole : ∀ group ∈ first :: rest, Sql.groups d group = [group] := by
    intro group hgroup
    rw [← hgroups] at hgroup
    exact Sql.groups_group hne hgroup
  have htext := Sql.expr_bracketed e hne negated hgroups
  have htests := Sql.expr_splitTests e negated hwhole
  rw [hgroups] at hflatten
  refine ⟨first, rest, hflatten, ?_, ?_, ?_, ?_, ?_⟩
  · rw [← hgroups, Sql.groups, Sql.length_chunks hsize (Nat.le_refl _)]
    cases d.maxInList with
    | some limit => rfl
    | none =>
      -- without a limit the list is one piece of its own length
      have hlength := List.length_pos_iff.2 hne
      have hdouble : values.length + values.length - 1 = values.length - 1 + values.length := by
        omega
      change values.length ⌈/⌉ values.length = 1
      rw [Nat.ceilDiv_eq_add_pred_div, hdouble, Nat.add_div_right _ hlength,
        Nat.div_eq_of_lt (by omega)]
  · intro group hgroup
    rw [← hgroups] at hgroup
    obtain ⟨hpos, hle⟩ := Sql.length_of_mem_chunks hsize hgroup
    refine ⟨hpos, fun limit hlimit => ?_⟩
    rw [hlimit] at hle
    exact hle
  · cases negated with
    | true => exact htext
    | false => exact htext
  · change _ = (do
      let tests ← Sql.expr d (Expr.chain (connective negated) (.inList e first negated)
        (rest.map (.inList e · negated)))
      return if rest = [] then tests else tests.enclosed)
    rw [htext, htests]
    simp
  · intro κ _ value
    obtain ⟨verdict, hverdict⟩ := Datum.exists_membership? (value e) negated (values.map value)
    have hchain := Expr.verdict?_chain value e negated (.inList e first negated) first rest rfl
    rw [← List.flatten_cons, hflatten] at hchain
    exact ⟨verdict, hverdict, hchain.trans hverdict⟩

/-- More numbers than two lists of an Oracle server may have. -/
def manyNumbers : List Expr :=
  (List.range 2001).map fun n : Nat =>
    .literal (.number (.int (Int.ofNat n))) ⟨"number", none, none⟩

theorem membership_split_manyNumbers : manyNumbers ≠ [] ∧ ∃ first second third,
    first ++ second ++ third = manyNumbers ∧
    first.length ≤ 1000 ∧ second.length ≤ 1000 ∧ third.length ≤ 1000 ∧
    (Sql.expr (.make .oracle none) (.inList (.column none "id" none) manyNumbers true) = do
      let f ← Sql.expr (.make .oracle none) (.column none "id" none)
      let lists ← [first, second, third].mapM (Sql.exprs (.make .oracle none))
      return (Fragment.join " AND " (lists.map fun list =>
        Sql.predicateOperand (.column none "id" none) f ++ Fragment.text " NOT IN (" ++
          Fragment.join ", " list ++ Fragment.text ")")).enclosed) := by
  have hlength : manyNumbers.length = 2001 := by
    rw [manyNumbers, List.length_map, List.length_range]
  have hne : manyNumbers ≠ [] := by
    apply List.ne_nil_of_length_pos
    omega
  obtain ⟨first, rest, hflatten, hcount, hsizes, htext, -⟩ :=
    membership_split (.make .oracle none) (.column none "id" none) hne true
  have hthree : rest.length = 2 := by
    rw [hlength, List.length_cons] at hcount
    -- groups of a thousand at most: there are three of them
    have hgroups : rest.length + 1 = 2001 ⌈/⌉ 1000 := hcount
    rw [Nat.ceilDiv_eq_add_pred_div] at hgroups
    omega
  obtain ⟨second, third, rfl⟩ := List.length_eq_two.1 hthree
  have hmax (group : List Expr) (hgroup : group ∈ [first, second, third]) : group.length ≤ 1000 :=
    (hsizes group hgroup).2 1000 rfl
  refine ⟨hne, first, second, third, ?_, hmax _ (by simp), hmax _ (by simp), hmax _ (by simp),
    htext⟩
  rw [← hflatten]
  simp

end PolyQuery
