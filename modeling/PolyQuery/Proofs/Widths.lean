import Mathlib.Algebra.GroupWithZero.Nat
import PolyQuery.Builder.Combined
import PolyQuery.Model.Condition
import PolyQuery.Proofs.Validity

/-! How many columns the selections of a combination have. A star stands for all columns of a
source, whose number is not known before the query runs; a combination is accepted where the numbers
are the same for every assignment of widths to tables, as far as its stars are over sources of their
own selections: `checked_widths`. -/
namespace PolyQuery

/-! ## Widths -/

/-- The numbers of columns that stars stand for: those of tables, of queries in the place of tables,
and of what a name refers to in the queries around. -/
structure Widths where
  table : String → Nat
  query : Query → Nat
  outer : String → Nat

/-- The number of columns of a source. -/
def Source.width (w : Widths) : Source → Nat
  | .table name _ => w.table name
  | .query q _ => w.query q

/-- Whether a source is meant by a name: by its alias, or if it has none, by the name of the table
with or without its qualifiers. -/
def Source.answersTo (name : String) : Source → Bool
  | .table whole shown =>
    match shown.filter (· ≠ "") with
    | some a => a == name
    | none => whole == name || unqualified whole == name
  | .query _ shown => shown == name

/-- The number of columns that an item stands for among these sources. -/
def Expr.width (w : Widths) (sources : List Source) : Expr → Nat
  | .star none => (sources.map (Source.width w)).sum
  | .star (some name) =>
    if name = "" then (sources.map (Source.width w)).sum
    else match sources.find? (Source.answersTo name) with
      | some s => s.width w
      | none => w.outer name
  | _ => 1

/-- The number of columns of a selection, all columns of its sources if it lists no items. -/
def SelectPlan.width (w : Widths) (p : SelectPlan) : Nat :=
  if p.items.isEmpty then (p.sources.map (Source.width w)).sum
  else (p.items.map (Expr.width w p.sources)).sum

/-- Every star of a selection is over sources of this selection: no name stands before it, or the
name of one of them. -/
def SelectPlan.StarsOwn (p : SelectPlan) : Prop :=
  ∀ name, .star (some name) ∈ p.items → name ≠ "" → ∃ s ∈ p.sources, s.answersTo name = true

/-- An arity tells a number of columns. -/
def Arity.Describes (w : Widths) : Arity → Nat → Prop
  | .count m, n => n = m
  | .wildcard (some table), n => n = w.table table
  | .wildcard none, _ => True

mutual

/-- The selections that a query combines, from the left. -/
def Query.leaves : Query → List SelectPlan
  | .select p => [p]
  | .combined p => p.leaves

/-- The selections on both sides of a combination. -/
def SetPlan.leaves : SetPlan → List SelectPlan
  | ⟨_, _, left, right, _, _, _⟩ => left.leaves ++ right.leaves

end

/-! ## One selection -/

namespace SelectPlan
variable {p : SelectPlan}

/-- A selection with a counted arity lists so many items and no star. -/
theorem items_of_count {n : Nat} (h : p.arity = .count n) :
    p.items ≠ [] ∧ (∀ e ∈ p.items, e.isStar = false) ∧ p.items.length = n := by
  unfold arity at h
  split at h
  · split at h <;> cases h
  · rename_i hlisted
    simp only [Bool.or_eq_true, List.isEmpty_iff, List.any_eq_true, not_or, not_exists, not_and,
      Bool.not_eq_true] at hlisted
    exact ⟨hlisted.1, hlisted.2, Arity.count.inj h⟩

/-- A selection with the arity of a table selects everything, and has this one source. -/
theorem items_of_wildcard {table : String} (h : p.arity = .wildcard (some table)) :
    (p.items = [] ∨ ∃ name, p.items = [.star name]) ∧
      ∃ shown, p.sources = [.table table shown] := by
  unfold arity at h
  split at h
  · rename_i hstars
    split at h
    · rename_i hsingle
      simp only [Bool.and_eq_true, List.isEmpty_iff, decide_eq_true_eq] at hsingle
      obtain ⟨hjoins, hshort⟩ := hsingle
      constructor
      -- no items stand for all columns, and so does a single star
      · match hitems : p.items, hstars, hshort with
        | [], _, _ => exact .inl rfl
        | [e], hstars, _ =>
          cases e with
          | star name => exact .inr ⟨name, rfl⟩
          | _ => cases hstars
      · obtain ⟨source, hsource, hname⟩ := Option.bind_eq_some_iff.1 (Arity.wildcard.inj h)
        cases source with
        | table name shown =>
          cases hname
          refine ⟨shown, ?_⟩
          rw [sources, hsource, hjoins]
          rfl
        | query q shown => cases hname
    · cases h
  · cases h

theorem width_of_count {n : Nat} (h : p.arity = .count n) (w : Widths) : p.width w = n := by
  obtain ⟨hne, hlisted, hlength⟩ := items_of_count h
  have hone : ∀ e ∈ p.items, e.width w p.sources = 1 := by
    intro e he
    cases e with
    | star name => cases hlisted _ he
    | _ => rfl
  rw [width, if_neg (by simpa using hne), List.map_congr_left hone, List.map_const', hlength,
    List.sum_replicate_nat, Nat.mul_one]

theorem starsOwn_of_count {n : Nat} (h : p.arity = .count n) : p.StarsOwn := by
  intro name hname
  obtain ⟨-, hlisted, -⟩ := items_of_count h
  cases hlisted _ hname

/-- Everything of a table is as wide as the table, unless the star is over something else. -/
theorem width_of_wildcard {table : String} (h : p.arity = .wildcard (some table)) :
    p.StarsOwn ∧ (∀ w, p.width w = w.table table) ∨
      ¬ p.StarsOwn ∧ ∃ name, ∀ w, p.width w = w.outer name := by
  obtain ⟨hitems, shown, hsources⟩ := items_of_wildcard h
  have hall (w : Widths) : (p.sources.map (Source.width w)).sum = w.table table := by
    rw [hsources]
    exact Nat.add_zero _
  rcases hitems with hnone | ⟨_ | name, hstar⟩
  · left
    refine ⟨fun name hname => ?_, fun w => ?_⟩
    · rw [hnone] at hname
      cases hname
    · rw [width, if_pos (by rw [hnone]; rfl), hall]
  · left
    refine ⟨fun name hname => ?_, fun w => ?_⟩
    · rw [hstar] at hname
      cases List.mem_singleton.1 hname
    · rw [width, if_neg (by rw [hstar]; decide), hstar]
      exact hall w
  · -- a star with a name: whether it is over the one source is whether this answers to the name
    have hwidth (w : Widths) : p.width w = (Expr.star (some name)).width w p.sources := by
      rw [width, if_neg (by rw [hstar]; exact Bool.false_ne_true), hstar]
      exact Nat.add_zero _
    have hown : p.StarsOwn ↔ (name ≠ "" → (Source.table table shown).answersTo name = true) := by
      unfold StarsOwn
      rw [hstar, hsources]
      simp
    by_cases hempty : name = ""
    · left
      refine ⟨hown.2 fun hne => absurd hempty hne, fun w => ?_⟩
      rw [hwidth, Expr.width, if_pos hempty, hall]
    · cases hanswers : (Source.table table shown).answersTo name with
      | true =>
        left
        refine ⟨hown.2 fun _ => hanswers, fun w => ?_⟩
        rw [hwidth, Expr.width, if_neg hempty, hsources, List.find?_cons_of_pos hanswers]
        rfl
      | false =>
        right
        refine ⟨fun h => ?_, name, fun w => ?_⟩
        · rw [hown.1 h hempty] at hanswers
          cases hanswers
        · rw [hwidth, Expr.width, if_neg hempty, hsources,
            List.find?_cons_of_neg (by rw [hanswers]; decide)]
          rfl

end SelectPlan

/-! ## All selections of a combination -/

/-- What the checks of a combination say of its operands. -/
theorem checkSet_ok {p : SetPlan} (h : Plan.checkQuery (.combined p) = .ok ()) :
    Plan.checkQuery p.left = .ok () ∧ Plan.checkQuery p.right = .ok () ∧ p.SameWidth := by
  obtain ⟨operator, all, left, right, orderBy, pagination, ctes⟩ := p
  rw [Plan.checkQuery, Plan.checkSet] at h
  obtain ⟨-, h⟩ := guarded_eq_ok h
  obtain ⟨_, hleft, h⟩ := bind_eq_ok.1 h
  obtain ⟨-, h⟩ := guarded_eq_ok h
  obtain ⟨_, hright, h⟩ := bind_eq_ok.1 h
  obtain ⟨_, hsame, -⟩ := bind_eq_ok.1 h
  exact ⟨hleft, hright, (Plan.checks_sameArity _).passes.1 hsame⟩

theorem SetPlan.SameWidth.arity {p : SetPlan} (h : p.SameWidth) : p.left.arity = p.right.arity := by
  rcases h with ⟨n, hleft, hright⟩ | ⟨t, hleft, hright⟩
  · rw [hleft, hright]
  · rw [hleft, hright]

theorem SetPlan.arity (p : SetPlan) : (Query.combined p).arity = p.left.arity := by
  obtain ⟨_, _, _, _, _, _, _⟩ := p
  rfl

/-- In a combination that passes the checks every selection has the arity of the whole. -/
theorem arity_of_mem_leaves {q : Query} (h : Plan.checkQuery q = .ok ()) :
    ∀ leaf ∈ q.leaves, leaf.arity = q.arity := by
  -- over the tree of combinations: the left side has the arity of the whole, the right side has it
  -- by the check of the combination itself
  refine Query.leaves.induct
    (fun q => Plan.checkQuery q = .ok () → ∀ leaf ∈ q.leaves, leaf.arity = q.arity)
    (fun p => Plan.checkQuery (.combined p) = .ok () →
      ∀ leaf ∈ p.leaves, leaf.arity = (Query.combined p).arity) ?_ ?_ ?_ q h
  · intro p _ leaf hleaf
    rw [Query.leaves, List.mem_singleton] at hleaf
    rw [hleaf]
    rfl
  · intro p ih hp
    exact ih hp
  · intro operator all left right orderBy pagination ctes ihleft ihright hp leaf hleaf
    obtain ⟨hleft, hright, hsame⟩ := checkSet_ok hp
    rw [SetPlan.arity]
    rw [SetPlan.leaves] at hleaf
    rcases List.mem_append.1 hleaf with hmem | hmem
    · exact ihleft hleft leaf hmem
    · exact (ihright hright leaf hmem).trans hsame.arity.symm

/-- A selection that lists its items, without a star. -/
def SelectPlan.Lists (p : SelectPlan) : Prop :=
  p.items ≠ [] ∧ ∀ e ∈ p.items, e.isStar = false

theorem SelectPlan.Lists.arity {p : SelectPlan} (h : p.Lists) :
    p.arity = .count p.items.length := by
  have hany : p.items.any Expr.isStar = false := List.any_eq_false.2 fun e he => by simp [h.2 e he]
  have hempty : p.items.isEmpty = false := List.isEmpty_eq_false_iff.2 h.1
  rw [SelectPlan.arity, hany, hempty]
  rfl

/-- Where both sides list their items, the numbers of items decide. -/
theorem checkSameArity_of_lists {left right : Query} (hleft : left.leftmost.Lists)
    (hright : right.leftmost.Lists) : checkSameArity left right =
      if left.leftmost.items.length = right.leftmost.items.length then .ok ()
      else .error (.arityMismatch (.columns left.leftmost.items.length)
        (.columns right.leftmost.items.length)) := by
  unfold checkSameArity
  rw [Query.arity, Query.arity, hleft.arity, hright.arity]
  simp [Arity.agrees, Arity.width]

/-- The widths of a combination. If it passes the checks, all its selections have the same width, as
its arity tells, for all widths of tables, exactly if no star in it is over a table of another
query. If both sides list their items, they pass for the same number of items and are refused for
different ones. -/
theorem checked_widths (p : SetPlan) :
    (Plan.checkQuery (.combined p) = .ok () →
      ((∀ w : Widths, ∃ n, (∀ leaf ∈ p.leaves, leaf.width w = n) ∧
          (Query.combined p).arity.Describes w n) ↔ ∀ leaf ∈ p.leaves, leaf.StarsOwn)) ∧
    (p.left.ctes = [] → p.right.ctes = [] →
      Plan.checkQuery p.left = .ok () → Plan.checkQuery p.right = .ok () →
      p.left.leftmost.Lists → p.right.leftmost.Lists →
      let m := p.left.leftmost.items.length
      let n := p.right.leftmost.items.length
      (combine p.left p.operator p.all p.right =
        if m = n then .ok ⟨p.operator, p.all, p.left, p.right, [], none, []⟩
        else .error (.arityMismatch (.columns m) (.columns n))) ∧
      Plan.checkQuery (.combined p) =
        if m = n then (do
          Plan.checkPagination p.pagination
          Plan.checkCtes [] p.ctes)
        else .error (.arityMismatch (.columns m) (.columns n))) := by
  constructor
  · intro h
    obtain ⟨-, -, hsame⟩ := checkSet_ok h
    have hleaves := arity_of_mem_leaves h
    rw [Query.leaves] at hleaves
    rw [SetPlan.arity] at hleaves ⊢
    rcases hsame with ⟨n, hcount, -⟩ | ⟨table, hwild, -⟩
    · rw [hcount] at hleaves ⊢
      refine ⟨fun _ leaf hleaf => SelectPlan.starsOwn_of_count (hleaves leaf hleaf), fun _ w => ?_⟩
      exact ⟨n, fun leaf hleaf => leaf.width_of_count (hleaves leaf hleaf) w, rfl⟩
    · rw [hwild] at hleaves ⊢
      constructor
      · intro hsame leaf hleaf
        rcases SelectPlan.width_of_wildcard (hleaves leaf hleaf) with ⟨hown, -⟩ | ⟨-, name, houter⟩
        · exact hown
        · -- every table has one column, but the star is over two
          obtain ⟨n, hwidth, hdescribed⟩ := hsame ⟨fun _ => 1, fun _ => 1, fun _ => 2⟩
          have hone := hwidth leaf hleaf
          rw [houter, hdescribed] at hone
          cases hone
      · intro hown w
        refine ⟨w.table table, fun leaf hleaf => ?_, rfl⟩
        rcases SelectPlan.width_of_wildcard (hleaves leaf hleaf) with ⟨-, hwidth⟩ | ⟨hnot, -⟩
        · exact hwidth w
        · exact absurd (hown leaf hleaf) hnot
  · intro hleftCtes hrightCtes hleft hright hleftLists hrightLists m n
    have hsame := checkSameArity_of_lists hleftLists hrightLists
    obtain ⟨operator, all, left, right, orderBy, pagination, ctes⟩ := p
    change left.ctes = [] at hleftCtes
    change right.ctes = [] at hrightCtes
    have hcheck :
        Plan.checkQuery (.combined ⟨operator, all, left, right, orderBy, pagination, ctes⟩) =
          checkSameArity left right >>= fun _ =>
            Plan.checkPagination pagination >>= fun _ => Plan.checkCtes [] ctes := by
      rw [Plan.checkQuery, Plan.checkSet, hleftCtes, hrightCtes]
      change (Plan.checkQuery left >>= fun _ => Plan.checkQuery right >>= fun _ => _) = _
      rw [hleft, hright]
      rfl
    rw [hcheck]
    unfold combine
    rw [hsame]
    by_cases heq : m = n
    · rw [if_pos heq, if_pos heq, if_pos heq]
      exact ⟨rfl, rfl⟩
    · rw [if_neg heq, if_neg heq, if_neg heq]
      exact ⟨rfl, rfl⟩

/-- A selection of items from a table. -/
def itemsOf (items : List Expr) (table : String) : SelectPlan :=
  { SelectPlan.all (some (.table table none)) with items := items }

/-- A union. -/
def unionOf (left right : SelectPlan) : SetPlan :=
  ⟨.union, false, .select left, .select right, [], none, []⟩

/-- A table twice: as a whole, and by a star under its name. -/
def sameTable : SetPlan := unionOf (itemsOf [] "t") (itemsOf [.star (some "t")] "t")

/-- One column and two columns. -/
def oneAndTwo : SetPlan := unionOf (itemsOf [.column none "a" none] "t")
  (itemsOf [.column none "a" none, .column none "b" none] "u")

theorem checked_widths_unions : Plan.checkQuery (.combined sameTable) = .ok () ∧
    (∀ w : Widths, ∃ n, (∀ leaf ∈ sameTable.leaves, leaf.width w = n) ∧
      (Query.combined sameTable).arity.Describes w n) ∧
    Plan.checkQuery oneAndTwo.left = .ok () ∧ Plan.checkQuery oneAndTwo.right = .ok () ∧
    oneAndTwo.left.leftmost.Lists ∧ oneAndTwo.right.leftmost.Lists ∧
    Plan.checkQuery (.combined oneAndTwo) = .error (.arityMismatch (.columns 1) (.columns 2)) := by
  have hsame : Plan.checkQuery (.combined sameTable) = .ok () := rfl
  have hown : ∀ leaf ∈ sameTable.leaves, leaf.StarsOwn := by
    intro leaf hleaf name hname _
    rcases List.mem_cons.1 hleaf with rfl | hleaf
    · cases hname
    · obtain rfl := List.mem_singleton.1 hleaf
      cases List.mem_singleton.1 hname
      exact ⟨.table "t" none, List.mem_singleton_self _, by decide +kernel⟩
  have hleft : Plan.checkQuery oneAndTwo.left = .ok () := rfl
  have hright : Plan.checkQuery oneAndTwo.right = .ok () := rfl
  have hleftLists : oneAndTwo.left.leftmost.Lists := ⟨List.cons_ne_nil _ _, by decide⟩
  have hrightLists : oneAndTwo.right.leftmost.Lists := ⟨List.cons_ne_nil _ _, by decide⟩
  have hwidths := ((checked_widths sameTable).1 hsame).2 hown
  refine ⟨hsame, hwidths, hleft, hright, hleftLists, hrightLists, ?_⟩
  exact ((checked_widths oneAndTwo).2 rfl rfl hleft hright hleftLists hrightLists).2

/-- Two selections from a table, where the star of one of them is over another table. -/
def outerStar : SetPlan := unionOf (itemsOf [.star (some "x")] "t") (itemsOf [] "t")

/-- A query of this other table, with the two selections in its condition. -/
def whereOuterStar : Query := .select { SelectPlan.all (some (.table "x" none)) with
  condition := some (.unary .exists_ (.subquery (.combined outerStar))) }

/-- The two selections are accepted, also where `x` has two columns and `t` has one. -/
theorem outerStar_accepted : ∃ c, ∃ w : Widths,
    Plan.checkQuery (.combined outerStar) = .ok () ∧
    compile (.make .postgres none) (.query whereOuterStar) = .ok c ∧
    c.sql = "SELECT * FROM x WHERE EXISTS ((SELECT x.* FROM t) UNION (SELECT * FROM t))" ∧
    w.table "x" = 2 ∧ w.outer "x" = w.table "x" ∧ w.table "t" = 1 ∧
    outerStar.leaves.map (SelectPlan.width w) = [2, 1] ∧
    (Query.combined outerStar).arity = .wildcard (some "t") := by
  obtain ⟨c, hc, hsql⟩ := compile_of_sql (d := .make .postgres none) (s := .query whereOuterStar)
    "SELECT * FROM x WHERE EXISTS ((SELECT x.* FROM t) UNION (SELECT * FROM t))" (by decide +kernel)
  refine ⟨c, ⟨fun name => if name = "x" then 2 else 1, fun _ => 1, fun _ => 2⟩, rfl, hc, hsql, rfl,
    rfl, rfl, ?_, rfl⟩
  decide +kernel

end PolyQuery
