import PolyQuery.Description.Operation

/-! Calls on a selection, one after another. Whatever is called, a selection that comes out of it reads
the same source for the same model on the same connection, and its condition is the one before,
narrowed by what was given or with that in its place: `revises_operate`. So a chain of calls only
accumulates conditions: `composed_accumulates`. -/
namespace PolyQuery

namespace Expr

/-- What a call may do to a condition: narrow it by what is given, or let that hold in its place. -/
inductive Revised : Option Expr → List Expr → Option Expr → Prop
  | narrowed (before : Option Expr) (given : List Expr) :
    Revised before given (conjunction? (before.toList ++ given))
  | widened (before : Option Expr) {given : List Expr} {e : Expr} (h : conjunction? given = some e) :
    Revised before given (some (before.elim e fun b => .binary .or b e))

/-- What calls do to a condition one after another, with all that they are given. -/
inductive Accumulated : Option Expr → List Expr → Option Expr → Prop
  | nothing (condition : Option Expr) : Accumulated condition [] condition
  | more {before between behind : Option Expr} {given others : List Expr}
    (h : Revised before given between) (rest : Accumulated between others behind) :
    Accumulated before (given ++ others) behind

/-- What is folded already counts as a single condition. -/
theorem conjunction?_append (xs ys : List Expr) :
    conjunction? ((conjunction? xs).toList ++ ys) = conjunction? (xs ++ ys) := by
  cases xs with
  | nil => rfl
  | cons x xs =>
    have hchain : chain .and (chain .and x xs) ys = chain .and x (xs ++ ys) :=
      List.foldl_append.symm
    exact congrArg some hchain

theorem conjunction?_toList (condition : Option Expr) :
    conjunction? condition.toList = condition := by
  cases condition <;> rfl

end Expr

namespace Builder
variable {b b' b'' : Builder}

/-- What a call leaves of a selection, and what it makes of its condition. -/
structure Revises (b : Builder) (given : List Expr) (b' : Builder) : Prop where
  source : b'.source = b.source
  model : b'.model = b.model
  connection : b'.connection = b.connection
  condition : Expr.Revised b.condition given b'.condition

/-- A call that is not about the condition. -/
theorem revises_same (hsource : b'.source = b.source) (hmodel : b'.model = b.model)
    (hconnection : b'.connection = b.connection) (hcondition : b'.condition = b.condition) :
    ∃ given, b.Revises given b' := by
  refine ⟨[], hsource, hmodel, hconnection, ?_⟩
  have hsame := Expr.Revised.narrowed b.condition []
  rw [hcondition]
  cases hb : b.condition with
  | none => rwa [hb] at hsame
  | some e => rwa [hb] at hsame

/-- Further conditions change the condition alone. -/
theorem andWhere_eq (b : Builder) (conditions : List Expr) : b.andWhere conditions =
    { b with condition := Expr.conjunction? (b.condition.toList ++ conditions) } := by
  unfold andWhere
  cases hall : b.condition.toList ++ conditions with
  | cons e es => rfl
  | nil =>
    have hnone : b.condition = none := Option.toList_eq_nil_iff.1 (List.append_eq_nil_iff.1 hall).1
    cases b
    cases hnone
    rfl

/-- Criteria one after another are all their conditions at once. -/
theorem foldl_filter (criteria : List Criterion) (b : Builder) : criteria.foldl filter b =
    b.andWhere (criteria.flatMap (Criterion.conditions b.fields)) := by
  induction criteria generalizing b with
  | nil =>
    rw [List.foldl_nil, List.flatMap_nil, andWhere_eq, List.append_nil, Expr.conjunction?_toList]
  | cons c rest ih =>
    have hfields : (b.filter c).fields = b.fields := by
      rw [filter, andWhere_eq]
      rfl
    rw [List.foldl_cons, ih, hfields, List.flatMap_cons, filter, andWhere_eq, andWhere_eq,
      andWhere_eq, Expr.conjunction?_append, List.append_assoc]

theorem revises_andWhere (b : Builder) (es : List Expr) :
    ∃ given, b.Revises given (b.andWhere es) := by
  rw [andWhere_eq]
  exact ⟨es, rfl, rfl, rfl, .narrowed b.condition es⟩

theorem revises_orFilter (b : Builder) (c : Criterion) : ∃ given, b.Revises given (b.orFilter c) := by
  unfold orFilter
  split
  · exact revises_same rfl rfl rfl rfl
  · next e he =>
    refine ⟨c.conditions b.fields, rfl, rfl, rfl, ?_⟩
    have hwidened := Expr.Revised.widened b.condition he
    cases hb : b.condition with
    | none => rwa [hb] at hwidened
    | some before => rwa [hb] at hwidened

theorem revises_join {kind : JoinKind} {target : JoinTarget} {c : JoinCondition} {name : Option String}
    (h : b.join kind target c name = .ok b') : ∃ given, b.Revises given b' := by
  unfold join at h
  split at h
  · cases h
    exact revises_same rfl rfl rfl rfl
  · split at h
    · split at h
      · cases h
      · cases h
        exact revises_same rfl rfl rfl rfl
    · cases h

end Builder

namespace Description
open Builder
variable {b b' b'' : Builder}

theorem revises_selected (h : selected b' = some (.ok (.selection b'')))
    (hb : ∃ given, b.Revises given b') : ∃ given, b.Revises given b'' := by
  cases h
  exact hb

theorem revises_joined {kind : JoinKind} {target : Description} {c : JoinCondition}
    {name : Option String} (h : joined b kind target c name = some (.ok (.selection b'))) :
    ∃ given, b.Revises given b' := by
  unfold joined at h
  split at h
  · cases hjoin : b.join kind _ c name with
    | error e =>
      rw [hjoin] at h
      cases h
    | ok j =>
      rw [hjoin] at h
      cases h
      exact revises_join hjoin
  · split at h <;> cases h

theorem revises_onSelection {word : String} {arguments : List Description} {d : Nat → Description}
    (h : onSelection b word arguments d = some (.ok (.selection b'))) :
    ∃ given, b.Revises given b' := by
  unfold onSelection at h
  split at h
  case h_3 =>
    -- a criterion that must hold too
    obtain ⟨c, -, h⟩ := Option.bind_eq_some_iff.1 h
    exact revises_selected h (b.revises_andWhere _)
  case h_4 =>
    -- a criterion that may hold instead
    obtain ⟨c, -, h⟩ := Option.bind_eq_some_iff.1 h
    exact revises_selected h (b.revises_orFilter c)
  case h_5 => exact revises_selected h (b.revises_andWhere _)
  case h_6 => exact revises_selected h (b.revises_andWhere _)
  case h_7 =>
    obtain ⟨source, -, h⟩ := Option.bind_eq_some_iff.1 h
    exact revises_selected h (b.revises_andWhere _)
  case h_8 =>
    obtain ⟨source, -, h⟩ := Option.bind_eq_some_iff.1 h
    exact revises_selected h (b.revises_andWhere _)
  case h_14 => exact revises_joined h
  case h_15 =>
    obtain ⟨q, -, h⟩ := Option.bind_eq_some_iff.1 h
    exact revises_selected h (revises_same rfl rfl rfl rfl)
  case h_21 =>
    obtain ⟨kind, -, h⟩ := Option.bind_eq_some_iff.1 h
    exact revises_joined h
  -- whatever else is called leaves the condition
  all_goals exact revises_selected h (revises_same rfl rfl rfl rfl)

/-- What a call does to a selection, if it gives a selection again. -/
theorem revises_operate {word : String} {arguments : List Description}
    (h : operate (.selection b) word arguments = some (.ok (.selection b'))) :
    ∃ given, b.Revises given b' := by
  unfold operate at h
  cases hset : setWords.lookup word with
  | none =>
    rw [hset] at h
    exact revises_onSelection h
  | some op =>
    -- what is combined with another query is no selection any more
    rw [hset] at h
    obtain ⟨q, -, h⟩ := Option.map_eq_some_iff.1 h
    cases hcombined : AnyBuilder.combine op q _ (.selection b) with
    | error e =>
      rw [hcombined] at h
      cases h
    | ok combined =>
      rw [hcombined] at h
      cases h

end Description

namespace Builder
variable {b b' : Builder}

/-- Calls one after another, each on the selection that the one before gave. -/
inductive Composed : Builder → Builder → Prop
  | nothing (b : Builder) : Composed b b
  | call {b b' b'' : Builder} (word : String) (arguments : List Description)
    (h : Description.operate (.selection b) word arguments = some (.ok (.selection b')))
    (rest : Composed b' b'') : Composed b b''

/-- Calls leave what is selected from, and accumulate conditions. -/
theorem composed_accumulates (h : b.Composed b') : b'.source = b.source ∧ b'.model = b.model ∧
    b'.connection = b.connection ∧ ∃ given, Expr.Accumulated b.condition given b'.condition := by
  induction h with
  | nothing b => exact ⟨rfl, rfl, rfl, [], .nothing _⟩
  | call word arguments h _ ih =>
    obtain ⟨given, hstep⟩ := Description.revises_operate h
    obtain ⟨hsource, hmodel, hconnection, others, hrest⟩ := ih
    exact ⟨hsource.trans hstep.source, hmodel.trans hstep.model,
      hconnection.trans hstep.connection, given ++ others, .more hstep.condition hrest⟩

end Builder

end PolyQuery
