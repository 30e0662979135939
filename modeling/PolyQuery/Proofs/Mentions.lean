import PolyQuery.Builder.Traversal
import PolyQuery.Proofs.Correspondence

/-! The columns that the query of a traversal mentions. The query is written from five references to
the column of the identifiers and three to that of the parents, `Traversal.builder_written`. Those
of the parents name one column exactly if its name has no point behind its front; those of the
identifiers only if there is no capital either, because the rows to start from are asked for by the
column of a property: `Traversal.names_alike`. -/
namespace PolyQuery

/-- All of the expressions are columns of one name, of whichever tables. -/
def Expr.NamedAlike (es : List Expr) : Prop :=
  ∃ name, ∀ e ∈ es, ∃ table, e = .column table name none

/-- Where one of them is such a column, all have its name. -/
theorem Expr.namedAlike_iff {es : List Expr} {table : Option String} {name : String}
    (hmem : .column table name none ∈ es) :
    NamedAlike es ↔ ∀ e ∈ es, ∃ other, e = .column other name none := by
  constructor
  · rintro ⟨common, hall⟩
    obtain ⟨_, heq⟩ := hall _ hmem
    cases heq
    exact hall
  · exact fun hall => ⟨name, hall⟩

/-- The columns of names without capitals have these names. -/
theorem Naming.camelToSnake_eq_self_iff {name : String} :
    camelToSnake name = name ↔ Uncapitalized name.toList := by
  constructor
  · intro h
    rw [← h]
    exact uncapitalized_camelToSnake name
  · intro h
    rw [camelToSnake, snakeChars_eq_self h, String.ofList_toList]

namespace Traversal
variable {t : Traversal}

/-- The references to the two columns of a tree, one for each place in the query of a traversal. -/
structure Mentions where
  anchorId : Expr
  anchorParent : Expr
  filteredId : Expr
  stepId : Expr
  stepParent : Expr
  linkId : Expr
  linkParent : Expr
  outerId : Expr

namespace Mentions

/-- The references to the column of the identifiers. -/
def ids (m : Mentions) : List Expr :=
  [m.anchorId, m.filteredId, m.stepId, m.linkId, m.outerId]

/-- The references to the column of the parents. -/
def parents (m : Mentions) : List Expr := [m.anchorParent, m.stepParent, m.linkParent]

end Mentions

/-- The selection of the rows to start from. -/
def anchorWith (t : Traversal) (m : Mentions) : SelectPlan :=
  { SelectPlan.all (some (.table t.table none)) with
    items := [m.anchorId, m.anchorParent, .named (.raw "0" []) "depth"]
    condition := some (.inList m.filteredId
      ((t.start.items?.getD [t.start]).map (propertyValue none t.idColumn)) false) }

/-- How a row is linked to one that was reached. -/
def linkWith (t : Traversal) (m : Mentions) : Expr :=
  if t.toDescendants then .binary .equal m.linkParent m.linkId
  else .binary .equal m.linkId m.linkParent

/-- The selection of the rows one step further. -/
def stepWith (t : Traversal) (m : Mentions) : SelectPlan :=
  { SelectPlan.all (some (.table t.table (some "t"))) with
    items := [m.stepId, m.stepParent,
      .named (.binary .add (.column (some t.name) "depth" none) (.raw "1" [])) "depth"]
    joins := [⟨.inner, .table t.name none, some (t.linkWith m), false⟩]
    condition := some (.binary .less (.column (some t.name) "depth" none)
      (.raw t.maxDepth.text [])) }

/-- The query with these references. -/
def written (t : Traversal) (m : Mentions) : Query :=
  .select { SelectPlan.all (some (.table t.name none)) with
    items := [m.outerId]
    distinct := true
    ctes := [⟨t.name, .combined ⟨.union, true, .select (t.anchorWith m), .select (t.stepWith m), [],
      none, []⟩, none, none, true⟩] }

/-- The references of the query. Those of a step know their tables. -/
def mentions (t : Traversal) : Mentions where
  anchorId := Expr.reference t.idColumn none
  anchorParent := Expr.reference t.parentColumn none
  filteredId := propertyColumn t.idColumn
  stepId := .column (some "t") t.idColumn none
  stepParent := .column (some "t") t.parentColumn none
  linkId := .column (some (if t.toDescendants then t.name else "t")) t.idColumn none
  linkParent := .column (some (if t.toDescendants then "t" else t.name)) t.parentColumn none
  outerId := Expr.reference t.idColumn none

theorem linkWith_injective {m n : Mentions} (h : t.linkWith m = t.linkWith n) :
    m.linkId = n.linkId ∧ m.linkParent = n.linkParent := by
  unfold linkWith at h
  split at h
  · injection h with _ hparent hid
    exact ⟨hid, hparent⟩
  · injection h with _ hid hparent
    exact ⟨hid, hparent⟩

/-- A query is written from one choice of references. -/
theorem written_injective : Function.Injective t.written := by
  intro m n h
  -- each mention is found at its place in the plan
  injection h with hplan
  have hanchor : t.anchorWith m = t.anchorWith n ∧ t.stepWith m = t.stepWith n := by
    have hctes := congrArg SelectPlan.ctes hplan
    injection hctes with hwalk
    injection hwalk with _ hbody
    injection hbody with hcombined
    injection hcombined with _ _ hleft hright
    injection hleft with hleft
    injection hright with hright
    exact ⟨hleft, hright⟩
  have houter := congrArg SelectPlan.items hplan
  have hfirst := congrArg SelectPlan.items hanchor.1
  have hfilter := congrArg SelectPlan.condition hanchor.1
  have hstep := congrArg SelectPlan.items hanchor.2
  have hjoins := congrArg SelectPlan.joins hanchor.2
  have hlink : t.linkWith m = t.linkWith n := by
    injection hjoins with hjoin
    injection hjoin with _ _ hcondition
    exact Option.some.inj hcondition
  obtain ⟨hlinkId, hlinkParent⟩ := linkWith_injective hlink
  cases m
  cases n
  simp only [anchorWith, stepWith, List.cons.injEq, Option.some.injEq,
    Expr.inList.injEq] at houter hfirst hfilter hstep hlinkId hlinkParent
  simp only [Mentions.mk.injEq]
  exact ⟨hfirst.1, hfirst.2.1, hfilter.1, hstep.1, hstep.2.1, hlinkId, hlinkParent, houter.1⟩

theorem linkCondition_eq (t : Traversal) : t.linkCondition = t.linkWith t.mentions := by
  unfold linkCondition linkWith mentions
  cases t.toDescendants <;> rfl

theorem anchor_written (t : Traversal) : t.anchor.query = .select (t.anchorWith t.mentions) := by
  have hvalues : ((t.start.items?.getD [t.start]).map fun x =>
      Operand.expr (propertyValue none t.idColumn x)).map Operand.toExpr =
        (t.start.items?.getD [t.start]).map (propertyValue none t.idColumn) := by
    rw [List.map_map]
    exact List.map_congr_left fun _ _ => rfl
  show Query.select ⟨[Expr.reference t.idColumn none, Expr.reference t.parentColumn none, _], _, _,
    some (.inList (propertyColumn t.idColumn)
      (((t.start.items?.getD [t.start]).map fun x =>
        Operand.expr (propertyValue none t.idColumn x)).map Operand.toExpr) false),
          _, _, _, _, _, _⟩ = _
  rw [hvalues, anchorWith, mentions]
  dsimp only
  rfl

theorem step_written (t : Traversal) :
    ∃ b, t.step = .ok b ∧ b.query = .select (t.stepWith t.mentions) := by
  refine ⟨_, rfl, ?_⟩
  rw [stepWith, ← linkCondition_eq]
  rfl

/-- The rows to start from and those of a step have the same columns. -/
theorem sameArity_written (t : Traversal) : checkSameArity (.select (t.anchorWith t.mentions))
    (.select (t.stepWith t.mentions)) = .ok () := by
  obtain ⟨_, _, hid⟩ := Expr.exists_reference t.idColumn
  obtain ⟨_, _, hparent⟩ := Expr.exists_reference t.parentColumn
  unfold anchorWith mentions
  rw [hid, hparent]
  rfl

/-- For every natural number as the greatest depth there is a query, and it is written from the
references. -/
theorem builder_written (hdepth : isDepth t.maxDepth = true) :
    ∃ b, t.builder = .ok b ∧ b.query = t.written t.mentions := by
  obtain ⟨further, hfurther, hquery⟩ := step_written t
  have hbody : t.anchor.combine .union further.query true = .ok
      ⟨⟨.union, true, .select (t.anchorWith t.mentions), .select (t.stepWith t.mentions), [], none,
        []⟩, t.connection, none⟩ := by
    rw [Builder.combine, anchor_written, hquery, PolyQuery.combine, sameArity_written]
    rfl
  have hbuilder : t.builder = .ok
      ((((Builder.start (.table t.name none) t.connection).withCte t.name
        (.combined ⟨.union, true, .select (t.anchorWith t.mentions),
          .select (t.stepWith t.mentions), [], none, []⟩) ⟨none, none, some true⟩).select
            [.expression (Expr.reference t.idColumn none)]).setDistinct true) := by
    unfold builder
    rw [hdepth, hfurther]
    simp only [Bool.not_true]
    show (t.anchor.combine .union further.query true >>= _) = _
    rw [hbody]
    rfl
  exact ⟨_, hbuilder, rfl⟩

/-! ## The names -/

theorem namedAlike_ids : Expr.NamedAlike t.mentions.ids ↔
    Naming.Uncapitalized t.idColumn.toList ∧ '.' ∉ t.idColumn.toList.tail := by
  have hstep : .column (some "t") t.idColumn none ∈ t.mentions.ids := by
    simp [Mentions.ids, mentions]
  rw [Expr.namedAlike_iff hstep]
  constructor
  · intro hall
    have hpoint := Expr.reference_named_iff.1 (hall t.mentions.anchorId (by simp [Mentions.ids]))
    obtain ⟨_, hfiltered⟩ := hall t.mentions.filteredId (by simp [Mentions.ids])
    rw [mentions, propertyColumn_unqualified hpoint] at hfiltered
    injection hfiltered with _ hname
    exact ⟨Naming.camelToSnake_eq_self_iff.1 hname, hpoint⟩
  · rintro ⟨hcapital, hpoint⟩ e he
    have hreference : Expr.reference t.idColumn none = .column none t.idColumn none :=
      Expr.reference_unsplit hpoint
    have hfiltered : propertyColumn t.idColumn = .column none t.idColumn none := by
      rw [propertyColumn, Naming.camelToSnake_eq_self_iff.2 hcapital, hreference]
    simp only [Mentions.ids, mentions, hreference, hfiltered, List.mem_cons, List.not_mem_nil,
      or_false] at he
    rcases he with rfl | rfl | rfl | rfl | rfl <;> exact ⟨_, rfl⟩

theorem namedAlike_parents :
    Expr.NamedAlike t.mentions.parents ↔ '.' ∉ t.parentColumn.toList.tail := by
  have hstep : .column (some "t") t.parentColumn none ∈ t.mentions.parents := by
    simp [Mentions.parents, mentions]
  rw [Expr.namedAlike_iff hstep]
  constructor
  · intro hall
    exact Expr.reference_named_iff.1 (hall t.mentions.anchorParent (by simp [Mentions.parents]))
  · intro hpoint e he
    simp only [Mentions.parents, mentions, Expr.reference_unsplit hpoint, List.mem_cons,
      List.not_mem_nil, or_false] at he
    rcases he with rfl | rfl | rfl <;> exact ⟨_, rfl⟩

/-- For every natural number as the greatest depth there is a query, it is written from one choice
of references, and with these the column of the identifiers has one name everywhere exactly if that
has no capital and no point behind its front, and the column of the parents exactly if its name has
no such point. -/
theorem names_alike (t : Traversal) (hdepth : isDepth t.maxDepth = true) :
    ∃ b m, t.builder = .ok b ∧ b.query = t.written m ∧ (∀ n, b.query = t.written n → n = m) ∧
      (Expr.NamedAlike m.ids ↔
        Naming.Uncapitalized t.idColumn.toList ∧ '.' ∉ t.idColumn.toList.tail) ∧
      (Expr.NamedAlike m.parents ↔ '.' ∉ t.parentColumn.toList.tail) := by
  obtain ⟨b, hb, hquery⟩ := builder_written hdepth
  refine ⟨b, t.mentions, hb, hquery, ?_, namedAlike_ids, namedAlike_parents⟩
  intro n hn
  exact written_injective (hn.symm.trans hquery)

/-- The descendants of a category, by the columns of its identifiers and parents. -/
def categories (idColumn parentColumn : String) : Traversal :=
  ⟨"categories", .value (.number (.int 1)), idColumn, parentColumn, true, .number (.int 100), "tree",
    "main"⟩

/-- Names as most tables have them are the same everywhere. -/
theorem names_alike_snake : isDepth (categories "node_id" "parent_id").maxDepth = true ∧
    ∃ b m, (categories "node_id" "parent_id").builder = .ok b ∧
      b.query = (categories "node_id" "parent_id").written m ∧
      Expr.NamedAlike m.ids ∧ Expr.NamedAlike m.parents := by
  have hdepth : isDepth (categories "node_id" "parent_id").maxDepth = true := by decide
  obtain ⟨b, m, hb, hquery, -, hids, hparents⟩ := names_alike _ hdepth
  exact ⟨hdepth, b, m, hb, hquery, hids.2 (by decide), hparents.2 (by decide)⟩

/-- A column of identifiers with a capital is selected under its name, but the rows to start from are
asked for under another. -/
theorem filtered_apart : ∃ b m, (categories "nodeId" "parent_id").builder = .ok b ∧
    b.query = (categories "nodeId" "parent_id").written m ∧
    m.anchorId = .column none "nodeId" none ∧ m.filteredId = .column none "node_id" none ∧
    ¬ Expr.NamedAlike m.ids := by
  have hdepth : isDepth (categories "nodeId" "parent_id").maxDepth = true := by decide
  have hpoint : '.' ∉ "nodeId".toList.tail := by decide
  have hsnake : Naming.camelToSnake "nodeId" = "node_id" := by decide
  have hanchor : Expr.reference "nodeId" none = .column none "nodeId" none :=
    Expr.reference_unsplit hpoint
  have hfiltered : propertyColumn "nodeId" = .column none "node_id" none := by
    rw [propertyColumn_unqualified hpoint, hsnake]
  obtain ⟨b, hb, hquery⟩ := builder_written hdepth
  refine ⟨b, _, hb, hquery, hanchor, hfiltered, fun halike => ?_⟩
  exact absurd (namedAlike_ids.1 halike).1 (by decide)

end Traversal
end PolyQuery
