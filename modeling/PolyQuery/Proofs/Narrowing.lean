import PolyQuery.Proofs.Sending

/-! Which rows a statement is for. A query folds each criterion into its condition as it comes,
while a change and a deletion collect conditions and fold them at the end. All of them end up with
one tree for the same criteria, so that a change or a deletion is for the rows that the query shows,
and is refused where the query would show all of them: `Table.same_rows`. -/
namespace PolyQuery

theorem RowChange.foldl_filter (criteria : List Criterion) (u : RowChange) :
    criteria.foldl RowChange.filter u = { u with
      conditions := u.conditions ++ criteria.flatMap (Criterion.conditions u.table.fields) } := by
  induction criteria generalizing u with
  | nil => rw [List.foldl_nil, List.flatMap_nil, List.append_nil]
  | cons c rest ih =>
    rw [List.foldl_cons, ih, List.flatMap_cons, ← List.append_assoc]
    rfl

theorem RowDeletion.foldl_filter (criteria : List Criterion) (d : RowDeletion) :
    criteria.foldl RowDeletion.filter d = { d with
      conditions := d.conditions ++ criteria.flatMap (Criterion.conditions d.table.fields) } := by
  induction criteria generalizing d with
  | nil => rw [List.foldl_nil, List.flatMap_nil, List.append_nil]
  | cons c rest ih =>
    rw [List.foldl_cons, ih, List.flatMap_cons, ← List.append_assoc]
    rfl

namespace Table
variable {σ : Session} {t : Table}

/-- A table that is narrowed is its query narrowed. -/
theorem filter_apply (h : σ.Knows t.model) (c : Criterion) :
    t.filter c σ = (.ok (t.builder.filter c), σ) := by
  -- the query has no condition yet
  have hnarrowed : t.builder.filter c =
      { t.builder with condition := Expr.conjunction? (c.conditions t.fields) } :=
    Builder.andWhere_eq ..
  rw [filter, Run.bind_ok (query_apply h), hnarrowed]
  cases Expr.conjunction? (c.conditions t.fields) <;> rfl

/-- A change without conditions is refused, whatever it would assign. -/
theorem refuses_update (u : RowChange) (hdata : u.data ≠ []) (h : u.conditions = []) :
    u.table.Refuses σ u.run .updateWithoutCondition := by
  refine refuses_send fun d => ?_
  have hassigned : u.assignments.isEmpty = false := by
    rw [RowChange.assignments, ← Bool.not_eq_true, List.isEmpty_iff, List.append_eq_nil_iff,
      List.map_eq_nil_iff]
    exact fun hnone => hdata hnone.1
  rw [Plan.check, Plan.checkUpdate, RowChange.plan, hassigned, h]
  rfl

theorem refuses_delete (d : RowDeletion) (h : d.conditions = []) :
    d.table.Refuses σ d.run .deleteWithoutCondition := by
  refine refuses_send fun _ => ?_
  rw [Plan.check, Plan.checkDelete, RowDeletion.plan, h]
  rfl

/-- The query, the change and the deletion of a table have the same condition for the same criteria,
the conjunction of all of these in their order. To narrow a table is to narrow its query. Where the
criteria say nothing, the query has no condition, and the change and the deletion are refused before
they are sent. -/
theorem same_rows (h : σ.Knows t.model) {data : List (String × Operand)}
    (hdata : t.writable data ≠ []) (criteria : List Criterion) : ∃ b, t.query σ = (.ok b, σ) ∧
      (criteria.foldl Builder.filter b).plan.condition =
        Expr.conjunction? (criteria.flatMap (Criterion.conditions t.fields)) ∧
      (∀ returning, ((criteria.foldl RowChange.filter (t.update data)).plan returning).condition =
        (criteria.foldl Builder.filter b).plan.condition) ∧
      (criteria.foldl RowDeletion.filter t.delete).plan.condition =
        (criteria.foldl Builder.filter b).plan.condition ∧
      (∀ c, t.filter c σ = (.ok (b.filter c), σ)) ∧
      (criteria.flatMap (Criterion.conditions t.fields) = [] →
        (criteria.foldl Builder.filter b).plan.condition = none ∧
        t.Refuses σ (criteria.foldl RowChange.filter (t.update data)).run
          .updateWithoutCondition ∧
        t.Refuses σ (criteria.foldl RowDeletion.filter t.delete).run .deleteWithoutCondition) := by
  have hquery : (criteria.foldl Builder.filter t.builder).plan.condition =
      Expr.conjunction? (criteria.flatMap (Criterion.conditions t.fields)) := by
    rw [Builder.foldl_filter, Builder.andWhere_eq]
    rfl
  refine ⟨t.builder, query_apply h, hquery, fun returning => ?_, ?_, filter_apply h,
    fun hnone => ?_⟩
  · rw [hquery, RowChange.foldl_filter]
    rfl
  · rw [hquery, RowDeletion.foldl_filter]
    rfl
  · -- without conditions there is nothing to fold
    refine ⟨by rw [hquery, hnone]; rfl, ?_, ?_⟩
    · rw [RowChange.foldl_filter]
      exact refuses_update ⟨t, t.writable data, criteria.flatMap _⟩ hdata hnone
    · rw [RowDeletion.foldl_filter]
      exact refuses_delete ⟨t, criteria.flatMap _⟩ hnone

/-- Notes with an author and a day. -/
def notes : Table where
  model :=
    { name := "Note"
      table := "notes"
      primaryKey := "id"
      connection := "main"
      fields := [("writtenAt", ⟨some "date", none, none⟩)]
      relations := []
      autoFields := ["id"] }
  channel := none

/-- A session with notes. -/
def desk : Session := { Session.fresh with models := [notes.model] }

/-- The notes of an author that have no day, by two criteria with one that says nothing in
between. -/
def undated : List Criterion :=
  [.comparison "authorId" .equal (.value (.number (.int 7))), .filter [],
    .filter [("writtenAt", .value .null)]]

/-- Undated notes are changed and deleted by the condition of the query for them. Where nothing is
said about notes, none is changed and none is deleted. -/
theorem same_rows_undated : desk.Knows notes.model ∧
    (undated.foldl Builder.filter notes.builder).plan.condition = some (.binary .and
      (.binary .equal (.column none "author_id" none)
        (.literal (.number (.int 7)) ⟨"number", none, none⟩))
      (.unary .isNull (.column none "written_at" none))) ∧
    (∀ returning,
      ((undated.foldl RowChange.filter (notes.update [("title", .value .null)])).plan
        returning).condition = (undated.foldl Builder.filter notes.builder).plan.condition) ∧
    notes.Refuses desk ([.filter []].foldl RowChange.filter
      (notes.update [("title", .value .null)])).run .updateWithoutCondition := by
  have hknown : desk.Knows notes.model := rfl
  have hdata : notes.writable [("title", .value .null)] ≠ [] := by decide
  obtain ⟨b, hb, htree, hchange, -⟩ := same_rows hknown hdata undated
  obtain rfl : notes.builder = b :=
    Except.ok.inj (congrArg Prod.fst ((query_apply hknown).symm.trans hb))
  refine ⟨hknown, htree, hchange, ?_⟩
  obtain ⟨_, -, -, -, -, -, hrefused⟩ := same_rows hknown hdata [.filter []]
  exact (hrefused rfl).2.1

end Table
end PolyQuery
