import Mathlib.Data.List.Nodup
import PolyQuery.Proofs.Naming
import PolyQuery.Proofs.Narrowing

/-! What a change assigns. The columns of the data are as distinct as their properties, and the time
of the change is added to them. A column gets two values exactly if the model has a field for that
time and lets the data write it too: `Table.assigns_once_iff`. -/
namespace PolyQuery

namespace Naming

theorem isCamel_of_notMem {cs : List Char} (h : '_' ∉ cs) : IsCamel cs := by
  induction cs with
  | nil => exact .nil
  | cons c cs ih =>
    obtain ⟨hc, hcs⟩ := not_or.1 (List.mem_cons.not.1 h)
    refine List.isChain_cons.2 ⟨fun d _ hline => ?_, ih hcs⟩
    exact (hc hline.symm).elim

/-- Names without underscores have columns of their own. -/
theorem camelToSnake_inj {name other : String} (h : '_' ∉ name.toList) (h' : '_' ∉ other.toList)
    (hcolumn : camelToSnake name = camelToSnake other) : name = other :=
  camelToSnake_injOn (isCamel_of_notMem h) (isCamel_of_notMem h') hcolumn

end Naming

/-- Whether a model has a field for the time of the last change. -/
def Model.isStamped (m : Model) : Bool := (m.fields.find? "updatedAt").isSome

/-- The columns of a change are those of its data, and that of the time of the change. -/
theorem RowChange.columns_eq (u : RowChange) : u.assignments.map Assignment.column =
    (u.data.map Prod.fst).map Naming.camelToSnake ++
      if u.table.model.isStamped then [Naming.camelToSnake "updatedAt"] else [] := by
  rw [assignments, List.map_append, List.map_map, List.map_map, apply_ite (List.map _)]
  rfl

namespace Table
variable {t : Table} {data : List (String × Operand)}

/-- The data say when the last change was, and the model lets them. -/
def WritesStamp (t : Table) (data : List (String × Operand)) : Prop :=
  "updatedAt" ∉ t.model.autoFields ∧ ∃ v, ("updatedAt", v) ∈ data ∧ Expr.isAbsent v = false

theorem writesStamp_iff : t.WritesStamp data ↔ "updatedAt" ∈ (t.writable data).map Prod.fst := by
  rw [WritesStamp, List.mem_map]
  constructor
  · rintro ⟨hauto, v, hv, hthere⟩
    exact ⟨("updatedAt", v), mem_writable.2 ⟨hv, hthere, hauto⟩, rfl⟩
  · rintro ⟨⟨key, v⟩, hentry, rfl⟩
    obtain ⟨hv, hthere, hauto⟩ := mem_writable.1 hentry
    exact ⟨hauto, v, hv, hthere⟩

/-- A change of a table by data with distinct names, none of which has an underscore, assigns every
column once, whatever rows it is for, exactly unless the data write the time of the last change and
the model has a field for it. -/
theorem assigns_once_iff (hkeys : (data.map Prod.fst).Nodup)
    (hnames : ∀ name ∈ data.map Prod.fst, '_' ∉ name.toList) (criteria : List Criterion)
    (returning : List Expr) :
    (((criteria.foldl RowChange.filter (t.update data)).plan returning).assignments.map
      Assignment.column).Nodup ↔ ¬ (t.model.isStamped = true ∧ t.WritesStamp data) := by
  have hwritten : ((t.writable data).map Prod.fst).Sublist (data.map Prod.fst) :=
    List.filter_sublist.map _
  have hinj : ∀ name ∈ (t.writable data).map Prod.fst, ∀ other ∈ (t.writable data).map Prod.fst,
      Naming.camelToSnake name = Naming.camelToSnake other → name = other :=
    fun name hname other hother => Naming.camelToSnake_inj (hnames name (hwritten.subset hname))
      (hnames other (hwritten.subset hother))
  have hcolumns : (((t.writable data).map Prod.fst).map Naming.camelToSnake).Nodup :=
    List.Nodup.map_on hinj (hwritten.nodup hkeys)
  have hstamp : Naming.camelToSnake "updatedAt" ∈
      ((t.writable data).map Prod.fst).map Naming.camelToSnake ↔ t.WritesStamp data := by
    rw [writesStamp_iff]
    refine ⟨fun h => ?_, List.mem_map_of_mem⟩
    obtain ⟨name, hname, hcolumn⟩ := List.mem_map.1 h
    rwa [← Naming.camelToSnake_inj (hnames name (hwritten.subset hname)) (by decide) hcolumn]
  have hassigned : ((criteria.foldl RowChange.filter (t.update data)).plan returning).assignments =
      (t.update data).assignments := by
    rw [RowChange.foldl_filter]
    rfl
  rw [hassigned, RowChange.columns_eq]
  change (((t.writable data).map Prod.fst).map Naming.camelToSnake ++
    if t.model.isStamped then _ else _).Nodup ↔ _
  -- two columns can be the same only where one of them is that of the stamp
  by_cases hstamped : t.model.isStamped = true
  · rw [if_pos hstamped, List.nodup_append, ← hstamp]
    simp only [hcolumns, hstamped, List.nodup_singleton, List.mem_singleton, true_and, forall_eq]
    exact ⟨fun h hthere => h _ hthere rfl, fun h column hthere heq => h (heq ▸ hthere)⟩
  · rw [if_neg hstamped, List.append_nil]
    exact ⟨fun _ h => hstamped h.1, fun _ => hcolumns⟩

/-- Pages, which have a field for the time of their last change. -/
def pages (autoFields : List String) : Table where
  model :=
    { name := "Page"
      table := "pages"
      primaryKey := "id"
      connection := "main"
      fields := [("updatedAt", ⟨some "date", none, none⟩)]
      relations := []
      autoFields := autoFields }
  channel := none

/-- A title for a page and a time of its last change. -/
def retitled : List (String × Operand) :=
  [("title", .value (.string "Lean")), ("updatedAt", .value (.date (some 0)))]

/-- Where the time is left to the database, the one in the data is not written. -/
theorem assigns_once_iff_retitled : (retitled.map Prod.fst).Nodup ∧
    (∀ name ∈ retitled.map Prod.fst, '_' ∉ name.toList) ∧
    ((((pages defaultAutoFields).update retitled).plan []).assignments.map
      Assignment.column).Nodup := by
  have hkeys : (retitled.map Prod.fst).Nodup := by decide
  have hnames : ∀ name ∈ retitled.map Prod.fst, '_' ∉ name.toList := by decide
  refine ⟨hkeys, hnames, (assigns_once_iff hkeys hnames [] []).2 fun h => ?_⟩
  exact h.2.1 (by decide)

/-- Where it is not, the time is assigned twice, and the statement is sent as it is. -/
theorem assigns_twice :
    (retitled.map Prod.fst).Nodup ∧ (∀ name ∈ retitled.map Prod.fst, '_' ∉ name.toList) ∧
    ¬ ((((pages ["id"]).update retitled).plan []).assignments.map Assignment.column).Nodup ∧
    (compile (.make .mysql none) (.update ((([.comparison "id" .equal
      (.value (.number (.int 7)))] : List Criterion).foldl RowChange.filter
        ((pages ["id"]).update retitled)).plan []))).map Compiled.sql =
      .ok "UPDATE pages SET title = ?, updated_at = ?, updated_at = NOW() WHERE id = ?" := by
  refine ⟨by decide, by decide, by decide, ?_⟩
  rfl

end Table
end PolyQuery
