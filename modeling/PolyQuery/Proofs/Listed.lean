import PolyQuery.Proofs.Batches
import PolyQuery.Proofs.Columns
import PolyQuery.Proofs.Conversion

/-! Select lists. A query that lists columns gets these of every row that it asks for, and one that lists
none gets whole rows: `Row.listed`. Of the properties of a record those are left whose columns are
listed: `lookup_listed`. A modifier that only selects columns leaves a batch as it is but for the
list: `Loader.batchOf_selecting`. -/
namespace PolyQuery

/-! ## Rows with the columns that are listed -/

/-- The columns that come of a select list, from a table with the given ones. -/
def listedColumns (items : List Expr) (columns : List String) : List String :=
  if items.isEmpty then columns
  else (items.filterMap Expr.outputName).filter fun column => columns.contains column

/-- What a server returns of a row for a select list. -/
def Row.listed (items : List Expr) (row : Row) : Row :=
  if items.isEmpty then row
  else (items.filterMap Expr.outputName).filterMap fun column =>
    (row.lookup column).map fun v => (column, v)

/-- A select list has a column that becomes the property. -/
def Lists (items : List Expr) (columns : List String) (property : String) : Prop :=
  ∃ column ∈ listedColumns items columns, Naming.snakeToCamel column = property

section Rows
variable {items : List Expr} {columns : List String} {row : Row} {property : String}

instance : Decidable (Lists items columns property) :=
  inferInstanceAs (Decidable (∃ column ∈ listedColumns items columns, _))

theorem listedColumns_subset : listedColumns items columns ⊆ columns := by
  unfold listedColumns
  split
  · exact List.Subset.refl _
  · intro column hcolumn
    exact List.contains_iff_mem.1 (List.mem_filter.1 hcolumn).2

theorem mem_listed (hcolumns : (row.map Prod.fst).Nodup) :
    ∀ entry ∈ row.listed items, row.lookup entry.1 = some entry.2 := by
  intro entry hentry
  unfold Row.listed at hentry
  split at hentry
  · exact lookup_of_mem hcolumns hentry
  · obtain ⟨column, -, hentry⟩ := List.mem_filterMap.1 hentry
    obtain ⟨v, hv, rfl⟩ := Option.map_eq_some_iff.1 hentry
    exact hv

theorem listed_subset (hcolumns : (row.map Prod.fst).Nodup) : row.listed items ⊆ row := by
  intro entry hentry
  obtain ⟨before, behind, hrow, -⟩ :=
    List.lookup_eq_some_iff.1 (mem_listed hcolumns entry hentry)
  rw [hrow]
  exact List.mem_append_right _ List.mem_cons_self

theorem contains_columns (row : Row) (column : String) :
    (row.map Prod.fst).contains column = (row.lookup column).isSome := by
  induction row with
  | nil => rfl
  | cons entry rest ih =>
    obtain ⟨name, v⟩ := entry
    rw [List.map_cons, List.contains_cons, ih, Record.lookup_cons_eq]
    by_cases h : column = name
    · rw [if_pos h, beq_iff_eq.2 h]
      rfl
    · rw [if_neg h, beq_false_of_ne h, Bool.false_or]

theorem map_listed (items : List Expr) (row : Row) :
    (row.listed items).map Prod.fst = listedColumns items (row.map Prod.fst) := by
  unfold Row.listed listedColumns
  split
  · rfl
  · induction items.filterMap Expr.outputName with
    | nil => rfl
    | cons column rest ih =>
      rw [List.filterMap_cons, List.filter_cons, contains_columns]
      cases row.lookup column with
      | none => exact ih
      | some v => exact congrArg (column :: ·) ih

/-- Where no two columns become one property, a column of a property is the one from which it is
read. -/
theorem columnFor?_of_mem {part : List String} {column : String}
    (hapart : (columns.map Naming.snakeToCamel).Nodup) (hpart : part ⊆ columns)
    (hcolumn : column ∈ part) : columnFor? part (Naming.snakeToCamel column) = some column := by
  cases hfound : columnFor? part (Naming.snakeToCamel column) with
  | none =>
    have hnone := List.find?_eq_none.1 hfound column (List.mem_reverse.2 hcolumn)
    exact (hnone (beq_iff_eq.2 rfl)).elim
  | some other =>
    have hother : other ∈ part := List.mem_reverse.1 (List.mem_of_find?_eq_some hfound)
    have hsame : Naming.snakeToCamel other = Naming.snakeToCamel column :=
      beq_iff_eq.1 (List.find?_some (p := fun c => Naming.snakeToCamel c == _) hfound)
    exact congrArg some (List.inj_on_of_nodup_map hapart (hpart hother) (hpart hcolumn) hsame)

/-- So a property is read from its column if that is listed, and not at all if it is not. -/
theorem columnFor?_listed (hapart : (columns.map Naming.snakeToCamel).Nodup)
    (items : List Expr) (property : String) :
    columnFor? (listedColumns items columns) property =
      if Lists items columns property then columnFor? columns property else none := by
  split
  · next hlists =>
    obtain ⟨column, hcolumn, rfl⟩ := hlists
    rw [columnFor?_of_mem hapart listedColumns_subset hcolumn,
      columnFor?_of_mem hapart (List.Subset.refl _) (listedColumns_subset hcolumn)]
  · next hlists =>
    refine List.find?_eq_none.2 fun column hcolumn hproperty => hlists ?_
    exact ⟨column, List.mem_reverse.1 hcolumn, beq_iff_eq.1 hproperty⟩

/-- Of a record, the properties are left whose columns are listed. -/
theorem lookup_listed {fields : Option FieldMap} {d : Dialect} {r : Registry} {whole narrow : Row}
    (hapart : ((row.map Prod.fst).map Naming.snakeToCamel).Nodup)
    (hwhole : decodeRow fields d r row = .ok whole)
    (hnarrow : decodeRow fields d r (row.listed items) = .ok narrow) (property : String) :
    narrow.lookup property =
      if Lists items (row.map Prod.fst) property then whole.lookup property else none := by
  have hcolumns : (row.map Prod.fst).Nodup := hapart.of_map _
  have hentries : ∀ entry ∈ row, row.lookup entry.1 = some entry.2 :=
    fun entry hentry => lookup_of_mem hcolumns hentry
  rw [lookup_decodeRow (mem_listed hcolumns) hnarrow, map_listed, columnFor?_listed hapart,
    lookup_decodeRow hentries hwhole]
  split <;> rfl

end Rows

/-! ## Lists of properties -/

/-- A column is written with no point that its property does not have. -/
theorem Naming.point_of_snakeChars {cs : List Char} (h : '.' ∈ snakeChars cs) : '.' ∈ cs := by
  induction cs with
  | nil => exact h
  | cons c cs ih =>
    rw [snakeChars] at h
    split at h
    · next hcapital =>
      have hsmall := (small_of_capital hcapital).1
      have hletter (d : Char) (hd : Text.isSmall d = true) : '.' ≠ d := by
        rintro rfl
        exact absurd hd (by decide)
      obtain h | h := List.mem_cons.1 h
      · exact absurd h (by decide)
      obtain h | h := List.mem_cons.1 h
      · exact (hletter _ hsmall h).elim
      · exact List.mem_cons_of_mem c (ih h)
    · obtain h | h := List.mem_cons.1 h
      · exact h ▸ List.mem_cons_self
      · exact List.mem_cons_of_mem c (ih h)

/-- A name by which records have a property and rows its column. -/
structure IsProperty (columns : List String) (name : String) : Prop where
  camel : Naming.IsCamel name.toList
  unqualified : '.' ∉ name.toList
  column : Naming.camelToSnake name ∈ columns

theorem IsProperty.outputName {columns : List String} {name : String} (h : IsProperty columns name) :
    (propertyColumn name).outputName = some (Naming.camelToSnake name) := by
  have hpoint : '.' ∉ (Naming.camelToSnake name).toList := by
    rw [Naming.camelToSnake, String.toList_ofList]
    exact fun hmem => h.unqualified (Naming.point_of_snakeChars hmem)
  rw [propertyColumn, Expr.reference_unqualified hpoint]
  rfl

/-- A list of properties has the columns of these properties. -/
theorem lists_iff {columns names : List String} {property : String} (hnames : names ≠ [])
    (hproperties : ∀ name ∈ names, IsProperty columns name) :
    Lists (names.map propertyColumn) columns property ↔ property ∈ names := by
  have hsome : (names.map propertyColumn).isEmpty = false := by
    cases names with
    | nil => exact (hnames rfl).elim
    | cons name rest => rfl
  have houtput : (names.map propertyColumn).filterMap Expr.outputName =
      names.map Naming.camelToSnake := by
    rw [List.filterMap_map, ← List.filterMap_eq_map]
    refine List.filterMap_congr fun name hname => ?_
    rw [Function.comp_apply, (hproperties name hname).outputName, Function.comp_apply]
  unfold Lists listedColumns
  rw [hsome, if_neg Bool.false_ne_true, houtput]
  constructor
  -- each name is read back from the column that it is written as
  · rintro ⟨column, hcolumn, rfl⟩
    obtain ⟨name, hname, rfl⟩ := List.mem_map.1 (List.mem_of_mem_filter hcolumn)
    rwa [Naming.snakeToCamel_camelToSnake (hproperties name hname).camel]
  · intro hname
    have h := hproperties property hname
    refine ⟨_, List.mem_filter.2 ⟨List.mem_map_of_mem hname, List.contains_iff_mem.2 h.column⟩, ?_⟩
    exact Naming.snakeToCamel_camelToSnake h.camel

/-! ## Batches with a select list -/

namespace Builder
variable {b : Builder} {items : List Expr}

/-- The same query with another select list. -/
def listing (b : Builder) (items : List Expr) : Builder := { b with items := items }

/-- Selections of properties, one after another. -/
def selecting (lists : List (List String)) (b : Builder) : Builder :=
  lists.foldl (fun b names => b.select (names.map .property)) b

/-- Of selections one after another the last one counts. -/
theorem selecting_eq (lists : List (List String)) (b : Builder) : b.selecting lists =
    b.listing ((lists.getLast?.map fun names => names.map propertyColumn).getD b.items) := by
  induction lists using List.reverseRecOn with
  | nil => rfl
  | append_singleton lists names ih =>
    have hitems : (names.map ColumnChoice.property).map ColumnChoice.toExpr =
        names.map propertyColumn := by
      rw [List.map_map]
      refine List.map_congr_left fun name _ => ?_
      rw [Function.comp_apply, ColumnChoice.toExpr]
    have hlast : b.selecting (lists ++ [names]) = (b.selecting lists).select (names.map .property) :=
      List.foldl_append
    rw [hlast, ih, List.getLast?_concat, Option.map_some, Option.getD_some, ← hitems]
    rfl

end Builder

/-- A step with a modifier. -/
def LoadStep.modifiedBy (s : LoadStep) (name : String) : LoadStep :=
  { s with node := { s.node with modifier := some name } }

namespace Loader

/-- A batch with a select list asks for the same rows as without. -/
theorem batchOf_listing (ctx : LoadContext) (s : LoadStep) (keys : List Value) (q : Builder)
    (items : List Expr) :
    batchOf ctx s keys (q.listing items) = (batchOf ctx s keys q).listing items := by
  have hfilter (criteria : List Criterion) :
      criteria.foldl Builder.filter (q.listing items) =
        (criteria.foldl Builder.filter q).listing items := by
    rw [Builder.foldl_filter, Builder.foldl_filter, Builder.andWhere_eq, Builder.andWhere_eq]
    rfl
  unfold batchOf directed
  rw [hfilter]
  cases ctx.channel with
  | none => rfl
  | some c =>
    dsimp only
    split <;> rfl

/-- What a modifier selects, of a query for all columns. -/
def selected (lists : List (List String)) : List Expr := (lists.getLastD []).map propertyColumn

/-- A modifier that only selects columns leaves the query for the children but for its select
list. -/
theorem modifiedQuery_selecting {σ : Session} {s : LoadStep} {name : String}
    {lists : List (List String)} {q : Builder} (hplain : s.node.modifier = none)
    (hname : σ.modifiers.lookup name = some fun b => .ok (b.selecting lists))
    (hq : modifiedQuery σ s = .ok q) :
    modifiedQuery σ (s.modifiedBy name) = .ok (q.listing (selected lists)) := by
  have hmodifier : (s.modifiedBy name).node.modifier.bind (fun name => σ.modifiers.lookup name) =
      some fun b => .ok (b.selecting lists) := hname
  unfold modifiedQuery at hq ⊢
  rw [hplain] at hq
  -- the modifier changes the node of the step, and the query is for the target
  have htarget : (s.modifiedBy name).target = s.target := rfl
  rw [hmodifier, htarget]
  cases hm : σ.models.find? fun m => m.name == s.target.name with
  | none =>
    rw [hm] at hq
    cases hq
  | some m =>
    rw [hm] at hq
    cases hq
    dsimp only
    rw [Builder.selecting_eq, selected, List.getLastD_eq_getLast?]
    cases lists.getLast? <;> rfl

end Loader
end PolyQuery
