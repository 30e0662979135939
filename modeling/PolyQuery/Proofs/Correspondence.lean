import PolyQuery.Proofs.Assigning
import PolyQuery.Proofs.Listed

/-! Properties and the columns that are written for them. In rows whose columns differ and have no
capitals every property comes from a column of its own, `Naming.Uniform.isColumnOf`, so the columns
that insertions, changes and conditions name for a property are those from which it is read again,
and a row that is renamed keeps all of its columns: `Naming.columns_correspond`. -/
namespace PolyQuery

namespace Naming

/-- Columns that differ and have no capitals. -/
structure Uniform (columns : List String) : Prop where
  nodup : columns.Nodup
  uncapitalized : ∀ column ∈ columns, Uncapitalized column.toList

/-- The property is read from the column: what a row has there is what a record has for the property,
converted for its field, and without the column a record has nothing for it. -/
def IsColumnOf (column property : String) : Prop :=
  ∀ (fields : Option FieldMap) (d : Dialect) (r : Registry) (row record : Row),
    Uniform (row.map Prod.fst) → decodeRow fields d r row = .ok record →
    match row.lookup column with
    | some v => ∃ w, decodeValue (fields.bind fun fs => fs.find? property) d r v = .ok w ∧
        record.lookup property = some w
    | none => record.lookup property = none

/-! ## Columns without capitals -/

section Columns
variable {columns : List String} {fields : Option FieldMap} {d : Dialect} {r : Registry}
  {row record : Row} {property : String}

theorem Uniform.nodup_properties (h : Uniform columns) : (columns.map snakeToCamel).Nodup := by
  refine List.Nodup.map_on (fun column hcolumn other hother heq => ?_) h.nodup
  exact snakeToCamel_injOn (h.uncapitalized column hcolumn) (h.uncapitalized other hother) heq

/-- A property comes from its own column or from none. -/
theorem Uniform.columnFor? (h : Uniform columns) (hproperty : IsCamel property.toList) :
    columnFor? columns property =
      if camelToSnake property ∈ columns then some (camelToSnake property) else none := by
  split
  · next hthere =>
    have hfound := columnFor?_of_mem h.nodup_properties (List.Subset.refl _) hthere
    rwa [snakeToCamel_camelToSnake hproperty] at hfound
  · next hnone =>
    refine List.find?_eq_none.2 fun column hcolumn heq => hnone ?_
    have hmem := List.mem_reverse.1 hcolumn
    rwa [← beq_iff_eq.1 heq, camelToSnake_snakeToCamel (h.uncapitalized column hmem)]

/-- Where a row can be read, each of its values can. -/
theorem decodeValue_of_mem (h : decodeRow fields d r row = .ok record) {entry : String × Value}
    (hentry : entry ∈ row) : ∃ w,
      decodeValue (fields.bind fun fs => fs.find? (snakeToCamel entry.1)) d r entry.2 = .ok w := by
  unfold decodeRow at h
  obtain ⟨entries, hentries, -⟩ := bind_eq_ok.1 h
  obtain ⟨n, hn, rfl⟩ := List.getElem_of_mem hentry
  have hread := forall₂_of_mapM hentries
  obtain ⟨hname, hvalue⟩ := decodeColumn_ok (hread.get hn (hread.length_eq ▸ hn))
  exact ⟨_, hname ▸ hvalue⟩

/-- A property without an underscore before a small letter is read from its column. -/
theorem isColumnOf_camelToSnake (hproperty : IsCamel property.toList) :
    IsColumnOf (camelToSnake property) property := by
  intro fields d r row record hrow h
  have hentries : ∀ entry ∈ row, row.lookup entry.1 = some entry.2 :=
    fun entry hentry => lookup_of_mem hrow.nodup hentry
  have hread := lookup_decodeRow hentries h property
  rw [hrow.columnFor? hproperty] at hread
  -- the only column that can be read as the property is the one that its name is written as
  cases hcolumn : row.lookup (camelToSnake property) with
  | none =>
    have hnone : camelToSnake property ∉ row.map Prod.fst := Fields.lookup_eq_none.1 hcolumn
    rw [if_neg hnone] at hread
    exact hread
  | some v =>
    have hmem : (camelToSnake property, v) ∈ row := by
      obtain ⟨before, behind, rfl, -⟩ := List.lookup_eq_some_iff.1 hcolumn
      exact List.mem_append_right _ List.mem_cons_self
    obtain ⟨w, hw⟩ := decodeValue_of_mem h hmem
    rw [snakeToCamel_camelToSnake hproperty] at hw
    refine ⟨w, hw, ?_⟩
    rw [hread, if_pos (List.mem_map_of_mem hmem), readFrom, Option.bind_some, hcolumn,
      Option.bind_some, hw]
    rfl

theorem forall₂_isColumnOf {properties : List String}
    (h : ∀ property ∈ properties, IsCamel property.toList) :
    List.Forall₂ IsColumnOf (properties.map camelToSnake) properties :=
  List.forall₂_map_left_iff.2 (List.forall₂_same.2 fun property hproperty =>
    isColumnOf_camelToSnake (h property hproperty))

/-- A row that is renamed has one property for each column. -/
theorem Uniform.perm_renameRow (h : Uniform (row.map Prod.fst)) :
    (renameRow row).Perm (row.map fun entry => (snakeToCamel entry.1, entry.2)) := by
  refine Fields.perm_ofList ?_
  rw [List.map_map, Function.comp_def]
  have hproperties := h.nodup_properties
  rwa [List.map_map] at hproperties

theorem Uniform.lookup_renameRow (h : Uniform (row.map Prod.fst)) {entry : String × Value}
    (hentry : entry ∈ row) : (renameRow row).lookup (snakeToCamel entry.1) = some entry.2 := by
  have hproperties := h.nodup_properties
  rw [List.map_map] at hproperties
  refine lookup_of_mem ?_ (h.perm_renameRow.mem_iff.2 (List.mem_map_of_mem hentry))
  refine (h.perm_renameRow.map Prod.fst).nodup_iff.2 ?_
  rwa [List.map_map]

end Columns

/-! ## Names behind a table -/

theorem snakeChars_append (cs ds : List Char) :
    snakeChars (cs ++ ds) = snakeChars cs ++ snakeChars ds := by
  induction cs with
  | nil => rfl
  | cons c cs ih =>
    rw [List.cons_append, snakeChars, snakeChars]
    split <;> rw [ih] <;> rfl

theorem camelToSnake_append (name other : String) :
    camelToSnake (name ++ other) = camelToSnake name ++ camelToSnake other := by
  apply String.toList_injective
  simp only [camelToSnake, String.toList_append, String.toList_ofList, snakeChars_append]

theorem camelToSnake_ne_empty {name : String} (h : name ≠ "") : camelToSnake name ≠ "" := by
  intro hempty
  have hchars : snakeChars name.toList = [] := String.ofList_injective hempty
  cases hname : name.toList with
  | nil => exact h (String.toList_injective hname)
  | cons c cs =>
    rw [hname, snakeChars] at hchars
    split at hchars <;> cases hchars

end Naming

theorem Expr.splitAtLastPoint_qualified {table name : String} (h : '.' ∉ name.toList) :
    splitAtLastPoint (table ++ "." ++ name) = some (table, name) := by
  have hreversed : (table ++ "." ++ name).toList.reverse =
      name.toList.reverse ++ '.' :: table.toList.reverse := by
    rw [String.toList_append, String.toList_append, List.reverse_append, List.reverse_append]
    rfl
  have htail : (name.toList.reverse ++ '.' :: table.toList.reverse).takeWhile (· != '.') =
      name.toList.reverse := by
    rw [List.takeWhile_append_of_pos, List.takeWhile_cons_of_neg (by decide), List.append_nil]
    rintro c hc
    refine bne_iff_ne.2 ?_
    rintro rfl
    exact h (List.mem_reverse.1 hc)
  unfold splitAtLastPoint
  dsimp only
  rw [hreversed, htail, List.drop_left, List.reverse_reverse, String.ofList_toList]
  dsimp only
  rw [List.reverse_reverse, String.ofList_toList]

/-- A name behind a table and a point is that of a column of the table. -/
theorem Expr.reference_qualified {table name : String} (htable : table ≠ "")
    (h : '.' ∉ name.toList) :
    reference (table ++ "." ++ name) none = .column (some table) name none := by
  rw [reference, splitAtLastPoint_qualified h]
  exact if_neg htable

/-- A name without a point, but for one in front of it, is that of a column of any table. -/
theorem Expr.reference_unsplit {name : String} (h : '.' ∉ name.toList.tail) :
    reference name none = .column none name none := by
  cases hname : name.toList with
  | nil =>
    obtain rfl : name = "" := String.toList_injective hname
    rfl
  | cons c cs =>
    rw [hname, List.tail_cons] at h
    by_cases hc : c = '.'
    · -- nothing stands before the point
      have hsplit : name = "" ++ "." ++ String.ofList cs := by
        apply String.toList_injective
        rw [hname, hc, String.toList_append, String.toList_ofList]
        rfl
      rw [reference, hsplit, splitAtLastPoint_qualified (by rwa [String.toList_ofList])]
      rfl
    · refine reference_unqualified fun hmem => ?_
      rw [hname] at hmem
      exact (List.mem_cons.1 hmem).elim (fun heq => hc heq.symm) h

/-- A name with a point further behind is that of a column of a table. -/
theorem Expr.exists_qualified {name : String} (h : '.' ∈ name.toList.tail) :
    ∃ table column, table ≠ "" ∧ '.' ∉ column.toList ∧ name = table ++ "." ++ column := by
  cases hname : name.toList with
  | nil =>
    rw [hname] at h
    cases h
  | cons c cs =>
    rw [hname, List.tail_cons] at h
    -- the last point is the first one from behind
    obtain ⟨behind, before, hsplit, hbehind⟩ := List.eq_append_cons_of_mem (List.mem_reverse.2 h)
    have hcs : cs = before.reverse ++ '.' :: behind.reverse := by
      rw [← List.reverse_reverse cs, hsplit, List.reverse_append, List.reverse_cons,
        List.append_assoc]
      rfl
    refine ⟨String.ofList (c :: before.reverse), String.ofList behind.reverse, ?_, ?_, ?_⟩
    · intro hempty
      cases String.ofList_injective hempty
    · rwa [String.toList_ofList, List.mem_reverse]
    · apply String.toList_injective
      have hpoint : ".".toList = ['.'] := rfl
      rw [hname, hcs, String.toList_append, String.toList_append, hpoint, String.toList_ofList,
        String.toList_ofList, List.append_assoc]
      rfl

/-- Every reference is to a column. -/
theorem Expr.exists_reference (name : String) :
    ∃ table column, reference name none = .column table column none := by
  by_cases hpoint : '.' ∈ name.toList.tail
  · obtain ⟨table, column, htable, hcolumn, rfl⟩ := exists_qualified hpoint
    exact ⟨_, _, reference_qualified htable hcolumn⟩
  · exact ⟨_, _, reference_unsplit hpoint⟩

/-- A reference is to a column of the very name exactly if the name is not split. -/
theorem Expr.reference_named_iff {name : String} :
    (∃ table, reference name none = .column table name none) ↔ '.' ∉ name.toList.tail := by
  constructor
  · rintro ⟨other, hname⟩ hpoint
    obtain ⟨table, column, htable, hcolumn, rfl⟩ := exists_qualified hpoint
    rw [reference_qualified htable hcolumn] at hname
    injection hname with _ hname
    rw [hname, String.toList_append, String.toList_append] at hcolumn
    exact hcolumn (by simp)
  · intro hpoint
    exact ⟨none, reference_unsplit hpoint⟩

/-- Only a point behind the front of a name is one behind the front of its column. -/
theorem Naming.point_of_tail_camelToSnake {name : String}
    (h : '.' ∈ (camelToSnake name).toList.tail) : '.' ∈ name.toList.tail := by
  rw [camelToSnake, String.toList_ofList] at h
  cases hname : name.toList with
  | nil =>
    rw [hname] at h
    cases h
  | cons c cs =>
    rw [hname, snakeChars] at h
    split at h
    · next hcapital =>
      have hmem : '.' ∈ snakeChars (c :: cs) := by
        rw [snakeChars, if_pos hcapital]
        exact List.mem_cons_of_mem _ h
      refine (List.mem_cons.1 (point_of_snakeChars hmem)).resolve_left ?_
      rintro rfl
      cases hcapital
    · exact point_of_snakeChars h

/-- A property without a point, but for one in front of it, is that of a column of any table. -/
theorem propertyColumn_unqualified {name : String} (h : '.' ∉ name.toList.tail) :
    propertyColumn name = .column none (Naming.camelToSnake name) none :=
  Expr.reference_unsplit fun hpoint => h (Naming.point_of_tail_camelToSnake hpoint)

/-- A property behind a table and a point is that of a column of the table. -/
theorem propertyColumn_qualified {table property : String} (htable : table ≠ "")
    (h : '.' ∉ property.toList) : propertyColumn (table ++ "." ++ property) =
      .column (some (Naming.camelToSnake table)) (Naming.camelToSnake property) none := by
  have hpoint : '.' ∉ (Naming.camelToSnake property).toList := by
    rw [Naming.camelToSnake, String.toList_ofList]
    exact fun hmem => h (Naming.point_of_snakeChars hmem)
  have hmark : Naming.camelToSnake "." = "." := rfl
  rw [propertyColumn, Naming.camelToSnake_append, Naming.camelToSnake_append, hmark,
    Expr.reference_qualified (Naming.camelToSnake_ne_empty htable) hpoint]

/-! ## Statements -/

/-- The operand that a test is about. -/
def Expr.subject? : Expr → Option Expr
  | .unary _ operand => some operand
  | .binary _ left _ => some left
  | .inList operand _ _ => some operand
  | _ => none

/-- A comparison of a property is about its column. -/
theorem subject?_compareProperty (fields : Option FieldMap) (name : String) (c : Comparison)
    (v : Operand) : (compareProperty fields name c v).subject? = some (propertyColumn name) := by
  cases c with
  | equal =>
    unfold compareProperty
    dsimp only
    split
    · rfl
    · unfold Expr.equals
      split <;> rfl
  | different =>
    unfold compareProperty
    dsimp only
    split
    · rfl
    · unfold Expr.differs
      split <;> rfl
  | among negated => rfl
  | operator op => rfl

/-- The properties that a change gives new values, the time of the change among them. -/
def RowChange.properties (u : RowChange) : List String :=
  u.data.map Prod.fst ++ if u.table.model.isStamped then ["updatedAt"] else []

theorem RowChange.map_properties (u : RowChange) :
    u.properties.map Naming.camelToSnake = u.assignments.map Assignment.column := by
  rw [columns_eq, properties, List.map_append, apply_ite (List.map _)]
  rfl

namespace Naming

/-- Properties without an underscore before a small letter and columns without a capital are the names
that are found again, and no two of them go to one name. So the columns that are inserted, changed
and asked for under such names are those from which the properties are read, a qualified name being
one of its last part, and rows with such columns are renamed without loss. -/
theorem columns_correspond :
    (∀ property, snakeToCamel (camelToSnake property) = property ↔ IsCamel property.toList) ∧
    (∀ column, camelToSnake (snakeToCamel column) = column ↔ Uncapitalized column.toList) ∧
    Set.InjOn camelToSnake {property | IsCamel property.toList} ∧
    Set.InjOn snakeToCamel {column | Uncapitalized column.toList} ∧
    (∀ (t : Table) (records : List (List (String × Operand))) (returning : List Expr),
      (∀ key ∈ Table.keysOf records, IsCamel key.toList) →
      List.Forall₂ IsColumnOf (t.insertPlan records returning).columns (Table.keysOf records)) ∧
    (∀ (u : RowChange) (returning : List Expr), (∀ key ∈ u.data.map Prod.fst, IsCamel key.toList) →
      List.Forall₂ IsColumnOf ((u.plan returning).assignments.map Assignment.column)
        u.properties) ∧
    (∀ fields name c v,
      (compareProperty fields name c v).subject? = some (propertyColumn name)) ∧
    (∀ name, '.' ∉ name.toList.tail → IsCamel name.toList → ∃ column,
      propertyColumn name = .column none column none ∧ IsColumnOf column name) ∧
    (∀ table name, table ≠ "" → '.' ∉ name.toList → IsCamel name.toList → ∃ column,
      propertyColumn (table ++ "." ++ name) = .column (some (camelToSnake table)) column none ∧
      IsColumnOf column name) ∧
    (∀ row : Row, Uniform (row.map Prod.fst) →
      (renameRow row).Perm (row.map fun entry => (snakeToCamel entry.1, entry.2)) ∧
      ∀ entry ∈ row, (renameRow row).lookup (snakeToCamel entry.1) = some entry.2) := by
  refine ⟨fun _ => snakeToCamel_camelToSnake_iff, fun _ => camelToSnake_snakeToCamel_iff,
    camelToSnake_injOn, snakeToCamel_injOn, ?_, ?_, subject?_compareProperty, ?_, ?_, ?_⟩
  · intro t records returning hkeys
    exact forall₂_isColumnOf hkeys
  · intro u returning hkeys
    change List.Forall₂ IsColumnOf (u.assignments.map Assignment.column) _
    rw [← u.map_properties]
    refine forall₂_isColumnOf fun property hproperty => ?_
    rcases List.mem_append.1 hproperty with hkey | hstamp
    · exact hkeys property hkey
    -- a property that is not among the keys is the stamp
    · split at hstamp
      · obtain rfl := List.mem_singleton.1 hstamp
        decide
      · cases hstamp
  · intro name hpoint hname
    exact ⟨_, propertyColumn_unqualified hpoint, isColumnOf_camelToSnake hname⟩
  · intro table name htable hpoint hname
    exact ⟨_, propertyColumn_qualified htable hpoint, isColumnOf_camelToSnake hname⟩
  · intro row hrow
    exact ⟨hrow.perm_renameRow, fun entry hentry => hrow.lookup_renameRow hentry⟩

/-- A new day for a note. -/
def redated : RowChange := ⟨Table.notes, [("writtenAt", .value (.date (some 0)))], []⟩

/-- A note with a number and a day. -/
def noteRow : Row := [("id", .number (.int 7)), ("written_at", .date (some 0))]

/-- The day of a note is written to the column from which it is read, and asked for under it. -/
theorem columns_correspond_notes :
    (∀ key ∈ Table.keysOf Table.drafts, IsCamel key.toList) ∧
    List.Forall₂ IsColumnOf (Table.notes.insertPlan Table.drafts []).columns
      (Table.keysOf Table.drafts) ∧
    (∀ key ∈ redated.data.map Prod.fst, IsCamel key.toList) ∧
    List.Forall₂ IsColumnOf ((redated.plan []).assignments.map Assignment.column)
      redated.properties ∧
    IsCamel "writtenAt".toList ∧ '.' ∉ "writtenAt".toList ∧
    (∃ column, propertyColumn "writtenAt" = .column none column none ∧
      IsColumnOf column "writtenAt") ∧
    (∃ column, propertyColumn ("myNotes" ++ "." ++ "writtenAt") =
      .column (some (camelToSnake "myNotes")) column none ∧ IsColumnOf column "writtenAt") ∧
    Uniform (noteRow.map Prod.fst) ∧
    (renameRow noteRow).lookup (snakeToCamel "written_at") = some (.date (some 0)) := by
  obtain ⟨-, -, -, -, hinsert, hchange, -, hname, hqualified, hrename⟩ := columns_correspond
  have hkeys : ∀ key ∈ Table.keysOf Table.drafts, IsCamel key.toList := by decide
  have hkey : ∀ key ∈ redated.data.map Prod.fst, IsCamel key.toList := by decide
  have hcamel : IsCamel "writtenAt".toList := by decide
  have hpoint : '.' ∉ "writtenAt".toList := by decide
  have hrow : Uniform (noteRow.map Prod.fst) := ⟨by decide, by decide⟩
  have hentry : ("written_at", Value.date (some 0)) ∈ noteRow := by simp [noteRow]
  exact ⟨hkeys, hinsert _ _ [] hkeys, hkey, hchange _ [] hkey, hcamel, hpoint,
    hname _ (by decide) hcamel, hqualified "myNotes" _ (by decide) hpoint hcamel, hrow,
    (hrename _ hrow).2 _ hentry⟩

end Naming
end PolyQuery
