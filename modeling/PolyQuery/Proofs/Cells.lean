import Mathlib.Data.List.Nodup
import PolyQuery.Proofs.Narrowing
import PolyQuery.Proofs.ParentKeys
import PolyQuery.Proofs.Token

/-! The cells of an insertion. Records with keys of their own become rows over the keys of all of
them, and the rows become one list of placeholders and one list of values. A cell is found in both
lists at the same place, which its row and its column tell: `Table.insert_cells`. -/
namespace PolyQuery

/-! ## Fragments of one width -/

/-- Where lists of one length are joined, the items of each are found behind those of the lists
before it. -/
theorem getElem?_flatMap_uniform {α β : Type} {rows : List α} {cells : α → List β} {width i j : Nat}
    {row : α} (hwidth : ∀ row ∈ rows, (cells row).length = width) (hi : rows[i]? = some row)
    (hj : j < width) : (rows.flatMap cells)[i * width + j]? = (cells row)[j]? := by
  induction rows generalizing i with
  | nil => cases hi
  | cons first rest ih =>
    have hfirst : (cells first).length = width := hwidth first List.mem_cons_self
    rw [List.flatMap_cons]
    cases i with
    | zero =>
      obtain rfl : first = row := Option.some.inj hi
      rw [Nat.zero_mul, Nat.zero_add, List.getElem?_append_left (hfirst.symm ▸ hj)]
    | succ i =>
      have hbehind : (i + 1) * width + j = (cells first).length + (i * width + j) := by
        rw [hfirst, Nat.succ_mul]
        omega
      rw [hbehind, List.getElem?_append_right (Nat.le_add_right ..), Nat.add_sub_cancel_left]
      exact ih (fun row hrow => hwidth row (List.mem_cons_of_mem _ hrow)) hi

namespace Fragment
variable {d : Dialect} {width : Nat} {shown : Nat → String}

/-- The texts of things of one width that stand one behind the other. -/
def series (shown : Nat → String) (width count n : Nat) : List String :=
  (List.range count).map fun i => shown (n + i * width)

theorem series_succ (shown : Nat → String) (width count n : Nat) :
    series shown width (count + 1) n = shown n :: series shown width count (n + width) := by
  have hbehind (i : Nat) : n + (i + 1) * width = n + width + i * width := by
    rw [Nat.succ_mul]
    omega
  rw [series, List.range_succ_eq_map, List.map_cons, List.map_map, Nat.zero_mul, Nat.add_zero]
  exact congrArg _ (List.map_congr_left fun i _ => congrArg shown (hbehind i))

/-- A number of values, and a text that depends on the number of values before it alone. -/
structure Shows (d : Dialect) (width : Nat) (shown : Nat → String) (f : Fragment) : Prop where
  length : f.bindings.length = width
  chars : ∀ n, f.chars d n = (shown n).toList

theorem shows_bind (b : Binding) : (bind b).Shows d 1 fun n => d.placeholder (n + 1) :=
  ⟨rfl, fun n => chars_bind n b⟩

theorem Shows.enclosed {f : Fragment} (h : f.Shows d width shown) :
    f.enclosed.Shows d width fun n => "(" ++ shown n ++ ")" := by
  refine ⟨by rw [bindings_enclosed, h.length], fun n => ?_⟩
  rw [Fragment.enclosed, chars_append, chars_append, chars_text, chars_text, bindings_text,
    List.length_nil, Nat.add_zero, h.chars, String.toList_append, String.toList_append]

/-- Each of the joined fragments stands behind the values of those before it. -/
theorem shows_join (separator : String) {fs : List Fragment}
    (h : ∀ f ∈ fs, f.Shows d width shown) : (join separator fs).Shows d (fs.length * width)
      fun n => separator.intercalate (series shown width fs.length n) := by
  induction fs with
  | nil => exact ⟨(Nat.zero_mul width).symm, fun _ => rfl⟩
  | cons f fs ih =>
    have hf : f.Shows d width shown := h f List.mem_cons_self
    have hrest := ih fun g hg => h g (List.mem_cons_of_mem _ hg)
    cases fs with
    | nil =>
      refine ⟨by rw [join, hf.length, List.length_singleton, Nat.one_mul], fun n => ?_⟩
      rw [join, hf.chars, List.length_singleton, series_succ]
      exact congrArg String.toList String.intercalate_singleton.symm
    | cons g gs =>
      rw [join_cons_cons]
      refine ⟨?_, fun n => ?_⟩
      · rw [bindings_append, bindings_append, bindings_text, List.append_nil, List.length_append,
          hf.length, hrest.length, Nat.add_comm, ← Nat.succ_mul]
        rfl
      · rw [chars_append, chars_append, chars_text, bindings_append, bindings_text, List.append_nil,
          hf.length, hf.chars, hrest.chars, List.length_cons, List.length_cons, List.length_cons,
          series_succ, series_succ, series_succ, String.intercalate_cons_cons, String.toList_append,
          String.toList_append]

end Fragment

/-! ## Keys and values -/

theorem nodup_eraseDups (texts : List String) : texts.eraseDups.Nodup := by
  induction texts using List.reverseRecOn with
  | nil => exact List.nodup_nil
  | append_singleton texts key ih =>
    rw [Loader.eraseDups_concat]
    by_cases h : key ∈ texts
    · rwa [if_pos h]
    · rw [if_neg h]
      exact List.concat_eq_append ▸ List.Nodup.concat (List.mem_eraseDups.not.2 h) ih

/-- The entry of a key that stands there once is found. -/
theorem lookup_of_mem {α : Type} {entries : List (String × α)} {key : String} {a : α}
    (hkeys : (entries.map Prod.fst).Nodup) (h : (key, a) ∈ entries) :
    entries.lookup key = some a := by
  induction entries with
  | nil => cases h
  | cons e rest ih =>
    obtain ⟨k, b⟩ := e
    obtain ⟨hnew, hrest⟩ := List.nodup_cons.1 hkeys
    rw [Record.lookup_cons_eq]
    obtain heq | hbehind := List.mem_cons.1 h
    · cases heq
      rw [if_pos rfl]
    · have hne : key ≠ k := by
        rintro rfl
        exact hnew (List.mem_map.2 ⟨_, hbehind, rfl⟩)
      rw [if_neg hne, ih hrest hbehind]

/-- A literal is bound as it is, unless it is undefined. -/
theorem Sql.expr_literal {d : Dialect} {v : Value} {hint : Hint} (h : v ≠ .undefined) :
    Sql.expr d (.literal v hint) = .ok (.bind ⟨v, hint⟩) := by
  cases v with
  | undefined => exact absurd rfl h
  | _ => rfl

namespace Table
variable {t : Table} {records : List (List (String × Operand))}
  {record : List (String × Operand)} {key : String} {d : Dialect}

theorem keysOf_eq (records : List (List (String × Operand))) :
    keysOf records = (records.flatMap fun r => r.map Prod.fst).eraseDups := by
  rw [keysOf]
  induction (records.flatMap fun r => r.map Prod.fst) using List.reverseRecOn with
  | nil => rfl
  | append_singleton texts key ih =>
    rw [List.foldl_append, ih, Loader.eraseDups_concat, List.foldl_cons, List.foldl_nil]
    simp only [List.contains_eq_mem, List.mem_eraseDups, decide_eq_true_eq]

/-- The keys that records write, each once, in order of first occurrence. -/
def writtenKeys (t : Table) (records : List (List (String × Operand))) : List String :=
  (records.flatMap fun r => (t.writable r).map Prod.fst).eraseDups

theorem keysOf_writable (records : List (List (String × Operand))) :
    keysOf (records.map t.writable) = t.writtenKeys records := by
  rw [keysOf_eq, List.flatMap_map, writtenKeys]

/-- The keys are those that a record defines and that are not left to the database. -/
theorem mem_writtenKeys : key ∈ t.writtenKeys records ↔ key ∉ t.model.autoFields ∧
    ∃ r ∈ records, ∃ v, (key, v) ∈ r ∧ Expr.isAbsent v = false := by
  rw [writtenKeys, List.mem_eraseDups, List.mem_flatMap]
  constructor
  · rintro ⟨r, hr, hkey⟩
    obtain ⟨⟨_, v⟩, hentry, rfl⟩ := List.mem_map.1 hkey
    obtain ⟨hv, hthere, hauto⟩ := mem_writable.1 hentry
    exact ⟨hauto, r, hr, v, hv, hthere⟩
  · rintro ⟨hauto, r, hr, v, hv, hthere⟩
    exact ⟨r, hr, List.mem_map.2 ⟨(key, v), mem_writable.2 ⟨hv, hthere, hauto⟩, rfl⟩⟩

/-- The hints for a value of a property. -/
def hintFor (t : Table) (key : String) (v : Value) : Hint :=
  match t.model.fields.find? (unqualified key) with
  | some f => ⟨f.hostType.getD ((f.adapter.map Adapter.hostType).getD v.hostType),
      f.representation, f.adapter⟩
  | none => ⟨v.hostType, none, none⟩

/-- A value for a property is a literal with the hints of the property. -/
theorem propertyValue_eq {v : Operand} (hv : ∀ e, v ≠ .expr e) :
    propertyValue t.fields key v = .literal v.toValue (t.hintFor key v.toValue) := by
  rw [hintFor]
  unfold propertyValue
  rw [fields, Option.bind_some]
  cases t.model.fields.find? (unqualified key) <;> cases v <;>
    first | rfl | exact absurd rfl (hv _)

/-- A binding for what a record has for a key. -/
def cell (t : Table) (record : List (String × Operand)) (key : String) : Binding :=
  ⟨(valueFor record key).toValue, t.hintFor key (valueFor record key).toValue⟩

/-- The record's value for the key, or nothing where it has no defined one, before any conversion
and with the hints of the key's field. -/
structure Fills (t : Table) (record : List (String × Operand)) (key : String) (b : Binding) :
    Prop where
  value : ∀ v, (key, v) ∈ record → Expr.isAbsent v = false → b.value = v.toValue
  missing : (∀ v, (key, v) ∈ record → Expr.isAbsent v = true) → b.value = .null
  hint : b.hint = t.hintFor key b.value

theorem fills_cell (hkeys : (record.map Prod.fst).Nodup) (hauto : key ∉ t.model.autoFields) :
    t.Fills record key (t.cell (t.writable record) key) := by
  have hwritten : ((t.writable record).map Prod.fst).Nodup :=
    hkeys.sublist (List.filter_sublist.map _)
  refine ⟨fun v hv hthere => ?_, fun hnone => ?_, rfl⟩
  · have hfound : (t.writable record).lookup key = some v :=
      lookup_of_mem hwritten (mem_writable.2 ⟨hv, hthere, hauto⟩)
    rw [cell, valueFor, hfound]
    dsimp only
    -- of what a record has for a key only null is written as nothing
    by_cases hmissing : v.isMissing = true
    · rw [if_pos hmissing]
      cases v with
      | value v => cases v <;> cases hmissing <;> first | rfl | cases hthere
      | _ => cases hmissing
    · rw [if_neg hmissing]
  · have hfound : (t.writable record).lookup key = none := by
      rw [List.lookup_eq_none_iff]
      rintro ⟨k, v⟩ hentry
      obtain ⟨hv, hthere, -⟩ := mem_writable.1 hentry
      refine bne_iff_ne.2 ?_
      rintro rfl
      rw [hnone v hv] at hthere
      cases hthere
    rw [cell, valueFor, hfound]
    rfl

/-! ## The statement -/

/-- No entry is an expression. -/
def IsPlain (record : List (String × Operand)) : Prop := ∀ key e, (key, .expr e) ∉ record

theorem valueFor_ne_expr (hplain : IsPlain record) (e : Expr) : valueFor record key ≠ .expr e := by
  rw [valueFor]
  cases hfound : record.lookup key with
  | none => nofun
  | some v =>
    dsimp only
    split
    · nofun
    · rintro rfl
      obtain ⟨before, behind, hrecord, -⟩ := List.lookup_eq_some_iff.1 hfound
      exact hplain key e (hrecord ▸ List.mem_append_right _ List.mem_cons_self)

theorem valueFor_ne_undefined : valueFor record key ≠ .value .undefined := by
  rw [valueFor]
  cases record.lookup key with
  | none => nofun
  | some v =>
    dsimp only
    split
    · nofun
    · rintro rfl
      contradiction

theorem toValue_valueFor (hplain : IsPlain record) :
    (valueFor record key).toValue ≠ .undefined := by
  have hexpr : ∀ e, valueFor record key ≠ .expr e := valueFor_ne_expr hplain
  have hundefined : valueFor record key ≠ .value .undefined := valueFor_ne_undefined
  cases hv : valueFor record key with
  | expr e => exact absurd hv (hexpr e)
  | value v =>
    rintro rfl
    exact hundefined hv
  | items xs => nofun
  | fields fs => nofun

/-- A cell is a literal of its value. -/
theorem propertyValue_cell (hplain : IsPlain record) :
    propertyValue t.fields key (valueFor record key) =
      .literal (t.cell record key).value (t.cell record key).hint :=
  propertyValue_eq (valueFor_ne_expr hplain)

theorem expr_cell (hplain : IsPlain record) :
    Sql.expr d (propertyValue t.fields key (valueFor record key)) =
      .ok (.bind (t.cell record key)) := by
  rw [propertyValue_cell hplain, Sql.expr_literal]
  exact toValue_valueFor hplain

/-- The cells of a row. -/
theorem exprs_cells (hplain : IsPlain record) (keys : List String) :
    Sql.exprs d (keys.map fun key => propertyValue t.fields key (valueFor record key)) =
      .ok (keys.map fun key => .bind (t.cell record key)) := by
  induction keys with
  | nil => rfl
  | cons key keys ih =>
    rw [List.map_cons, Sql.exprs, expr_cell hplain, ih]
    rfl

/-- A row of cells in parentheses. -/
def row (t : Table) (keys : List String) (record : List (String × Operand)) : Fragment :=
  (Fragment.join ", " (keys.map fun key => .bind (t.cell record key))).enclosed

/-- The rows over some keys. -/
def rowsOver (t : Table) (keys : List String) (records : List (List (String × Operand))) :
    List (List Expr) :=
  records.map fun r => keys.map fun key => propertyValue t.fields key (valueFor r key)

theorem rowList_cells (hplain : ∀ r ∈ records, IsPlain r) (keys : List String) :
    Sql.rowList d (t.rowsOver keys records) = .ok (records.map (t.row keys)) := by
  induction records with
  | nil => rfl
  | cons r rest ih =>
    have hrest := ih fun r hr => hplain r (List.mem_cons_of_mem _ hr)
    rw [rowsOver] at hrest ⊢
    rw [List.map_cons, Sql.rowList, exprs_cells (hplain r List.mem_cons_self), hrest]
    rfl

theorem checkExprs_cells (hplain : IsPlain record) (keys : List String) :
    Plan.checkExprs (keys.map fun key => propertyValue t.fields key (valueFor record key)) =
      .ok () := by
  induction keys with
  | nil => rfl
  | cons key keys ih =>
    rw [List.map_cons, Plan.checkExprs, propertyValue_cell hplain, ih]
    rfl

theorem checkRows_cells (hplain : ∀ r ∈ records, IsPlain r) (keys : List String) :
    Plan.checkRows keys.length (t.rowsOver keys records) = .ok () := by
  induction records with
  | nil => rfl
  | cons r rest ih =>
    have hrest := ih fun r hr => hplain r (List.mem_cons_of_mem _ hr)
    rw [rowsOver] at hrest ⊢
    rw [List.map_cons, Plan.checkRows, List.length_map, bne_self_eq_false,
      checkExprs_cells (hplain r List.mem_cons_self), hrest]
    rfl

/-- The clause for what a write asks to be returned. -/
def returnedText (d : Dialect) : String := if (returned d).isEmpty then "" else " RETURNING *"

theorem returning_returned (d : Dialect) :
    ∃ f, Sql.returning d (returned d) = .ok f ∧ f.Shows d 0 fun _ => returnedText d := by
  rw [returnedText, returned]
  by_cases h : d.capabilities.supports .returningClause ReturningFeature.basic = true
  · have hrequired : d.require .returningClause ReturningFeature.basic = .ok () := if_pos h
    rw [if_pos h]
    refine ⟨Sql.clause " RETURNING" (.text "*"), ?_, rfl, fun n => ?_⟩
    · rw [Sql.returning, hrequired]
      rfl
    · rw [Sql.clause, Fragment.chars_append, Fragment.chars_text, Fragment.chars_text]
      rfl
  · rw [if_neg h]
    exact ⟨.empty, rfl, rfl, fun _ => rfl⟩

/-- A placeholder for each cell, counted along the rows. -/
def placeholders (d : Dialect) (columns rows : Nat) : String :=
  ", ".intercalate ((List.range rows).map fun i => "(" ++
    ", ".intercalate ((List.range columns).map fun j => d.placeholder (i * columns + j + 1)) ++ ")")

/-- The text of an insertion. -/
def insertText (d : Dialect) (table : String) (columns : List String) (rows : Nat) : String :=
  "INSERT INTO " ++ d.quoteQualified table ++ " (" ++
    ", ".intercalate (columns.map d.quoteIdentifier) ++ ") VALUES " ++
    placeholders d columns.length rows ++ returnedText d

theorem bindings_row (keys : List String) (record : List (String × Operand)) :
    (t.row keys record).bindings = keys.map (t.cell record) := by
  rw [row, Fragment.bindings_enclosed, Fragment.bindings_join, List.flatMap_map]
  exact List.map_eq_flatMap.symm

theorem shows_row (keys : List String) (record : List (String × Operand)) :
    (t.row keys record).Shows d keys.length fun n => "(" ++ ", ".intercalate
      (Fragment.series (fun n => d.placeholder (n + 1)) 1 keys.length n) ++ ")" := by
  have hcells : ∀ f ∈ keys.map fun key => Fragment.bind (t.cell record key),
      f.Shows d 1 fun n => d.placeholder (n + 1) := by
    rintro _ hf
    obtain ⟨key, -, rfl⟩ := List.mem_map.1 hf
    exact Fragment.shows_bind _
  have hjoined := Fragment.shows_join ", " hcells
  rw [List.length_map, Nat.mul_one] at hjoined
  exact hjoined.enclosed

/-- The rows are written with a placeholder for each cell. -/
theorem chars_rows (keys : List String) (records : List (List (String × Operand))) :
    (Fragment.join ", " (records.map (t.row keys))).chars d 0 =
      (placeholders d keys.length records.length).toList := by
  have hrows : ∀ f ∈ records.map (t.row keys), f.Shows d keys.length fun n => "(" ++
      ", ".intercalate (Fragment.series (fun n => d.placeholder (n + 1)) 1 keys.length n) ++
        ")" := by
    rintro _ hf
    obtain ⟨record, -, rfl⟩ := List.mem_map.1 hf
    exact shows_row keys record
  rw [(Fragment.shows_join ", " hrows).chars, List.length_map]
  simp only [placeholders, Fragment.series, Nat.zero_add, Nat.mul_one]

/-- The check of an insertion finds nothing. -/
theorem check_insertPlan (hkeys : keysOf records ≠ []) (hrecords : records ≠ [])
    (hplain : ∀ r ∈ records, IsPlain r) (returning : List Expr) :
    Plan.check (.insert (t.insertPlan records returning)) = .ok () := by
  have hcolumns : ((keysOf records).map Naming.camelToSnake).isEmpty = false := by
    rw [List.isEmpty_map, ← Bool.not_eq_true, List.isEmpty_iff]
    exact hkeys
  have hrows : (t.rowsOver (keysOf records) records).isEmpty = false := by
    rw [rowsOver, List.isEmpty_map, ← Bool.not_eq_true, List.isEmpty_iff]
    exact hrecords
  have hwidths := checkRows_cells (t := t) hplain (keysOf records)
  change (do
    if ((keysOf records).map Naming.camelToSnake).isEmpty then fault _
    if (t.rowsOver (keysOf records) records).isEmpty then fault _
    Plan.checkRows ((keysOf records).map Naming.camelToSnake).length
      (t.rowsOver (keysOf records) records)) = _
  rw [hcolumns, hrows, List.length_map, hwidths]
  rfl

/-- Rows of cells over keys make an insertion, where the server takes as many of them. -/
theorem insert_rows {keys : List String} {p : InsertPlan} {f : Fragment}
    (hplain : ∀ r ∈ records, IsPlain r) (hrows : p.rows = t.rowsOver keys records)
    (hreturning : Sql.returning d p.returning = .ok f) : Sql.insert d p =
      (if 1 < records.length then d.require .bulkOperations BulkFeature.multiRowInsert
        else .ok ()) >>= fun _ => .ok (Fragment.text ("INSERT INTO " ++ d.quoteQualified p.table ++
          " (" ++ ", ".intercalate (p.columns.map d.quoteIdentifier) ++ ") VALUES ") ++
          Fragment.join ", " (records.map (t.row keys)) ++ f) := by
  rw [Sql.insert, hreturning, hrows, rowList_cells hplain, rowsOver, List.length_map]
  split <;> rfl

theorem sql_rows {head : String} {f : Fragment} (keys : List String)
    (records : List (List (String × Operand))) (hf : f.Shows d 0 fun _ => returnedText d) :
    (Fragment.text head ++ Fragment.join ", " (records.map (t.row keys)) ++ f).sql d =
      head ++ placeholders d keys.length records.length ++ returnedText d := by
  apply String.toList_inj.1
  rw [Fragment.toList_sql, Fragment.chars_append, Fragment.chars_append, Fragment.chars_text,
    Fragment.bindings_text, List.length_nil, chars_rows, hf.chars, String.toList_append,
    String.toList_append]

theorem bindings_rows {head : String} {f : Fragment} (keys : List String)
    (records : List (List (String × Operand))) (hf : f.Shows d 0 fun _ => returnedText d) :
    (Fragment.text head ++ Fragment.join ", " (records.map (t.row keys)) ++ f).bindings =
      records.flatMap fun r => keys.map (t.cell r) := by
  have hnone : f.bindings = [] := List.eq_nil_of_length_eq_zero hf.length
  rw [Fragment.bindings_append, Fragment.bindings_append, Fragment.bindings_text, hnone,
    List.nil_append, List.append_nil, Fragment.bindings_join, List.flatMap_map]
  exact List.flatMap_congr fun r _ => bindings_row keys r

/-- An insertion of records with keys is accepted exactly where the server takes as many rows, and
its text and its values are those of the cells. -/
theorem compile_insertPlan (hkeys : keysOf records ≠ []) (hrecords : records ≠ [])
    (hplain : ∀ r ∈ records, IsPlain r) :
    compile d (.insert (t.insertPlan records (returned d))) =
      (if 1 < records.length then d.require .bulkOperations BulkFeature.multiRowInsert
        else .ok ()) >>= fun _ => .ok ⟨
          insertText d t.model.table ((keysOf records).map Naming.camelToSnake) records.length,
          records.flatMap fun r => (keysOf records).map (t.cell r)⟩ := by
  obtain ⟨f, hreturning, hf⟩ := returning_returned d
  have hinsert :=
    insert_rows (t := t) (p := t.insertPlan records (returned d)) hplain rfl hreturning
  rw [compile, check_insertPlan hkeys hrecords hplain, Sql.statement, hinsert]
  generalize (if 1 < records.length then
    d.require .bulkOperations BulkFeature.multiRowInsert else .ok ()) = supported
  cases supported with
  | error e => rfl
  | ok u =>
    have hcolumns : ((keysOf records).map Naming.camelToSnake).length = (keysOf records).length :=
      List.length_map _
    change Except.ok (Compiled.mk _ _) = Except.ok (Compiled.mk _ _)
    rw [sql_rows _ _ hf, bindings_rows _ _ hf, ← hcolumns]
    rfl

/-- An insertion with a row for each record and a column for each key that they write. The values go
along the rows. -/
structure Holds (t : Table) (d : Dialect) (records : List (List (String × Operand)))
    (c : Compiled) : Prop where
  text : c.sql = insertText d t.model.table ((t.writtenKeys records).map Naming.camelToSnake)
    records.length
  length : c.bindings.length = records.length * (t.writtenKeys records).length
  cells : ∀ i j record key, records[i]? = some record → (t.writtenKeys records)[j]? = some key →
    ∃ b, c.bindings[i * (t.writtenKeys records).length + j]? = some b ∧ t.Fills record key b

theorem holds_cells (hkeys : ∀ r ∈ records, (r.map Prod.fst).Nodup) : t.Holds d records ⟨
    insertText d t.model.table ((t.writtenKeys records).map Naming.camelToSnake) records.length,
    (records.map t.writable).flatMap fun r => (t.writtenKeys records).map (t.cell r)⟩ := by
  have hwidth : ∀ r ∈ records, ((t.writtenKeys records).map (t.cell (t.writable r))).length =
      (t.writtenKeys records).length := fun _ _ => List.length_map _
  refine ⟨rfl, ?_, fun i j record key hi hj => ?_⟩
  · rw [List.flatMap_map, List.length_flatMap, List.map_congr_left hwidth, List.map_const',
      List.sum_replicate_nat]
  · obtain ⟨hj, hkey⟩ := List.getElem?_eq_some_iff.1 hj
    refine ⟨t.cell (t.writable record) key, ?_, fills_cell (hkeys record ?_) ?_⟩
    · rw [List.flatMap_map, getElem?_flatMap_uniform hwidth hi hj, List.getElem?_map,
        List.getElem?_eq_getElem hj, hkey]
      rfl
    · exact List.mem_of_getElem? hi
    · exact (mem_writtenKeys.1 (hkey ▸ List.getElem_mem hj)).1

/-- Records without expressions are inserted by one statement with a column for each key that one of
them defines and that is not left to the database. It is accepted exactly where the server takes as
many rows, and holds the value of each record for each key in a cell of its own. Where no key is
written, nothing is sent. -/
theorem insert_cells (hrecords : records ≠ []) (hkeys : ∀ r ∈ records, (r.map Prod.fst).Nodup)
    (hplain : ∀ r ∈ records, IsPlain r) :
    (t.insertMany records = t.write fun returning =>
      .insert (t.insertPlan (records.map t.writable) returning)) ∧
    (t.writtenKeys records).Nodup ∧
    (∀ key, key ∈ t.writtenKeys records ↔ key ∉ t.model.autoFields ∧
      ∃ r ∈ records, ∃ v, (key, v) ∈ r ∧ Expr.isAbsent v = false) ∧
    (t.writtenKeys records = [] → ∀ σ,
      t.Refuses σ (t.insertMany records) (.insertWithoutColumns t.model.table)) ∧
    (t.writtenKeys records ≠ [] → ∀ d,
      ((∃ c, compile d (.insert (t.insertPlan (records.map t.writable) (returned d))) = .ok c) ↔
        (1 < records.length →
          d.capabilities.supports .bulkOperations BulkFeature.multiRowInsert = true)) ∧
      ∀ c, compile d (.insert (t.insertPlan (records.map t.writable) (returned d))) = .ok c →
        t.Holds d records c) := by
  have hone : t.insertMany records = t.write fun returning =>
      .insert (t.insertPlan (records.map t.writable) returning) := by
    rw [insertMany, if_neg (List.isEmpty_iff.not.2 hrecords)]
  refine ⟨hone, nodup_eraseDups _, fun key => mem_writtenKeys, fun hnone σ => ?_, fun hsome d => ?_⟩
  · rw [hone, write]
    refine refuses_send fun d => ?_
    -- without keys to write the plan has no columns, which its check refuses first
    have hcolumns : ((keysOf (records.map t.writable)).map Naming.camelToSnake).isEmpty = true := by
      rw [keysOf_writable, hnone]
      rfl
    rw [Plan.check, Plan.checkInsert, insertPlan]
    dsimp only
    rw [hcolumns]
    rfl
  · have hwritten : ∀ r ∈ records.map t.writable, IsPlain r := by
      rintro _ hr key e hentry
      obtain ⟨r, hrecord, rfl⟩ := List.mem_map.1 hr
      exact hplain r hrecord key e (List.mem_of_mem_filter hentry)
    have hcompile := compile_insertPlan (t := t) (d := d) (keysOf_writable records ▸ hsome)
      (List.map_eq_nil_iff.not.2 hrecords) hwritten
    rw [keysOf_writable, List.length_map] at hcompile
    have hheld := holds_cells (t := t) (d := d) hkeys
    rw [hcompile]
    -- only several rows ask something of the dialect
    by_cases hmany : 1 < records.length
    · rw [if_pos hmany, Dialect.require]
      cases d.capabilities.supports .bulkOperations BulkFeature.multiRowInsert with
      | true => exact ⟨⟨fun _ _ => rfl, fun _ => ⟨_, rfl⟩⟩, fun c hc => Except.ok.inj hc ▸ hheld⟩
      | false =>
        refine ⟨⟨?_, fun h => absurd (h hmany) Bool.false_ne_true⟩, fun c hc => ?_⟩
        · rintro ⟨c, hc⟩
          cases hc
        · cases hc
    · rw [if_neg hmany]
      exact ⟨⟨fun _ h => absurd h hmany, fun _ => ⟨_, rfl⟩⟩, fun c hc => Except.ok.inj hc ▸ hheld⟩

/-- A note with a title and a number of its own, and one with a day and without a title. -/
def drafts : List (List (String × Operand)) :=
  [[("id", .value (.number (.int 5))), ("title", .value (.string "Lean"))],
    [("writtenAt", .value (.date (some 0))), ("title", .value .undefined)]]

/-- The title stands in the first row and the day in the second, each with nothing in the other. The
number is left to the database. -/
theorem insert_cells_drafts : drafts ≠ [] ∧ (∀ r ∈ drafts, (r.map Prod.fst).Nodup) ∧
    (∀ r ∈ drafts, IsPlain r) ∧ ∃ c,
      compile (.make .postgres none) (.insert (notes.insertPlan (drafts.map notes.writable)
        (returned (.make .postgres none)))) = .ok c ∧
      c.sql = "INSERT INTO notes (title, written_at) VALUES ($1, $2), ($3, $4) RETURNING *" ∧
      ∃ b, c.bindings[1 * 2 + 1]? = some b ∧ b.value = .date (some 0) ∧
        b.hint = ⟨"date", none, none⟩ := by
  have hrecords : drafts ≠ [] := by decide
  have hkeys : ∀ r ∈ drafts, (r.map Prod.fst).Nodup := by decide
  have hplain : ∀ r ∈ drafts, IsPlain r := by simp [drafts, IsPlain]
  have hwritten : notes.writtenKeys drafts = ["title", "writtenAt"] := by decide
  obtain ⟨-, -, -, -, hcells⟩ := insert_cells (t := notes) hrecords hkeys hplain
  obtain ⟨haccepted, hheld⟩ := hcells (hwritten ▸ by decide) (.make .postgres none)
  obtain ⟨c, hc⟩ := haccepted.2 fun _ => by decide
  have hholds := hheld c hc
  refine ⟨hrecords, hkeys, hplain, c, hc, ?_, ?_⟩
  · rw [hholds.text, hwritten]
    rfl
  · obtain ⟨b, hb, hfills⟩ := hholds.cells 1 1 _ "writtenAt" rfl (hwritten ▸ rfl)
    have hvalue : b.value = .date (some 0) := hfills.value _ List.mem_cons_self rfl
    rw [hwritten] at hb
    exact ⟨b, hb, hvalue, by rw [hfills.hint, hvalue]; rfl⟩

end Table
end PolyQuery
