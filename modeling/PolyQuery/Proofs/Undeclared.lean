import PolyQuery.Proofs.Correspondence

/-! Columns that a model does not declare. Their values are kept as the driver gave them, each under
its property, but for the properties that every object has: a column of such a property is taken for
a field, and since the field has no type, the whole row cannot be read. No other property is looked
up where it is not declared: `undeclared_kept`. -/
namespace PolyQuery

/-- Whether fields declare a property. -/
def Declares (fields : Option FieldMap) (property : String) : Bool :=
  (fields.bind fun fs => fs.lookup property).isSome

/-- The columns of a row whose properties are declared. -/
def Row.declared (fields : Option FieldMap) (row : Row) : Row :=
  row.filter fun entry => Declares fields (Naming.snakeToCamel entry.1)

/-- A column that is taken for a field though nothing declares it: it has a value, and its property
is one that every object has. Without any fields nothing is looked up. -/
structure Mistaken (fields : Option FieldMap) (entry : String × Value) : Prop where
  known : fields.isSome = true
  undeclared : Declares fields (Naming.snakeToCamel entry.1) = false
  inherited : Naming.snakeToCamel entry.1 ∈ FieldMap.inherited
  present : entry.2.isMissing = false

section Columns
variable {fields : Option FieldMap} {d : Dialect} {r : Registry} {row record : Row}
  {entry : String × Value} {property : String}

theorem decodeColumn_mistaken (h : Mistaken fields entry) :
    decodeColumn fields d r entry = .error (.unregisteredType none none) := by
  obtain ⟨hknown, hundeclared, hinherited, hpresent⟩ := h
  cases fields with
  | none => cases hknown
  | some fs =>
    have hnone : fs.lookup (Naming.snakeToCamel entry.1) = none :=
      Option.isSome_eq_false_iff.1 hundeclared |> Option.isNone_iff_eq_none.1
    have hfound : fs.find? (Naming.snakeToCamel entry.1) = some Field.untyped := by
      rw [FieldMap.find?, hnone]
      exact if_pos (List.contains_iff_mem.2 hinherited)
    have hvalue : decodeValue (some Field.untyped) d r entry.2 =
        .error (.unregisteredType none none) := by
      unfold decodeValue
      dsimp only
      rw [hpresent]
      rfl
    unfold decodeColumn
    dsimp only
    rw [Option.bind_some, hfound, hvalue]
    rfl

theorem decodeColumn_kept (hundeclared : Declares fields (Naming.snakeToCamel entry.1) = false)
    (h : ¬ Mistaken fields entry) :
    decodeColumn fields d r entry = .ok (Naming.snakeToCamel entry.1, entry.2) := by
  have hvalue : decodeValue (fields.bind fun fs => fs.find? (Naming.snakeToCamel entry.1)) d r
      entry.2 = .ok entry.2 := by
    cases fields with
    | none => rfl
    | some fs =>
      have hnone : fs.lookup (Naming.snakeToCamel entry.1) = none :=
        Option.isSome_eq_false_iff.1 hundeclared |> Option.isNone_iff_eq_none.1
      rw [Option.bind_some, FieldMap.find?, hnone]
      dsimp only
      split
      · next hinherited =>
        -- only a missing value is left alone then
        have hmissing : entry.2.isMissing = true := by
          rw [← Bool.not_eq_false]
          exact fun hpresent => h ⟨rfl, hundeclared, List.contains_iff_mem.1 hinherited, hpresent⟩
        unfold decodeValue
        dsimp only
        rw [hmissing, if_pos rfl]
      · rfl
  unfold decodeColumn
  dsimp only
  rw [hvalue]
  rfl

/-! ## Rows -/

theorem exists_decodeRow_iff : (∃ record, decodeRow fields d r row = .ok record) ↔
    ∀ entry ∈ row, ∃ read, decodeColumn fields d r entry = .ok read := by
  constructor
  · rintro ⟨record, h⟩ entry hentry
    obtain ⟨entries, hentries, -⟩ := bind_eq_ok.1 h
    obtain ⟨n, hn, rfl⟩ := List.getElem_of_mem hentry
    have hread := forall₂_of_mapM hentries
    exact ⟨_, hread.get hn (hread.length_eq ▸ hn)⟩
  · intro h
    obtain ⟨entries, hentries⟩ := mapM_of_forall h
    exact ⟨Fields.ofList entries, by rw [decodeRow, hentries]; rfl⟩

/-- A row can be read exactly if its declared columns can and none of the others is taken for a
field. -/
theorem exists_decodeRow_declared : (∃ record, decodeRow fields d r row = .ok record) ↔
    (∃ record, decodeRow fields d r (row.declared fields) = .ok record) ∧
      ∀ entry ∈ row, ¬ Mistaken fields entry := by
  rw [exists_decodeRow_iff, exists_decodeRow_iff]
  constructor
  · intro h
    refine ⟨fun entry hentry => h entry (List.mem_of_mem_filter hentry), fun entry hentry hm => ?_⟩
    obtain ⟨read, hread⟩ := h entry hentry
    rw [decodeColumn_mistaken hm] at hread
    cases hread
  · rintro ⟨hdeclared, hnone⟩ entry hentry
    -- a column is among the declared ones, or kept as it is
    cases hd : Declares fields (Naming.snakeToCamel entry.1) with
    | true => exact hdeclared entry (List.mem_filter.2 ⟨hentry, hd⟩)
    | false => exact ⟨_, decodeColumn_kept hd (hnone entry hentry)⟩

/-- Where all else can be read, a column that is taken for a field makes the row fail for want of an
adapter. -/
theorem decodeRow_mistaken (h : ∀ entry ∈ row, ¬ Mistaken fields entry →
    ∃ read, decodeColumn fields d r entry = .ok read)
    (hmistaken : ∃ entry ∈ row, Mistaken fields entry) :
    decodeRow fields d r row = .error (.unregisteredType none none) := by
  have hall : row.mapM (decodeColumn fields d r) = .error (.unregisteredType none none) := by
    induction row with
    | nil =>
      obtain ⟨entry, hentry, -⟩ := hmistaken
      cases hentry
    | cons first rest ih =>
      obtain ⟨hfirst, hrest⟩ := List.forall_mem_cons.1 h
      rw [List.mapM_cons]
      -- columns are read in order, and the first one that cannot be read ends it
      by_cases hm : Mistaken fields first
      · rw [decodeColumn_mistaken hm]
        rfl
      · obtain ⟨read, hread⟩ := hfirst hm
        obtain ⟨entry, hentry, hentry'⟩ := hmistaken
        rcases List.mem_cons.1 hentry with rfl | hbehind
        · exact (hm hentry').elim
        · rw [hread, ih hrest ⟨entry, hbehind, hentry'⟩]
          rfl
  rw [decodeRow, hall]
  rfl

/-- A property that is not declared is what the renamed row has for it. -/
theorem lookup_decodeRow_undeclared (h : decodeRow fields d r row = .ok record)
    (hproperty : Declares fields property = false) :
    record.lookup property = (renameRow row).lookup property := by
  have hnone := (exists_decodeRow_declared.1 ⟨record, h⟩).2
  obtain ⟨entries, hentries, hrecord⟩ := bind_eq_ok.1 h
  cases hrecord
  rw [renameRow, Fields.lookup_ofList, Fields.lookup_ofList, ← List.map_reverse]
  -- the last column of a property decides, so the columns are gone through from the end
  have hread := List.rel_reverse (forall₂_of_mapM hentries)
  have hnone : ∀ entry ∈ row.reverse, ¬ Mistaken fields entry :=
    fun entry hentry => hnone entry (List.mem_reverse.1 hentry)
  generalize entries.reverse = reads at hread
  generalize row.reverse = columns at hread hnone
  induction hread with
  | nil => rfl
  | @cons entry read columns reads hcolumn _ ih =>
    obtain ⟨hentry, hothers⟩ := List.forall_mem_cons.1 hnone
    obtain ⟨hname, -⟩ := decodeColumn_ok hcolumn
    rw [List.map_cons, Record.lookup_cons_eq, Record.lookup_cons_eq, ih hothers, hname]
    by_cases heq : property = Naming.snakeToCamel entry.1
    · have hkept := decodeColumn_kept (d := d) (r := r) (heq ▸ hproperty) hentry
      rw [hcolumn] at hkept
      cases hkept
      rfl
    · rw [if_neg heq, if_neg heq]

theorem perm_properties (h : decodeRow fields d r row = .ok record)
    (hrow : Naming.Uniform (row.map Prod.fst)) :
    (record.map Prod.fst).Perm ((row.map Prod.fst).map Naming.snakeToCamel) := by
  obtain ⟨entries, hentries, hrecord⟩ := bind_eq_ok.1 h
  cases hrecord
  have hnames : entries.map Prod.fst = (row.map Prod.fst).map Naming.snakeToCamel := by
    have hread := forall₂_of_mapM hentries
    clear hentries h hrow
    induction hread with
    | nil => rfl
    | cons hcolumn _ ih => rw [List.map_cons, ih, (decodeColumn_ok hcolumn).1]; rfl
  rw [← hnames]
  exact (Fields.perm_ofList (hnames ▸ hrow.nodup_properties)).map Prod.fst

end Columns

/-- Columns that are not declared neither make a row fail nor change: it can be read exactly if its
declared columns can and no other column is taken for a field, and then a property that is not
declared is what the renamed row has for it. Where the columns differ and have no capitals, the
record has one property for each of them. -/
theorem undeclared_kept (fields : Option FieldMap) (d : Dialect) (r : Registry) (row : Row) :
    ((∃ record, decodeRow fields d r row = .ok record) ↔
      (∃ record, decodeRow fields d r (row.declared fields) = .ok record) ∧
        ∀ entry ∈ row, ¬ Mistaken fields entry) ∧
    ((∃ record, decodeRow fields d r (row.declared fields) = .ok record) →
      (∃ entry ∈ row, Mistaken fields entry) →
      decodeRow fields d r row = .error (.unregisteredType none none)) ∧
    ∀ record, decodeRow fields d r row = .ok record →
      (∀ property, Declares fields property = false →
        record.lookup property = (renameRow row).lookup property) ∧
      (Naming.Uniform (row.map Prod.fst) →
        (record.map Prod.fst).Perm ((row.map Prod.fst).map Naming.snakeToCamel) ∧
        ∀ entry ∈ row, Declares fields (Naming.snakeToCamel entry.1) = false →
          record.lookup (Naming.snakeToCamel entry.1) = some entry.2) := by
  refine ⟨exists_decodeRow_declared, fun hdeclared hmistaken => ?_, fun record h => ⟨?_, ?_⟩⟩
  · refine decodeRow_mistaken (fun entry hentry hm => ?_) hmistaken
    -- a column is either declared, and then read, or kept as it is unless it is mistaken
    cases hd : Declares fields (Naming.snakeToCamel entry.1) with
    | true => exact exists_decodeRow_iff.1 hdeclared entry (List.mem_filter.2 ⟨hentry, hd⟩)
    | false => exact ⟨_, decodeColumn_kept hd hm⟩
  · exact fun property hproperty => lookup_decodeRow_undeclared h hproperty
  · intro hrow
    refine ⟨perm_properties h hrow, fun entry hentry hundeclared => ?_⟩
    rw [lookup_decodeRow_undeclared h hundeclared]
    exact hrow.lookup_renameRow hentry

/-- A flag and a remark that only the table knows. -/
def remarkRow : Row := [("is_active", .string "true"), ("_remark", .string "new")]

/-- The remark stays beside the flag, but not beside a column that is taken for a field. -/
theorem undeclared_kept_remark :
    Naming.Uniform (remarkRow.map Prod.fst) ∧
    Declares (some [("isActive", wordFlag)]) (Naming.snakeToCamel "_remark") = false ∧
    decodeRow (some [("isActive", wordFlag)]) (.make .sqlite none) .standard
      (remarkRow.declared (some [("isActive", wordFlag)])) = .ok [("isActive", .bool true)] ∧
    (∃ record, decodeRow (some [("isActive", wordFlag)]) (.make .sqlite none) .standard remarkRow =
        .ok record ∧
      record.lookup (Naming.snakeToCamel "_remark") = some (.string "new") ∧
      (record.map Prod.fst).Perm ["isActive", "Remark"]) ∧
    decodeRow (some [("isActive", wordFlag)]) (.make .sqlite none) .standard
      (("to_string", .string "a") :: remarkRow) = .error (.unregisteredType none none) := by
  have hrow : Naming.Uniform (remarkRow.map Prod.fst) := ⟨by decide, by decide⟩
  have hundeclared : Declares (some [("isActive", wordFlag)]) (Naming.snakeToCamel "_remark") =
      false := by decide
  have hflag : decodeRow (some [("isActive", wordFlag)]) (.make .sqlite none) .standard
      (remarkRow.declared (some [("isActive", wordFlag)])) = .ok [("isActive", .bool true)] := rfl
  have hentry : ("_remark", Value.string "new") ∈ remarkRow := by simp [remarkRow]
  obtain ⟨hiff, -, hkept⟩ := undeclared_kept (some [("isActive", wordFlag)]) (.make .sqlite none)
    .standard remarkRow
  obtain ⟨-, hfails, -⟩ := undeclared_kept (some [("isActive", wordFlag)]) (.make .sqlite none)
    .standard (("to_string", .string "a") :: remarkRow)
  have hnone : ∀ entry ∈ remarkRow, ¬ Mistaken (some [("isActive", wordFlag)]) entry := by
    intro entry hentry hm
    have hcolumns : entry.1 ∈ remarkRow.map Prod.fst := List.mem_map_of_mem hentry
    -- no column of the row is named like a member of every object
    have hplain : ∀ column ∈ remarkRow.map Prod.fst,
        Naming.snakeToCamel column ∉ FieldMap.inherited := by decide
    exact hplain _ hcolumns hm.inherited
  obtain ⟨record, hrecord⟩ := hiff.2 ⟨⟨_, hflag⟩, hnone⟩
  obtain ⟨hperm, hvalues⟩ := (hkept record hrecord).2 hrow
  exact ⟨hrow, hundeclared, hflag, ⟨record, hrecord, hvalues _ hentry hundeclared, hperm⟩,
    hfails ⟨_, hflag⟩ ⟨_, List.mem_cons_self, ⟨rfl, by decide, by decide, rfl⟩⟩⟩

/-- A table with a column `constructor` cannot be read by a model that says no word about it. -/
theorem decodeRow_constructor :
    Declares (some [("name", ⟨some "string", none, none⟩)]) (Naming.snakeToCamel "constructor") =
      false ∧
    decodeRow (some [("name", ⟨some "string", none, none⟩)]) (.make .sqlite none) .standard
      [("name", .string "ann")] = .ok [("name", .string "ann")] ∧
    decodeRow (some [("name", ⟨some "string", none, none⟩)]) (.make .sqlite none) .standard
      [("name", .string "ann"), ("constructor", .string "bea")] =
      .error (.unregisteredType none none) :=
  ⟨by decide, rfl, rfl⟩

end PolyQuery
