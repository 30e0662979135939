import PolyQuery.FileConnection
import PolyQuery.Proofs.Undeclared

/-! Integers in a file. The driver gives them at full size. One that a number can hold is handed on as
that number, and any other as it is, so a row without a model says which integer was stored; a field
that is declared for integers of any size writes them as they are and reads both forms back:
`FileConnection.integers_exact`. -/
namespace PolyQuery

/-- The integer that a value is, as a number or at full size. -/
def Value.integer? : Value → Option Int
  | .number n => n.toInt?
  | .bigint i => some i
  | _ => none

/-- A field for integers of any size, without an override. -/
structure Field.IsBigint (f : Field) : Prop where
  hostType : f.hostType = some "bigint"
  plain : f.isOverridden = false

/-- An integer that is stored under a property at full size, with its column. -/
def IsIntegerOf (property : String) (entry : String × Value) : Prop :=
  Naming.snakeToCamel entry.1 = property ∧ ∃ i, entry.2 = .bigint i

/-! ## The conversion of the field -/

section Conversion
variable {f : Field} {fields : FieldMap} {d : Dialect} {property : String}

/-- In files integers of any size are kept as integers. -/
theorem Field.IsBigint.conversion (h : f.IsBigint) (hbackend : d.backend = .sqlite) :
    f.conversion d .standard = .ok ⟨some Adapter.bigint, some .integer⟩ := by
  have hsuggest : d.suggestRepresentation "bigint" = some .integer := by
    unfold Dialect.suggestRepresentation
    rw [hbackend]
    rfl
  have hadapter : f.adapter = none ∧ f.representation = none := by
    have hplain := h.plain
    rw [Field.isOverridden, Bool.or_eq_false_iff] at hplain
    exact ⟨Option.isSome_eq_false_iff.1 hplain.1 |> Option.isNone_iff_eq_none.1,
      Option.isSome_eq_false_iff.1 hplain.2 |> Option.isNone_iff_eq_none.1⟩
  have hget : Registry.standard.get? "bigint" .integer = some Adapter.bigint := rfl
  unfold Field.conversion Field.override Registry.resolve
  rw [h.plain, h.hostType, hadapter.1, hadapter.2]
  dsimp only [Option.bind_some, Option.none_or]
  rw [hsuggest]
  dsimp only
  rw [hget]
  rfl

/-- An integer is written as it is. -/
theorem Field.IsBigint.bind (h : f.IsBigint) (hbackend : d.backend = .sqlite) (v : Int) :
    (Binding.mk (.bigint v) ⟨"bigint", f.representation, f.adapter⟩).bind d .standard =
      .ok (.bigint v) := by
  rw [Binding.bind_eq rfl h.hostType (by decide), h.conversion hbackend]
  rfl

/-- An integer is read back at full size, in whichever form it comes. -/
theorem Field.IsBigint.decode (h : f.IsBigint) (hbackend : d.backend = .sqlite) {w : Value} {v : Int}
    (hw : w.integer? = some v) : decodeValue (some f) d .standard w = .ok (.bigint v) := by
  cases w with
  | bigint i =>
    cases hw
    rw [decodeValue_eq rfl, h.conversion hbackend]
    rfl
  | number n =>
    have hinteger : n.toInt? = some v := hw
    rw [decodeValue_eq rfl, h.conversion hbackend]
    show Adapter.bigintFromDatabase (.number n) (some .integer) none = _
    rw [Adapter.bigintFromDatabase, hinteger]
  | _ => cases hw

end Conversion

namespace FileConnection
variable {c : FileConnection} {sql : String} {parameters values : List Value}
  {rest : List FileReply} {row : Row} {property : String}

/-! ## Rows -/

/-- An integer is handed on as a number exactly if its magnitude is below `2 ^ 53`. -/
theorem narrow_bigint (v : Int) : narrow (.bigint v) =
    if v.natAbs < powerOfTwo 53 then .number (Number.ofInt v) else .bigint v := by
  have hpower : powerOfTwo 53 = 9007199254740992 := rfl
  have hbounds : (-Number.maxSafe ≤ v ∧ v ≤ Number.maxSafe) ↔ v.natAbs < powerOfTwo 53 := by
    rw [hpower]
    unfold Number.maxSafe
    omega
  rw [narrow]
  by_cases hsafe : v.natAbs < powerOfTwo 53
  · rw [if_pos (hbounds.2 hsafe), if_pos hsafe, Number.ofInt, if_pos (Nat.le_of_lt hsafe)]
  · rw [if_neg (hbounds.not.2 hsafe), if_neg hsafe]

/-- What is handed on is the integer. -/
theorem integer?_narrow (v : Int) : (narrow (.bigint v)).integer? = some v := by
  rw [narrow]
  split
  · rfl
  · rfl

/-- Beyond that the nearest number may be another integer. -/
example : (Number.ofInt 9007199254740993).toInt? = some 9007199254740992 := by decide

theorem valueFor?_narrowRow (row : Row) (property : String) :
    (narrowRow row).valueFor? property = (row.valueFor? property).map narrow := by
  unfold Row.valueFor? narrowRow
  rw [← List.map_reverse, List.find?_map, Option.map_map, Option.map_map]
  rfl

/-- A statement whose answer are rows gives these, with their integers narrowed. -/
theorem query_rows (hreply : c.replies = .rows values :: rest) :
    query sql parameters c =
      (.ok ⟨(values.filterMap row?).map narrowRow,
          .int ((values.filterMap row?).map narrowRow).length⟩,
        { c with
          replies := rest
          journal := c.journal ++ [.prepared sql, .fullIntegers, .readAll parameters] }) := by
  obtain ⟨fileName, dialect, isOpen, logger, replies, journal, log⟩ := c
  cases hreply
  show (Except.ok _, FileConnection.mk fileName dialect isOpen logger rest
    (((journal ++ [.prepared sql]) ++ [.fullIntegers]) ++ [.readAll parameters]) log) = _
  rw [List.append_assoc, List.append_assoc]
  rfl

/-- The rows that were answered and handed on can be decoded by a model unless a column other than
one of integers fails. -/
theorem exists_decodeRows {fields : FieldMap} {f : Field} {d : Dialect} {rows : List Row}
    (hfield : fields.lookup property = some f) (hf : f.IsBigint) (hbackend : d.backend = .sqlite)
    (h : ∀ row ∈ rows, ∀ entry ∈ row, ¬ IsIntegerOf property entry →
      ∃ read, decodeColumn (some fields) d .standard (entry.1, narrow entry.2) = .ok read) :
    ∃ records, decodeRows (some fields) d .standard (rows.map narrowRow) = .ok records := by
  have hfound : fields.find? property = some f := by rw [FieldMap.find?, hfield]
  refine mapM_of_forall fun row hrow => ?_
  obtain ⟨wide, hwide, rfl⟩ := List.mem_map.1 hrow
  refine exists_decodeRow_iff.2 fun entry hentry => ?_
  obtain ⟨⟨column, value⟩, hvalue, rfl⟩ := List.mem_map.1 hentry
  by_cases hinteger : IsIntegerOf property (column, value)
  · obtain ⟨hname, i, hi⟩ := hinteger
    have hread : decodeValue (some f) d .standard (narrow value) = .ok (.bigint i) :=
      hf.decode hbackend ((congrArg (fun v => (narrow v).integer?) hi).trans (integer?_narrow i))
    refine ⟨(property, .bigint i), ?_⟩
    unfold decodeColumn
    dsimp only at hname ⊢
    rw [hname, Option.bind_some, hfound, hread]
    rfl
  · exact h wide hwide (column, value) hvalue hinteger

/-- What is read for a property of a row that was handed on. -/
theorem lookup_of_narrowRow {fields : Option FieldMap} {d : Dialect} {r : Registry}
    {rows records : List Row} {n : Nat} {v w : Value}
    (h : decodeRows fields d r (rows.map narrowRow) = .ok records) (hrow : rows[n]? = some row)
    (hvalue : row.valueFor? property = some v)
    (hdecode : decodeValue (fields.bind fun fs => fs.find? property) d r (narrow v) = .ok w) :
    (records[n]?).bind (List.lookup property) = some w := by
  have hread := List.forall₂_map_left_iff.1 (forall₂_of_mapM h)
  obtain ⟨hn, rfl⟩ := List.getElem?_eq_some_iff.1 hrow
  have hrecord := hread.get hn (hread.length_eq ▸ hn)
  rw [List.getElem?_eq_getElem (hread.length_eq ▸ hn), Option.bind_some]
  refine (lookup_decodeRow_valueFor? hrecord property).trans ?_
  rw [List.get_eq_getElem, valueFor?_narrowRow, hvalue, Option.map_some, Option.bind_some, hdecode]
  rfl

/-- A connection that is opened speaks the dialect of files. -/
theorem backend_of_open {config : Config} {options : FileOptions} {version : Value}
    {threshold : Level} {replies : List FileReply}
    (h : open_ config options version threshold replies = .ok c) : c.dialect.backend = .sqlite := by
  unfold open_ at h
  obtain ⟨v, -, h⟩ := bind_eq_ok.1 h
  cases h
  rfl

/-- Integers of a file are exact. A field that is declared for them binds an integer as it is under
every name that refers to it. An integer of a row that is answered is read without a model as the
number that it is where its magnitude is below `2 ^ 53`, and as it is otherwise; with the declared
field it is read as it is, and does not keep the rows from being read. -/
theorem integers_exact (c : FileConnection) (hbackend : c.dialect.backend = .sqlite) (v : Int) :
    (∀ (fields : FieldMap) (name : String) (f : Field), fields.lookup (unqualified name) = some f →
      f.IsBigint → ∃ b : Binding,
        Sql.expr c.dialect (propertyValue (some fields) name (.value (.bigint v))) = .ok (.bind b) ∧
        b.bind c.dialect .standard = .ok (.bigint v)) ∧
    ∀ (sql : String) (parameters values : List Value) (rest : List FileReply),
      c.replies = .rows values :: rest → ∃ result next,
      query sql parameters c = (.ok result, next) ∧ next.dialect = c.dialect ∧
      next.journal = c.journal ++ [.prepared sql, .fullIntegers, .readAll parameters] ∧
      ∀ (n : Nat) (row : Row) (property : String), (values.filterMap row?)[n]? = some row →
        row.valueFor? property = some (.bigint v) →
        (∃ records w, decodeRows none c.dialect .standard result.rows = .ok records ∧
          (records[n]?).bind (List.lookup property) = some w ∧
          w = (if v.natAbs < powerOfTwo 53 then Value.number (Number.ofInt v) else .bigint v) ∧
          w.integer? = some v) ∧
        ∀ (fields : FieldMap) (f : Field), fields.lookup property = some f → f.IsBigint →
          ((∀ row ∈ values.filterMap row?, ∀ entry ∈ row, ¬ IsIntegerOf property entry →
            ∃ read, decodeColumn (some fields) c.dialect .standard
              (entry.1, narrow entry.2) = .ok read) →
            ∃ records, decodeRows (some fields) c.dialect .standard result.rows = .ok records) ∧
          ∀ records, decodeRows (some fields) c.dialect .standard result.rows = .ok records →
            (records[n]?).bind (List.lookup property) = some (.bigint v) := by
  refine ⟨fun fields name f hfield hf => ?_, fun sql parameters values rest hreply => ?_⟩
  · refine ⟨⟨.bigint v, ⟨"bigint", f.representation, f.adapter⟩⟩, ?_, hf.bind hbackend v⟩
    have hliteral (e : Expr) : Operand.value (.bigint v) ≠ .expr e := nofun
    rw [propertyValue_referring hfield hf.hostType hliteral]
    rfl
  · refine ⟨_, _, query_rows hreply, rfl, rfl, fun n row property hrow hvalue => ?_⟩
    constructor
    -- without a model no column is refused, as nothing is converted
    · obtain ⟨records, hrecords⟩ : ∃ records, decodeRows none c.dialect .standard
          ((values.filterMap row?).map narrowRow) = .ok records :=
        mapM_of_forall fun row _ => exists_decodeRow_iff.2 fun entry _ => ⟨_, rfl⟩
      have hlookup := lookup_of_narrowRow hrecords hrow hvalue rfl
      exact ⟨records, _, hrecords, hlookup, narrow_bigint v, integer?_narrow v⟩
    · intro fields f hfield hf
      refine ⟨exists_decodeRows hfield hf hbackend, fun records hrecords => ?_⟩
      have hfound : fields.find? property = some f := by rw [FieldMap.find?, hfield]
      refine lookup_of_narrowRow hrecords hrow hvalue ?_
      rw [Option.bind_some, hfound]
      exact hf.decode hbackend (integer?_narrow v)

/-- The row of a counter beyond `2 ^ 53`. -/
def hits : List Value := [.object [("hits", .bigint 9007199254740993)]]

/-- A file that was just opened gives the counter in full, with a model and without one. -/
theorem integers_exact_hits : ∃ c, open_ (.ofEnvironment fun _ => none) ⟨none, false, false⟩
      (.object []) .error [.rows hits] = .ok c ∧ c.dialect.backend = .sqlite ∧
    c.replies = .rows hits :: [] ∧ ∃ result next,
      query "SELECT hits FROM counters" [] c = (.ok result, next) ∧
      (∃ records, decodeRows none c.dialect .standard result.rows = .ok records ∧
        (records[0]?).bind (List.lookup "hits") = some (.bigint 9007199254740993)) ∧
      ∃ records, decodeRows (some [("hits", ⟨some "bigint", none, none⟩)]) c.dialect .standard
        result.rows = .ok records ∧
        (records[0]?).bind (List.lookup "hits") = some (.bigint 9007199254740993) := by
  obtain ⟨c, hopen, hreply⟩ : ∃ c, open_ (.ofEnvironment fun _ => none) ⟨none, false, false⟩
      (.object []) .error [.rows hits] = .ok c ∧ c.replies = .rows hits :: [] := ⟨_, rfl, rfl⟩
  have hbackend := backend_of_open hopen
  obtain ⟨-, hall⟩ := integers_exact c hbackend 9007199254740993
  obtain ⟨result, next, hquery, -, -, hread⟩ := hall "SELECT hits FROM counters" [] hits [] hreply
  obtain ⟨⟨records, w, hrecords, hlookup, hw, -⟩, hdeclared⟩ := hread 0 _ "hits" rfl rfl
  obtain ⟨hexists, hkept⟩ := hdeclared [("hits", ⟨some "bigint", none, none⟩)] _ rfl ⟨rfl, rfl⟩
  rw [if_neg (by decide)] at hw
  subst hw
  -- the only column is the one asked for, so no other can be refused
  obtain ⟨records', hrecords'⟩ := hexists <| by
    rintro row hrow entry hentry hother
    obtain rfl : row = [("hits", .bigint 9007199254740993)] := List.mem_singleton.1 hrow
    obtain rfl := List.mem_singleton.1 hentry
    exact (hother ⟨rfl, _, rfl⟩).elim
  exact ⟨c, hopen, hbackend, hreply, result, next, hquery, ⟨records, hrecords, hlookup⟩, records',
    hrecords', hkept records' hrecords'⟩

end FileConnection
end PolyQuery
