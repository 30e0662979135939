import Mathlib.Data.List.TakeWhile
import PolyQuery.Adapter.Bind
import PolyQuery.Adapter.Decode
import PolyQuery.Model.Condition
import PolyQuery.Proofs.Naming
import PolyQuery.Sql.Compile

/-! The conversions of a field. A value that is bound for a field and a value that is read from its
column go through one conversion, which the field, the dialect and the registry decide alone. What an
adapter writes and reads back is therefore the same value under the same property:
`bound_value_decoded`. -/
namespace PolyQuery
variable {d : Dialect} {r : Registry} {f : Field} {fields : FieldMap} {property hostType : String}

/-- The conversion for the values of a field. -/
def Field.conversion (f : Field) (d : Dialect) (r : Registry) : Except Error Resolved :=
  if !f.isOverridden && Registry.isNative f.hostType then .ok .unchanged
  else r.resolve f.hostType d.suggestRepresentation f.override

/-- What is written for a value, and what is read from any column that is not empty, by one
conversion: by one adapter with one representation, unchanged, or not at all for want of an
adapter. -/
inductive Agreed (v : Value) (written : Except Error Value) (read : Value → Except Error Value) :
    Except Error Resolved → Prop where
  | converted (a : Adapter) (representation : Option Representation)
      (hwritten : written = a.toDatabase v representation none)
      (hread : ∀ w : Value, w.isMissing = false → read w = a.fromDatabase w representation none) :
      Agreed v written read (.ok ⟨some a, representation⟩)
  | unchanged (representation : Option Representation) (hwritten : written = .ok v)
      (hread : ∀ w : Value, read w = .ok w) : Agreed v written read (.ok ⟨none, representation⟩)
  | unregistered (demanded : Option String) (representation : Option Representation)
      (hwritten : written = .error (.unregisteredType demanded representation))
      (hread : ∀ w : Value, w.isMissing = false →
        read w = .error (.unregisteredType demanded representation)) :
      Agreed v written read (.error (.unregisteredType demanded representation))

theorem Registry.resolveChosen_error {demanded : Option String} {a : Adapter}
    {representation : Option Representation} {e : Error}
    (h : resolveChosen demanded a representation = .error e) :
    ∃ named rep, e = .unregisteredType named rep := by
  unfold resolveChosen at h
  split at h
  · cases h
  · split at h
    · cases h
    · cases h
      exact ⟨_, _, rfl⟩
  · cases h
    exact ⟨_, _, rfl⟩

/-- A registry fails to resolve only for want of an adapter. -/
theorem Registry.resolve_error {demanded : Option String} {suggest : String → Option Representation}
    {override : Override} {e : Error} (h : r.resolve demanded suggest override = .error e) :
    ∃ named rep, e = .unregisteredType named rep := by
  unfold resolve at h
  split at h
  · exact resolveChosen_error h
  · split at h
    · cases h
    · split at h
      · cases h
      · split at h
        · cases h
        · cases h
          exact ⟨_, _, rfl⟩
    · split at h
      · cases h
      · split at h
        · cases h
        · cases h
          exact ⟨_, _, rfl⟩

theorem Field.conversion_error {e : Error} (h : f.conversion d r = .error e) :
    ∃ named rep, e = .unregisteredType named rep := by
  unfold conversion at h
  split at h
  · cases h
  · exact Registry.resolve_error h

/-- A name without a point is not split. -/
theorem Expr.splitAtLastPoint_eq_none {name : String} (h : '.' ∉ name.toList) :
    splitAtLastPoint name = none := by
  have hall : name.toList.reverse.takeWhile (· != '.') = name.toList.reverse := by
    apply List.takeWhile_eq_self_iff.2
    intro c hc
    apply bne_iff_ne.2
    rintro rfl
    exact h (List.mem_reverse.1 hc)
  unfold splitAtLastPoint
  dsimp only
  rw [hall, List.drop_length]

/-- A name without a point is that of a column of any table. -/
theorem Expr.reference_unqualified {name : String} (h : '.' ∉ name.toList) :
    reference name none = .column none name none := by
  rw [reference, splitAtLastPoint_eq_none h]

/-- A name without a point is its own last part. -/
theorem unqualified_eq (h : '.' ∉ property.toList) : unqualified property = property := by
  rw [unqualified, Expr.splitAtLastPoint_eq_none h]

/-- The literal of a value for a declared field, under any name that refers to it. -/
theorem propertyValue_referring {name : String} {v : Operand}
    (hfield : fields.lookup (unqualified name) = some f) (htype : f.hostType = some hostType)
    (hv : ∀ e, v ≠ .expr e) : propertyValue (some fields) name v =
      .literal v.toValue ⟨hostType, f.representation, f.adapter⟩ := by
  have hfound : fields.find? (unqualified name) = some f := by rw [FieldMap.find?, hfield]
  have hliteral : Expr.literalOf v.toValue f.hostType f.representation f.adapter =
      .literal v.toValue ⟨hostType, f.representation, f.adapter⟩ := by
    rw [Expr.literalOf, htype]
    rfl
  unfold propertyValue
  cases v with
  | expr e => exact absurd rfl (hv e)
  | value v => rw [Option.bind_some, hfound, ← hliteral]
  | items xs => rw [Option.bind_some, hfound, ← hliteral]
  | fields fs => rw [Option.bind_some, hfound, ← hliteral]

/-- The literal of a value for a declared field. -/
theorem propertyValue_declared {v : Operand} (hfield : fields.lookup property = some f)
    (htype : f.hostType = some hostType) (hpoint : '.' ∉ property.toList)
    (hv : ∀ e, v ≠ .expr e) :
    propertyValue (some fields) property v =
      .literal v.toValue ⟨hostType, f.representation, f.adapter⟩ :=
  propertyValue_referring ((unqualified_eq hpoint).symm ▸ hfield) htype hv

/-- The value for the driver is the field's conversion of it. -/
theorem Binding.bind_eq {v : Value} (hv : v.isMissing = false) (htype : f.hostType = some hostType)
    (hknown : hostType ≠ "unknown") :
    (Binding.mk v ⟨hostType, f.representation, f.adapter⟩).bind d r =
      f.conversion d r >>= fun chosen => chosen.convert .toDatabase none v := by
  have hbound : (Binding.mk v ⟨hostType, f.representation, f.adapter⟩).boundType r = hostType :=
    if_neg hknown
  unfold Binding.bind Field.conversion
  rw [hbound, htype]
  dsimp only
  rw [hv, if_neg Bool.false_ne_true]
  -- both ask for an override and for a native type in the same words
  change (if (!f.isOverridden && Registry.isNative (some hostType)) = true then _ else _) = _
  split
  · rfl
  · rfl

/-- The value of a column is the field's conversion of it. -/
theorem decodeValue_eq {w : Value} (hw : w.isMissing = false) :
    decodeValue (some f) d r w =
      f.conversion d r >>= fun chosen => chosen.convert .fromDatabase none w := by
  unfold decodeValue Field.conversion
  dsimp only
  rw [hw, if_neg Bool.false_ne_true]
  split
  · rfl
  · rfl

theorem decodeValue_unchanged {representation : Option Representation}
    (h : f.conversion d r = .ok ⟨none, representation⟩) (w : Value) :
    decodeValue (some f) d r w = .ok w := by
  cases hw : w.isMissing with
  | true =>
    unfold decodeValue
    dsimp only
    rw [hw, if_pos rfl]
  | false =>
    rw [decodeValue_eq hw, h]
    rfl

theorem ofList_singleton (key : String) (v : Value) : Fields.ofList [(key, v)] = [(key, v)] := by
  change Fields.arrange [(key, v)] = _
  unfold Fields.arrange
  cases hposition : Fields.position? key with
  | none => simp [hposition]
  | some n => simp [hposition, Fields.insertByPosition]

/-- The row of one column is the record of its property. -/
theorem decodeRow_singleton (fields : Option FieldMap) (d : Dialect) (r : Registry)
    (column : String) (w : Value) :
    decodeRow fields d r [(column, w)] =
      (decodeValue (fields.bind fun fs => fs.find? (Naming.snakeToCamel column)) d r w).map
        fun x => [(Naming.snakeToCamel column, x)] := by
  unfold decodeRow decodeColumn
  rw [List.mapM_cons, List.mapM_nil]
  dsimp only
  cases decodeValue (fields.bind fun fs => fs.find? (Naming.snakeToCamel column)) d r w with
  | error e => rfl
  | ok x =>
    change Except.ok (Fields.ofList [(Naming.snakeToCamel column, x)]) = _
    rw [ofList_singleton]
    rfl

theorem decodeRow_column (hfield : fields.lookup property = some f)
    (hname : Naming.IsCamel property.toList) (w : Value) :
    decodeRow (some fields) d r [(Naming.camelToSnake property, w)] =
      (decodeValue (some f) d r w).map fun x => [(property, x)] := by
  rw [decodeRow_singleton, Naming.snakeToCamel_camelToSnake hname, Option.bind_some,
    FieldMap.find?, hfield]

/-- Binding and decoding agree on every field whose type is declared. -/
theorem agreed_conversion {v : Value} (hv : v.isMissing = false) (htype : f.hostType = some hostType)
    (hknown : hostType ≠ "unknown") :
    Agreed v ((Binding.mk v ⟨hostType, f.representation, f.adapter⟩).bind d r)
      (decodeValue (some f) d r) (f.conversion d r) := by
  have hbind := Binding.bind_eq (d := d) (r := r) hv htype hknown
  -- both directions make the same choice of an adapter, so one case split is for both
  rcases hchosen : f.conversion d r with e | ⟨_ | a, representation⟩
  · obtain ⟨named, representation, rfl⟩ := Field.conversion_error hchosen
    apply Agreed.unregistered
    · rw [hbind, hchosen]
      rfl
    · intro w hw
      rw [decodeValue_eq hw, hchosen]
      rfl
  · apply Agreed.unchanged
    · rw [hbind, hchosen]
      rfl
    · exact decodeValue_unchanged hchosen
  · apply Agreed.converted
    · rw [hbind, hchosen]
      rfl
    · intro w hw
      rw [decodeValue_eq hw, hchosen]
      rfl

/-- Where both sides agree, a value that the adapter reads back from what it wrote is read back. -/
theorem Agreed.read_back {v w : Value} {written : Except Error Value}
    {read : Value → Except Error Value} {chosen : Except Error Resolved}
    (h : Agreed v written read chosen) (hwritten : written = .ok w) (hw : w.isMissing = false)
    (hback : ∀ a representation, chosen = .ok ⟨some a, representation⟩ →
      a.fromDatabase w representation none = .ok v) : read w = .ok v := by
  cases h with
  | converted a representation _ hread => rw [hread w hw, hback a representation rfl]
  | unchanged _ hsame hread =>
    rw [hread]
    exact hwritten.symm.trans hsame
  | unregistered _ _ hfailed _ =>
    rw [hwritten] at hfailed
    cases hfailed

/-- The literal of a value for a declared field is bound, and the field's column is read, by the same
conversion; a value that the adapter reads back from what it wrote is the record's value again. -/
theorem bound_value_decoded (d : Dialect) (r : Registry) {v : Operand}
    (hfield : fields.lookup property = some f) (htype : f.hostType = some hostType)
    (hknown : hostType ≠ "unknown") (hpoint : '.' ∉ property.toList)
    (hname : Naming.IsCamel property.toList) (hexpr : ∀ e, v ≠ .expr e)
    (hv : v.toValue.isMissing = false) :
    ∃ b : Binding,
      Sql.expr d (propertyValue (some fields) property v) = .ok (.bind b) ∧
      Agreed v.toValue (b.bind d r) (decodeValue (some f) d r) (f.conversion d r) ∧
      (∀ w, decodeRow (some fields) d r [(Naming.camelToSnake property, w)] =
        (decodeValue (some f) d r w).map fun x => [(property, x)]) ∧
      ∀ w, b.bind d r = .ok w → w.isMissing = false →
        (∀ a representation, f.conversion d r = .ok ⟨some a, representation⟩ →
          a.fromDatabase w representation none = .ok v.toValue) →
        decodeRow (some fields) d r [(Naming.camelToSnake property, w)] =
          .ok [(property, v.toValue)] := by
  have hagreed := agreed_conversion (d := d) (r := r) hv htype hknown
  refine ⟨⟨v.toValue, ⟨hostType, f.representation, f.adapter⟩⟩, ?_, hagreed, ?_, ?_⟩
  · rw [propertyValue_declared hfield htype hpoint hexpr]
    -- a value that is not missing is not `undefined`, and any other is bound
    generalize v.toValue = x at hv
    cases x with
    | undefined => cases hv
    | _ => rfl
  · exact decodeRow_column hfield hname
  · intro w hbound hw hback
    rw [decodeRow_column hfield hname, hagreed.read_back hbound hw hback]
    rfl

/-- A flag that is kept as a word. -/
def wordFlag : Field := ⟨some "boolean", some .text, none⟩

theorem bound_value_decoded_wordFlag :
    [("isActive", wordFlag)].lookup "isActive" = some wordFlag ∧
      Naming.IsCamel "isActive".toList ∧
      (Binding.mk (.bool true) ⟨"boolean", some .text, none⟩).bind (.make .sqlite none) .standard =
        .ok (.string "true") ∧
      decodeRow (some [("isActive", wordFlag)]) (.make .sqlite none) .standard
          [(Naming.camelToSnake "isActive", .string "true")] =
        .ok [("isActive", .bool true)] := by
  have hfield : [("isActive", wordFlag)].lookup "isActive" = some wordFlag := rfl
  have htype : wordFlag.hostType = some "boolean" := rfl
  have hpoint : '.' ∉ "isActive".toList := by decide
  have hname : Naming.IsCamel "isActive".toList := by decide
  have hexpr (e : Expr) : Operand.value (.bool true) ≠ .expr e := fun h => nomatch h
  obtain ⟨b, hb, -, -, hback⟩ := bound_value_decoded (.make .sqlite none) .standard hfield htype
    (by decide) hpoint hname hexpr rfl
  refine ⟨hfield, hname, rfl, ?_⟩
  have hbinding : b = ⟨.bool true, ⟨"boolean", some .text, none⟩⟩ := by
    cases hb
    rfl
  -- the flag is stored as a word, which the adapter reads back
  apply hback (.string "true")
  · rw [hbinding]
    rfl
  · rfl
  · intro a representation hchosen
    have hboolean : wordFlag.conversion (.make .sqlite none) .standard =
        .ok ⟨some Adapter.boolean, some .text⟩ := rfl
    rw [hboolean] at hchosen
    cases hchosen
    rfl

end PolyQuery
