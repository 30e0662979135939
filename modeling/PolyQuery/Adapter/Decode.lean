import PolyQuery.Adapter.Registry
import PolyQuery.Dialect
import PolyQuery.Model
import PolyQuery.Naming

/-! From rows to records: columns become properties, and the values of declared fields are
converted. Where two columns become one property, the later value stands in the earlier place. -/
namespace PolyQuery

/-- The override of a field. -/
def Field.override (f : Field) : Override := ⟨f.adapter, f.representation⟩

/-- The value of a column for a field: nothing stays nothing, and what is not declared, or needs no
conversion, stays as the driver gave it. -/
def decodeValue (field : Option Field) (d : Dialect) (r : Registry) (v : Value) :
    Except Error Value :=
  match field with
  | none => .ok v
  | some f =>
    if v.isMissing then .ok v
    else if !f.isOverridden && Registry.isNative f.hostType then .ok v
    else do
      let resolved ← r.resolve f.hostType d.suggestRepresentation f.override
      resolved.convert .fromDatabase none v

/-- The value of a column of a row, by the fields of a model. -/
def decodeColumn (fields : Option FieldMap) (d : Dialect) (r : Registry)
    (entry : String × Value) : Except Error (String × Value) := do
  let property := Naming.snakeToCamel entry.1
  let v ← decodeValue (fields.bind fun fs => fs.find? property) d r entry.2
  return (property, v)

/-- A row as a record. -/
def decodeRow (fields : Option FieldMap) (d : Dialect) (r : Registry) (row : Row) :
    Except Error Row := do
  let entries ← row.mapM (decodeColumn fields d r)
  return Fields.ofList entries

/-- Rows as records; the first failure ends it. -/
def decodeRows (fields : Option FieldMap) (d : Dialect) (r : Registry) (rows : List Row) :
    Except Error (List Row) := rows.mapM (decodeRow fields d r)

/-- A row with its columns renamed to properties. -/
def renameRow (row : Row) : Row :=
  Fields.ofList (row.map fun (column, v) => (Naming.snakeToCamel column, v))

end PolyQuery
