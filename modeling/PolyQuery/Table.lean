import PolyQuery.Session.Fetch

/-! Tables: reading and writing the records of a model. Writes ask for the rows that they touched
where the server can return them; elsewhere only their number is known. -/
namespace PolyQuery

/-- The table of a model, on the model's connection or on a channel of its own. -/
structure Table where
  model : Model
  channel : Option Channel

/-- What a write gives: the records that were returned, and the number of rows that it touched. -/
structure WriteResult where
  records : List Nat
  affected : Number
  deriving Repr

/-- A result as a record. -/
def WriteResult.record (r : WriteResult) : Record :=
  .ofRow [("records", .array (r.records.map .record)), ("affected", .number r.affected)]

/-- A change of rows under construction. -/
structure RowChange where
  table : Table
  data : List (String × Operand)
  conditions : List Expr

/-- A deletion of rows under construction. -/
structure RowDeletion where
  table : Table
  conditions : List Expr

/-- Whether a slot of a record is loaded. -/
inductive SlotState where
  | loaded
  | notLoaded
  deriving DecidableEq, Repr

/-- The word for a state. -/
def SlotState.name : SlotState → String
  | .loaded => "loaded"
  | .notLoaded => "not_loaded"

namespace Table

/-- The fields of the model. -/
def fields (t : Table) : Option FieldMap := some t.model.fields

/-- The entries of data that may be written: what is undefined, or filled in by the database, is
left out. -/
def writable (t : Table) (data : List (String × Operand)) : List (String × Operand) :=
  data.filter fun (key, v) => !Expr.isAbsent v && !t.model.autoFields.contains key

/-- The condition that the primary key has a value. -/
def keyCondition (t : Table) (id : Operand) : Expr :=
  compareProperty t.fields t.model.primaryKey .equal id

/-- A query for the table's records. -/
def query (t : Table) : Run Builder := do
  let b ← Run.query t.model.name
  return match t.channel with
    | some c => b.via c
    | none => b

/-- A query for some columns. -/
def select (t : Table) (columns : List ColumnChoice) : Run Builder := do
  let b ← t.query
  return b.select columns

/-- A query for the records that meet a criterion. -/
def filter (t : Table) (c : Criterion) : Run Builder := do
  let b ← t.query
  return match Expr.conjunction? (c.conditions t.fields) with
    | some e => b.filter (.expression e)
    | none => b

/-- A query for records with relations. -/
def load (t : Table) (requests : List LoadRequest) : Run Builder := do
  let b ← t.query
  return b.load requests

/-- The record with a primary key. -/
def find (t : Table) (id : Operand) : Run (Option Nat) := do
  let b ← t.query
  Run.one .awaiting (b.filter (.expression (t.keyCondition id)))

/-- All records. -/
def findAll (t : Table) : Run (List Nat) := do
  let b ← t.query
  Run.all .awaiting b

/-- The channel on which the table's statements run. -/
def target (t : Table) : Run Channel :=
  match t.channel with
  | some c => pure c
  | none => Run.channelOf t.model.connection

/-- What a write asks to be returned: all columns, where the server can return rows. -/
def returned (d : Dialect) : List Expr :=
  if d.capabilities.supports .returningClause ReturningFeature.basic then [.star none] else []

/-- Sends a statement for the table's server. Comes back with the reply, and with the dialect of the
server. -/
def send (t : Table) (statement : Dialect → Statement) : Run (Dialect × ResultSet) := do
  let c ← t.target
  let d ← Run.dialectOf c
  let compiled ← Run.ofExcept (compile d (statement d))
  let result ← Run.perform .awaiting c compiled
  return (d, result)

/-- Runs a write that asks for rows where they can be had. -/
def write (t : Table) (statement : List Expr → Statement) : Run WriteResult := do
  let (d, result) ← t.send fun d => statement (returned d)
  if (returned d).isEmpty then return ⟨[], result.count⟩
  else do
    let s ← Run.session
    let rows ← Run.ofExcept (decodeRows t.fields d s.registry result.rows)
    let ids ← Run.onStore fun s => s.addRows rows
    return ⟨ids, .int result.rows.length⟩

/-- The keys of records, each once, in order of first occurrence. -/
def keysOf (records : List (List (String × Operand))) : List String :=
  (records.flatMap fun r => r.map Prod.fst).foldl
    (fun acc key => if acc.contains key then acc else acc ++ [key]) []

/-- What a record has for a key, or nothing. -/
def valueFor (record : List (String × Operand)) (key : String) : Operand :=
  match record.lookup key with
  | some v => if v.isMissing then .value .null else v
  | none => .value .null

/-- The insertion of records: a record without a key gets nothing there. -/
def insertPlan (t : Table) (records : List (List (String × Operand))) (returning : List Expr) :
    InsertPlan :=
  let keys := keysOf records
  ⟨t.model.table, keys.map Naming.camelToSnake,
    records.map fun r => keys.map fun key => propertyValue t.fields key (valueFor r key), returning⟩

/-- Inserts records by one statement. -/
def insertMany (t : Table) (records : List (List (String × Operand))) : Run WriteResult :=
  if records.isEmpty then pure ⟨[], .int 0⟩
  else t.write fun returning => .insert (t.insertPlan (records.map t.writable) returning)

/-- Inserts a record, and gives it back where the server returns it. -/
def insert (t : Table) (record : List (String × Operand)) : Run (Option Nat) := do
  let result ← t.insertMany [record]
  return result.records.head?

/-- A change of rows, for which conditions are still to be said. -/
def update (t : Table) (data : List (String × Operand)) : RowChange := ⟨t, t.writable data, []⟩

/-- A deletion of rows, for which conditions are still to be said. -/
def delete (t : Table) : RowDeletion := ⟨t, []⟩

end Table

namespace RowChange

/-- Adds a criterion that the rows must meet. -/
def filter (u : RowChange) (c : Criterion) : RowChange :=
  { u with conditions := u.conditions ++ c.conditions u.table.fields }

/-- The columns that get new values; a field for the time of the last change gets the current
time. -/
def assignments (u : RowChange) : List Assignment :=
  (u.data.map fun (key, v) => ⟨Naming.camelToSnake key, propertyValue u.table.fields key v⟩) ++
    (if (u.table.model.fields.find? "updatedAt").isSome then
      [⟨Naming.camelToSnake "updatedAt", Expr.callOf "NOW" []⟩]
    else [])

/-- The finished change, with what it asks to be returned. -/
def plan (u : RowChange) (returning : List Expr) : UpdatePlan :=
  ⟨u.table.model.table, u.assignments, Expr.conjunction? u.conditions, returning⟩

/-- Runs the change. -/
def run (u : RowChange) : Run WriteResult :=
  u.table.write fun returning => .update (u.plan returning)

end RowChange

namespace RowDeletion

/-- Adds a criterion that the rows must meet. -/
def filter (d : RowDeletion) (c : Criterion) : RowDeletion :=
  { d with conditions := d.conditions ++ c.conditions d.table.fields }

/-- The finished deletion. -/
def plan (d : RowDeletion) : DeletePlan :=
  ⟨d.table.model.table, Expr.conjunction? d.conditions, []⟩

/-- Runs the deletion, and gives the number of rows. -/
def run (d : RowDeletion) : Run Number := do
  let (_, result) ← d.table.send fun _ => .delete d.plan
  return result.count

end RowDeletion

namespace Table

/-- Changes the record with a primary key, and gives it as it is afterwards, if there is one. -/
def updateKey (t : Table) (id : Operand) (data : List (String × Operand)) : Run (Option Nat) := do
  let result ← ((t.update data).filter (.expression (t.keyCondition id))).run
  match result.records with
  | record :: _ => return some record
  | [] => if (Number.int 0).lt result.affected then t.find id else return none

/-- Deletes the record with a primary key, and tells whether there was one. -/
def deleteKey (t : Table) (id : Operand) : Run Bool := do
  let count ← (t.delete.filter (.expression (t.keyCondition id))).run
  return (Number.int 0).lt count

/-- What stands before the first point of a text. -/
def beforePoint (path : String) : String :=
  String.ofList (path.toList.takeWhile (· != '.'))

/-- The loaded value of a slot. -/
def cached (record : Nat) (slot : String) : Run (Option Value) :=
  Run.onStore fun s => s.cached? record slot

/-- The value of a relation of a record, loaded where it is not loaded yet. A path is always
loaded. -/
def related (t : Table) (w : Waiting) (record : Nat) (path : String) : Run Value := do
  let slot := beforePoint path
  if !path.toList.contains '.' then
    if let some v ← cached record slot then return v
  let _ ← Run.loadOnto w t.model [⟨path, none, none⟩] [record] none t.channel
  let v ← cached record slot
  return v.getD .undefined

/-- Whether a slot of a record is loaded. -/
def slotState (record : Nat) (slot : String) : Run SlotState := do
  let v ← cached record slot
  return if v.isSome then .loaded else .notLoaded

/-- Marks a slot of a record, or all of them, as not loaded. -/
def clear (record : Nat) (slot : Option String) : Run Unit :=
  Run.onStore fun s => ((), s.clear record slot)

end Table

namespace Run

/-- The table of a model. -/
def table (name : String) : Run Table := do
  let m ← model name
  return ⟨m, none⟩

end Run

end PolyQuery
