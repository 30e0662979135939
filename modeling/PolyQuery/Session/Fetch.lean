import PolyQuery.Relation.Loader

/-! Running queries: their records with the relations that were asked for, the first of them, their
number, whether there are any, and plain rows. Each can be awaited or can block. -/
namespace PolyQuery

/-- The requested relations of a builder, planned; they need a model. -/
def Builder.loadPlan? (b : Builder) (models : List Model) : Except Error (Option LoadPlan) :=
  if b.requests.isEmpty then .ok none
  else
    match b.model with
    | some m => (LoadPlan.make models m b.requests).map some
    | none => fault .relationsWithoutModel

namespace Run

/-- The channel on which a builder's query runs. -/
def builderChannel (b : Builder) : Run Channel :=
  match b.channel with
  | some c => pure c
  | none => channelOf b.connection

/-- The decoded rows of a selection. -/
def fetchRows (w : Waiting) (c : Channel) (fields : Option FieldMap) (p : SelectPlan) :
    Run (List Row) := do
  let d ← dialectOf c
  let compiled ← ofExcept (compile d (.query (.select p)))
  let result ← perform w c compiled
  let s ← session
  ofExcept (decodeRows fields d s.registry result.rows)

/-- The records of a selection. -/
def fetchRecords (w : Waiting) (c : Channel) (fields : Option FieldMap) (p : SelectPlan) :
    Run (List Nat) := do
  let rows ← fetchRows w c fields p
  onStore fun s => s.addRows rows

/-- The records of a query with their relations, which are planned before anything is sent. A
modifier may ask for further relations, so `fuel` bounds how deep loads are nested: a load below
another needs rows, hence a reply of its own. Below a blocking load the signal is not heeded. -/
def allWithin (w : Waiting) : Nat → Bool → Builder → Run (List Nat)
  | 0, _, _ => return []
  | fuel + 1, watched, b => do
    let s ← session
    let plan? ← ofExcept (b.loadPlan? s.models)
    let c ← builderChannel b
    let ids ← fetchRecords w c b.fields b.plan
    match plan? with
    | some plan =>
      let ctx : LoadContext := ⟨plan, b.connection, b.channel, watched⟩
      let _ ← Loader.load (allWithin w fuel (watched && w = .awaiting)) ctx ids
      return ids
    | none => return ids

/-- More than the number of replies that are left: loads are not nested deeper. -/
def nestingBound : Run Nat := do
  let s ← session
  return (s.links.flatMap fun l => l.2.replies).length + s.pool.replies.length + 2

/-- All records of a query. -/
def all (w : Waiting) (b : Builder) : Run (List Nat) := do
  let fuel ← nestingBound
  allWithin w fuel true b

/-- The first record of a query. -/
def one (w : Waiting) (b : Builder) : Run (Option Nat) := do
  let ids ← all w (b.setLimit (some (.number (.int 1))))
  return ids.head?

/-- Whether a query has rows. -/
def exists_ (w : Waiting) (b : Builder) : Run Bool := do
  let c ← builderChannel b
  let rows ← fetchRows w c b.fields b.existsPlan
  return !rows.isEmpty

/-- The number of rows of a query, as the driver gives it. -/
def count (w : Waiting) (b : Builder) : Run Number := do
  let c ← builderChannel b
  let rows ← fetchRows w c b.fields b.countPlan
  let v := ((rows.head?.bind fun r => r.lookup "count")).getD .undefined
  if v.isMissing then return .int 0 else ofExcept (readable v.toNumber?)

/-- The rows of a query without relations, or the description of its plan where that is asked. -/
def aggregate (w : Waiting) (b : Builder) : Run (List Nat) := do
  let c ← builderChannel b
  match b.explained with
  | some options =>
    let d ← dialectOf c
    let compiled ← ofExcept (compileExplain d (.query b.query) options)
    let result ← perform w c compiled
    onStore fun s => s.addRows result.rows
  | none => fetchRecords w c b.fields b.plan

/-- The rows of a combination, with columns renamed to properties. -/
def allCombined (w : Waiting) (b : CombinedBuilder) : Run (List Nat) := do
  let c ← match b.channel with
    | some c => pure c
    | none => channelOf b.connection
  let d ← dialectOf c
  let compiled ← ofExcept (compile d (.query (.combined b.plan)))
  let result ← perform w c compiled
  onStore fun s => s.addRows (result.rows.map renameRow)

/-- The text of a query for the given dialect, or for that of the server it would go to. -/
def text (d : Option Dialect) (q : Query) (c : Run Channel) : Run Compiled := do
  let d ← match d with
    | some d => pure d
    | none => do
      let c ← c
      dialectOf c
  ofExcept (compile d (.query q))

/-- Loads relations onto records of a model that are there already. -/
def loadOnto (w : Waiting) (m : Model) (requests : List LoadRequest) (roots : List Nat)
    (connection : Option String) (channel : Option Channel) : Run (LoadPlan × LoadReport) := do
  let s ← session
  let plan ← ofExcept (LoadPlan.make s.models m requests)
  let fuel ← nestingBound
  let ctx : LoadContext := ⟨plan, connection.getD m.connection, channel, true⟩
  let report ← Loader.load (allWithin w fuel (w = .awaiting)) ctx roots
  return (plan, report)

end Run

end PolyQuery
