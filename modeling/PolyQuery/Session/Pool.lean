import PolyQuery.Session

/-! The shared pool: clients of one PostgreSQL server. It can be asked for the version of the
server, which decides the dialect from then on, and for whether it is connected. -/
namespace PolyQuery.Pool

/-- Changes the pool. -/
def update (f : Pool → Pool) : Run Unit := Run.update fun s => { s with pool := f s.pool }

/-- Takes a client, and gives the dialect that it speaks. A failure is logged and passes through. -/
def takeClient : Run Dialect := do
  Run.note .poolConnect
  let s ← Run.session
  match s.pool.refusal with
  | some text =>
    let e := Error.failure text
    Run.log "pg" .error "Failed to get database client" [.error e]
    Run.fail e
  | none => return s.pool.dialect

/-- Gives a client back. -/
def releaseClient : Run Unit := Run.note .clientReleased

/-- The number in the first row of the answer to the question for the server's version. -/
def versionNumber (rows : List Row) : Except Error Number := do
  let v := ((rows.head?.bind fun r => r.lookup "server_version_num")).getD .undefined
  let n ← readable v.toNumber?
  if n.isInteger then return n
  let given ← readable v.text?
  .error (.unexpectedVersionNumber given)

/-- Asks the server for its version and takes on the dialect of that version. -/
def detectVersion : Run Dialect := do
  let result ← Run.queryPool "SHOW server_version_num" []
  let n ← Run.ofExcept (versionNumber result.rows)
  let d := Dialect.make .postgres (some (Version.ofNumber n))
  update fun p => { p with dialect := d }
  Run.log "pg" .info ("Connected to " ++ d.label) []
  return d

/-- Tries a query, and remembers whether the server answered. -/
def test : Run Unit := do
  let reply ← Run.outcome (Run.queryPool "SELECT 1" [])
  update fun p => { p with isConnected := reply.isOk }
  let _ ← Run.ofExcept reply

/-- Whether the server is known to answer. -/
def status : Run Bool := do
  let s ← Run.session
  return s.pool.isConnected

/-- A client was connected. -/
def onConnect : Run Unit := update fun p => { p with isConnected := true }

/-- An idle client failed. -/
def onIdleError (e : Error) : Run Unit :=
  Run.log "pg" .error "Unexpected error on idle client:" [.error e]

/-- Closes the pool; the next use of the shared pool opens a new one. -/
def close : Run Unit := do
  Run.note .poolEnded
  update fun p => { p with isOpen := false, isConnected := false }

/-- The shared pool again, opened anew if it was closed; tells whether it is the same one. -/
def reopen : Run Bool := do
  let s ← Run.session
  Run.openPool
  return s.pool.isOpen

end PolyQuery.Pool
