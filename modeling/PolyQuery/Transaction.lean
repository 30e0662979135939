import PolyQuery.Session.Pool

/-! Transactions. A client is taken from a pool, a transaction is begun on it, and after the
callback it is committed, or rolled back where anything failed; in either case the client is
released. Once a commit or a rollback succeeded, the transaction is completed and nothing more is
sent. -/
namespace PolyQuery

/-- How far a transaction is kept apart from others: a level of the standard, or one that a server
knows by keywords of its own. -/
inductive IsolationLevel where
  | readUncommitted
  | readCommitted
  | repeatableRead
  | serializable
  | other (keywords : String)
  deriving DecidableEq, Repr

namespace IsolationLevel

/-- The keywords of a level. -/
def keywords : IsolationLevel → String
  | .readUncommitted => "READ UNCOMMITTED"
  | .readCommitted => "READ COMMITTED"
  | .repeatableRead => "REPEATABLE READ"
  | .serializable => "SERIALIZABLE"
  | .other words => words

/-- The levels of the standard. -/
def standard : List IsolationLevel :=
  [.readUncommitted, .readCommitted, .repeatableRead, .serializable]

/-- The level that keywords name; no keywords name none. -/
def ofKeywords? (words : String) : Option IsolationLevel :=
  if words = "" then none
  else some ((standard.find? (·.keywords == words)).getD (.other words))

end IsolationLevel

/-- The statement that begins a transaction. -/
def beginStatement (level : Option IsolationLevel) : String :=
  match level with
  | some l => "BEGIN ISOLATION LEVEL " ++ l.keywords
  | none => "BEGIN"

/-- Where the client of a transaction comes from: the shared pool, or another pool whose servers
speak a dialect. -/
inductive ClientSource where
  | shared
  | other (d : Dialect)

/-- How a transaction is to be run. -/
structure TransactionOptions where
  level : Option IsolationLevel
  source : ClientSource

namespace Transaction

/-- Takes a client from a source and makes it the one of the running transaction. -/
def acquire (source : ClientSource) : Run Unit := do
  let s ← Run.session
  let d ← match source with
    | .shared => do
      Run.openPool
      Pool.takeClient
    | .other d =>
      match s.pool.refusal with
      | some text => Run.fail (.failure text)
      | none => pure d
  Run.update fun s => { s with client := some ⟨d, false⟩ }

/-- Commits the transaction. -/
def commit : Run Unit := do
  let _ ← Run.callClient .commit

/-- Rolls the transaction back, unless it is completed. -/
def rollback : Run Unit := do
  let _ ← Run.callClient .rollback

/-- Whether the transaction is not completed. -/
def isActive : Run Bool := do
  let c ← Run.client
  return !c.isCompleted

end Transaction

/-- Runs a callback within a transaction. The callback may be an action of any kind that contains
actions on the session, so that it can keep a state of its own. -/
def transaction {m : Type → Type} [Monad m] [MonadLiftT Run m] [MonadExceptOf Error m] {α : Type}
    (options : TransactionOptions) (callback : m α) : m α := do
  liftM (Transaction.acquire options.source)
  let outcome : Except Error α ← tryCatchThe Error
    (do
      let _ ← liftM (Run.sendOnClient (beginStatement options.level) none)
      let a ← callback
      liftM Transaction.commit
      return .ok a)
    (fun e => return .error e)
  match outcome with
  | .ok a =>
    liftM Pool.releaseClient
    return a
  | .error e =>
    liftM (Run.log "transaction" .warn "Rolling back transaction" [.error e])
    let undone : Except Error Unit ← liftM (Run.outcome Transaction.rollback)
    liftM Pool.releaseClient
    match undone with
    | .ok _ => throw e
    | .error failure => throw failure

end PolyQuery
