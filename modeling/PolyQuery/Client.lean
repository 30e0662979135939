import PolyQuery.Dialect

/-! The client of a transaction. It sends statements until a commit or a rollback has succeeded;
after that it is completed and sends nothing more. A call has two halves, before and after the
server's reply, so that calls in flight at the same time can be told apart. -/
namespace PolyQuery

/-- A client, which is completed once its transaction was committed or rolled back. -/
structure Client where
  dialect : Dialect
  isCompleted : Bool
  deriving DecidableEq, Repr

/-- A call on the client of a transaction. -/
inductive ClientCall where
  | query (sql : String) (parameters : List Value)
  | commit
  | rollback

namespace Client

/-- What a call on a client leads to before any reply: a statement to send, an error, or nothing. -/
inductive Start where
  | send (sql : String) (parameters : Option (List Value))
  | refuse (e : Error)
  | ignore

/-- A completed client refuses queries and commits, and ignores rollbacks. -/
def start (c : Client) : ClientCall → Start
  | .query sql parameters =>
    if c.isCompleted then .refuse .transactionClosed else .send sql (some parameters)
  | .commit => if c.isCompleted then .refuse .transactionClosed else .send "COMMIT" none
  | .rollback => if c.isCompleted then .ignore else .send "ROLLBACK" none

/-- The client after a reply to a call: a commit or rollback that succeeded completes it. -/
def settle (c : Client) (call : ClientCall) (succeeded : Bool) : Client :=
  match call with
  | .query _ _ => c
  | _ => if succeeded then { c with isCompleted := true } else c

end Client

end PolyQuery
