import PolyQuery.Adapter.Bind
import PolyQuery.Adapter.Decode
import PolyQuery.Builder.Combined
import PolyQuery.Client
import PolyQuery.Config
import PolyQuery.Log
import PolyQuery.Sql.Compile
import PolyQuery.Store.View

/-! A session: models, connections and records, together with the servers at the other ends of the
connections. A server is known by the replies that it will give, so that what a session does is a
function of its state; the journal lists what was sent. `Run` is the type of actions on a session:
an action gives a value or fails, and leaves a session in either case. -/
namespace PolyQuery

/-- A reply of a server: rows, with the number of rows that the statement touched if it is told, or
a failure. -/
inductive Reply where
  | rows (rows : List Row) (count : Option Number)
  | failure (text : String)

/-- What a statement gives: rows, and how many rows were returned or touched. -/
structure ResultSet where
  rows : List Row
  count : Number

/-- A reply as a result. -/
def Reply.result : Reply → Except Error ResultSet
  | .rows rs count => .ok ⟨rs, count.getD (.int rs.length)⟩
  | .failure text => .error (.failure text)

/-- The reply of a server that has nothing more to say. -/
def Reply.nothing : Reply := .rows [] none

/-- A connection to a server, which may allow blocking queries. -/
structure ServerLink where
  dialect : Dialect
  blocking : Bool
  replies : List Reply

/-- The shared pool of clients. It is opened at first use; `refusal` says why it hands out no
clients, if it does not. -/
structure Pool where
  isOpen : Bool
  isConnected : Bool
  dialect : Dialect
  refusal : Option String
  replies : List Reply

/-- What was sent to servers and asked of the pool. -/
inductive Event where
  | sent (connection : String) (sql : String) (parameters : List Value)
  | poolOpened
  | poolQuery (sql : String) (parameters : List Value)
  | poolConnect
  | poolEnded
  | clientQuery (sql : String) (parameters : Option (List Value))
  | clientReleased

/-- A relation whose children come from another connection than their parents: the queries for them
are not atomic. -/
structure CrossConnection where
  path : String
  parent : String
  child : String
  deriving DecidableEq, Repr

/-- The wording of the warning. -/
def CrossConnection.message (w : CrossConnection) : String :=
  "Relation \"" ++ w.path ++ "\" loads from connection \"" ++ w.child ++
    "\" while its parent uses \"" ++ w.parent ++ "\"; the queries are not atomic"

/-- A signal that ends eager loading once so many statements were served, for a reason. -/
structure Signal where
  after : Nat
  reason : Option Value

/-- A session. -/
structure Session where
  models : List Model
  connections : List (String × Channel)
  registry : Registry
  relationLifetime : Option Number
  modifiers : List (String × (Builder → Except Error Builder))
  store : Store
  links : List (String × ServerLink)
  pool : Pool
  client : Option Client
  signal : Option Signal
  served : Nat
  thresholds : List (String × Level)
  journal : List Event
  warnings : List CrossConnection
  log : List LogLine

/-- A session without models, connections and records. -/
def Session.fresh : Session where
  models := []
  connections := []
  registry := .standard
  relationLifetime := Config.standard.relationLifetime
  modifiers := []
  store := .empty
  links := []
  pool := ⟨false, false, .make .postgres none, none, []⟩
  client := none
  signal := none
  served := 0
  thresholds := []
  journal := []
  warnings := []
  log := []

/-- The scopes of log lines. -/
def logScopes : List String := ["database", "relations", "pg", "sqlite", "transaction"]

/-- The session with one threshold for all log lines. -/
def Session.withThreshold (s : Session) (l : Level) : Session :=
  { s with thresholds := logScopes.map fun scope => (scope, l) }

/-- An action on a session. -/
abbrev Run (α : Type) := ExceptT Error (StateM Session) α

/-- Whether a statement is awaited or blocks until its reply is there. -/
inductive Waiting where
  | awaiting
  | blocking
  deriving DecidableEq, Repr

namespace Run

/-- An action that cannot fail. -/
def ofState {α : Type} (f : Session → α × Session) : Run α := fun s =>
  let (a, s) := f s
  (.ok a, s)

/-- A result that needs no session. -/
def ofExcept {α : Type} (x : Except Error α) : Run α := fun s => (x, s)

/-- The session. -/
def session : Run Session := ofState fun s => (s, s)

/-- Changes the session. -/
def update (f : Session → Session) : Run Unit := ofState fun s => ((), f s)

/-- An action on the store. -/
def onStore {α : Type} (f : Store → α × Store) : Run α := ofState fun s =>
  let (a, store) := f s.store
  (a, { s with store := store })

/-- An action on the store that may fail. -/
def onStoreOrFail {α : Type} (f : Store → Except Error α × Store) : Run α := do
  let x ← onStore f
  ofExcept x

/-- Fails. -/
def fail {α : Type} (e : Error) : Run α := ofExcept (.error e)

/-- The outcome of an action, as a value. -/
def outcome {α : Type} (x : Run α) : Run (Except Error α) := fun s =>
  let (r, s) := x.run s
  (.ok r, s)

/-- Adds to the journal. -/
def note (e : Event) : Run Unit := update fun s => { s with journal := s.journal ++ [e] }

/-- Writes a line of log under a scope, if its level passes the threshold of the scope. -/
def log (scope : String) (level : Level) (message : String) (details : List LogDetail) :
    Run Unit :=
  update fun s =>
    let threshold := (s.thresholds.lookup scope).getD (Level.configured Config.standard.logLevel)
    { s with log := s.log ++ (Logger.mk scope (some threshold)).write level message details }

/-- Reports a warning. -/
def warn (w : CrossConnection) : Run Unit := do
  log "database" .warn w.message []
  update fun s => { s with warnings := s.warnings ++ [w] }

/-- Whether the signal has been given. -/
def isAborted : Run Bool := do
  let s ← session
  return match s.signal with
    | some signal => signal.after ≤ s.served
    | none => false

/-- The reason of the signal. -/
def abortReason : Run (Option Value) := do
  let s ← session
  return s.signal.bind Signal.reason

/-- Opens the shared pool unless it is open. -/
def openPool : Run Unit := do
  let s ← session
  if !s.pool.isOpen then
    update fun s => { s with pool := { s.pool with
        isOpen := true, isConnected := false, dialect := .make .postgres none } }
    note .poolOpened

/-- Takes the next reply of the server behind the pool. -/
def poolReply : Run Reply := ofState fun s =>
  match s.pool.replies with
  | r :: rest => (r, { s with pool := { s.pool with replies := rest } })
  | [] => (.nothing, s)

/-- Sends a statement through the pool. A failure is logged and passes through. -/
def queryPool (sql : String) (parameters : List Value) : Run ResultSet := do
  note (.poolQuery sql parameters)
  let reply ← poolReply
  match reply.result with
  | .ok result => return result
  | .error e =>
    log "pg" .error ("Query failed: " ++ sql) [.error e]
    fail e

/-- The links with the replies of one replaced. -/
def setReplies (links : List (String × ServerLink)) (name : String) (replies : List Reply) :
    List (String × ServerLink) :=
  links.map fun (n, l) => if n = name then (n, { l with replies := replies }) else (n, l)

/-- Lets a server give further replies. -/
def addReplies (name : String) (replies : List Reply) : Run Unit :=
  update fun s =>
    let before := ((s.links.lookup name).map ServerLink.replies).getD []
    { s with links := setReplies s.links name (before ++ replies) }

/-- Takes the next reply of a connection. -/
def linkReply (name : String) : Run Reply := ofState fun s =>
  match s.links.lookup name with
  | some link =>
    match link.replies with
    | r :: rest => (r, { s with links := setReplies s.links name rest })
    | [] => (.nothing, s)
  | none => (.nothing, s)

/-- Sends a statement over a connection. -/
def queryLink (name sql : String) (parameters : List Value) : Run ResultSet := do
  note (.sent name sql parameters)
  update fun s => { s with served := s.served + 1 }
  let reply ← linkReply name
  ofExcept reply.result

/-- Sends a statement on the client, and takes the server's reply. -/
def sendOnClient (sql : String) (parameters : Option (List Value)) : Run ResultSet := do
  note (.clientQuery sql parameters)
  let reply ← poolReply
  ofExcept reply.result

/-- The client of the running transaction; without one, a client that is completed. -/
def client : Run Client := do
  let s ← session
  return s.client.getD ⟨.make .postgres none, true⟩

/-- Performs a call on the client and waits for its reply. -/
def callClient (c : ClientCall) : Run ResultSet := do
  let before ← client
  match before.start c with
  | .refuse e => fail e
  | .ignore => return ⟨[], .int 0⟩
  | .send sql parameters =>
    let reply ← outcome (sendOnClient sql parameters)
    update fun s => { s with client := s.client.map fun now => now.settle c reply.isOk }
    ofExcept reply

/-- The channel that a connection's name stands for. Without a registered default connection the
shared pool is used. -/
def channelOf (name : String) : Run Channel := do
  let s ← session
  match s.connections.lookup name with
  | some c => return c
  | none =>
    if name = defaultConnection then do
      openPool
      return .pool
    else fail (.invalidPlan (.connectionMissing name))

/-- The dialect of the server behind a channel. -/
def dialectOf (c : Channel) : Run Dialect := do
  let s ← session
  return match c with
    | .connection name => ((s.links.lookup name).map ServerLink.dialect).getD (.make .sqlite none)
    | .pool => s.pool.dialect
    | .client => (s.client.map Client.dialect).getD (.make .postgres none)

/-- Whether a channel allows blocking queries. -/
def canBlock (c : Channel) : Run Bool := do
  let s ← session
  return match c with
    | .connection name => ((s.links.lookup name).map ServerLink.blocking).getD false
    | .pool => false
    | .client => false

/-- Sends a statement with its parameters over a channel. -/
def send (c : Channel) (sql : String) (parameters : List Value) : Run ResultSet :=
  match c with
  | .connection name => queryLink name sql parameters
  | .pool => queryPool sql parameters
  | .client => callClient (.query sql parameters)

/-- Sends a compiled statement over a channel, with its values converted for the driver. -/
def perform (w : Waiting) (c : Channel) (compiled : Compiled) : Run ResultSet := do
  let d ← dialectOf c
  if w = .blocking then
    if !(← canBlock c) then fail (.notBlocking d.label)
  let s ← session
  let parameters ← ofExcept (bindAll compiled.bindings d s.registry)
  send c compiled.sql parameters

/-- The model of a name. -/
def model (name : String) : Run Model := do
  let s ← session
  match s.models.find? fun m => m.name == name with
  | some m => return m
  | none => fail (.invalidPlan (.modelMissing name))

/-- Adds a model; names are not used twice. -/
def define (m : Model) : Run Unit := do
  let s ← session
  if s.models.any fun other => other.name == m.name then
    fail (.invalidPlan (.modelRepeated m.name))
  update fun s => { s with models := s.models ++ [m] }
  log "database" .debug ("Defined model " ++ m.name ++ " on table " ++ m.table) []

/-- A query for the records of a model. -/
def query (name : String) : Run Builder := do
  let m ← model name
  return .ofModel m

end Run

end PolyQuery
