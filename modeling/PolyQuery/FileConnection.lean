import PolyQuery.Config
import PolyQuery.Dialect
import PolyQuery.Log

/-! Connections to a database in a file. The driver blocks, and reads integers at full size; those
that fit are handed on as numbers. As in a session, the driver is known by the replies that it will
give, and the journal lists what was asked of it. -/
namespace PolyQuery

/-- How to open a file. -/
structure FileOptions where
  fileName : Option String
  foreignKeys : Bool
  readOnly : Bool

/-- What the driver makes of a statement: it gives rows, or touches some, or fails. -/
inductive FileReply where
  | rows (rows : List Value)
  | changes (count : Number)
  | failure (text : String)

/-- What was asked of the driver. -/
inductive FileEvent where
  | opened (fileName : String) (readOnly : Bool)
  | pragma (text : String)
  | prepared (sql : String)
  | fullIntegers
  | readAll (parameters : List Value)
  | ran (parameters : List Value)
  | executed (script : String)
  | begun
  | committed
  | rolledBack
  | closed

/-- Rows, and how many were returned or touched. -/
structure FileResult where
  rows : List Row
  count : Number

/-- A connection to a file. -/
structure FileConnection where
  fileName : String
  dialect : Dialect
  isOpen : Bool
  logger : Logger
  replies : List FileReply
  journal : List FileEvent
  log : List LogLine

/-- An action on a connection to a file. -/
abbrev FileRun (α : Type) := ExceptT Error (StateM FileConnection) α

namespace FileConnection

/-- The fields of a row, if a value is one. -/
def row? : Value → Option Row
  | .object fields => some fields
  | .node fields => some fields
  | .array items => some (items.zipIdx.map fun (v, i) => (toString i, v))
  | .bytes _ data => some (data.zipIdx.map fun (b, i) => (toString i, .number (.int b.toNat)))
  | .date _ => some []
  | .foreign _ => some []
  | _ => none

/-- An integer that a number can hold exactly becomes one. -/
def narrow : Value → Value
  | .bigint i => if -Number.maxSafe ≤ i ∧ i ≤ Number.maxSafe then .number (.int i) else .bigint i
  | v => v

/-- A row with its integers narrowed. -/
def narrowRow (r : Row) : Row := r.map fun (column, v) => (column, narrow v)

/-- The version of the library in the row that it answers; without a text there, the default. -/
def versionIn (v : Value) : Except Error Version :=
  match (row? v).bind fun r => r.lookup "version" with
  | some (.string s) =>
    match Version.parse? s with
    | some version => .ok version
    | none => .error (.unreadableVersion s)
  | _ => .ok Backend.sqlite.defaultVersion

/-- Opens a file. The library's version, which it answers in a row, decides the dialect. -/
def open_ (config : Config) (options : FileOptions) (version : Value) (threshold : Level)
    (replies : List FileReply) : Except Error FileConnection := do
  let name := options.fileName.getD config.fileName
  let v ← versionIn version
  let d := Dialect.make .sqlite (some v)
  let logger : Logger := ⟨"sqlite", some threshold⟩
  return {
    fileName := name
    dialect := d
    isOpen := true
    logger := logger
    replies := replies
    journal := .opened name options.readOnly ::
      (if options.foreignKeys then [.pragma "foreign_keys = ON"] else [])
    log := logger.write .debug ("Opened " ++ name ++ " (" ++ d.label ++ ")") [] }

/-- Changes the connection. -/
def update (f : FileConnection → FileConnection) : FileRun Unit := fun c => (.ok (), f c)

/-- Adds to the journal. -/
def note (e : FileEvent) : FileRun Unit := update fun c => { c with journal := c.journal ++ [e] }

/-- Writes a line of log. -/
def write (level : Level) (message : String) (details : List LogDetail) : FileRun Unit :=
  update fun c => { c with log := c.log ++ c.logger.write level message details }

/-- The driver's next reply; in the end statements touch nothing. -/
def nextReply : FileRun FileReply := fun c =>
  match c.replies with
  | r :: rest => (.ok r, { c with replies := rest })
  | [] => (.ok (.changes (.int 0)), c)

/-- Runs a statement with parameters. A failure is logged and passes through. -/
def query (sql : String) (parameters : List Value) : FileRun FileResult := do
  note (.prepared sql)
  match ← nextReply with
  | .rows values =>
    note .fullIntegers
    note (.readAll parameters)
    let rows := (values.filterMap row?).map narrowRow
    return ⟨rows, .int rows.length⟩
  | .changes count =>
    note (.ran parameters)
    return ⟨[], count⟩
  | .failure text =>
    write .error ("Query failed: " ++ sql) [.error (.failure text)]
    throw (.failure text)

/-- Runs a script of statements without parameters. -/
def execute (script : String) : FileRun Unit := note (.executed script)

/-- Runs an action within a transaction, which is rolled back if the action fails. -/
def atomically {α : Type} (x : FileRun α) : FileRun α := do
  note .begun
  tryCatch
    (do
      let a ← x
      note .committed
      return a)
    (fun e => do
      note .rolledBack
      throw e)

/-- Closes the connection. -/
def close : FileRun Unit := do
  note .closed
  update fun c => { c with isOpen := false }

end FileConnection

end PolyQuery
