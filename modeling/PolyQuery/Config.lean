import PolyQuery.Number.Literal
import PolyQuery.Text.Blank

/-! The configuration that an environment gives. A variable that is not set, or empty, leaves the
default. -/
namespace PolyQuery

/-- Where and how the shared pool connects. -/
structure PoolConfig where
  host : String
  port : Number
  database : String
  user : String
  password : String
  maxClients : Nat
  idleTimeout : Nat
  connectTimeout : Nat
  deriving Repr

/-- The settings of the pool and of the library. -/
structure Config where
  pool : PoolConfig
  logLevel : String
  relationLifetime : Option Number
  recursionDepth : Number
  fileName : String
  deriving Repr

namespace Config

/-- The value of a variable, or a default where it is not set or empty. -/
def textOr (value : Option String) (default : String) : String :=
  match value with
  | some s => if s = "" then default else s
  | none => default

/-- A count: the integer at the start of a text, unless it is negative, missing, or no number. -/
def count? (value : Option String) : Option Number :=
  value.bind fun s =>
    if Text.trim s = "" then none
    else
      let n := Number.leadingInteger s
      if n = .nan || n.lt (.int 0) then none else some n

/-- The configuration of an environment. -/
def ofEnvironment (get : String → Option String) : Config where
  pool := {
    host := textOr (get "DB_HOST") "localhost"
    port := Number.leadingInteger (textOr (get "DB_PORT") "5432")
    database := textOr (get "DB_NAME") "sqlweave"
    user := textOr (get "DB_USER") "postgres"
    password := textOr (get "DB_PASSWORD") "postgres"
    maxClients := 10
    idleTimeout := 30000
    connectTimeout := 5000 }
  logLevel := textOr (get "ORM_LOG_LEVEL") "warn"
  relationLifetime := count? (get "ORM_RELATION_CACHE_TTL_MS")
  recursionDepth := (count? (get "ORM_RECURSIVE_MAX_DEPTH")).getD (.int 100)
  fileName := textOr (get "SQLITE_FILENAME") ":memory:"

/-- The configuration of an empty environment. -/
def standard : Config := ofEnvironment fun _ => none

end Config

end PolyQuery
