import PolyQuery.Version

/-! The database servers for which statements are written. -/
namespace PolyQuery

/-- A database server. -/
inductive Backend where
  | sqlite
  | mysql
  | mariadb
  | postgres
  | oracle
  | sqlserver
  deriving DecidableEq, Repr

namespace Backend

/-- The name of a backend. -/
def name : Backend → String
  | .sqlite => "sqlite"
  | .mysql => "mysql"
  | .mariadb => "mariadb"
  | .postgres => "postgres"
  | .oracle => "oracle"
  | .sqlserver => "sqlserver"

/-- All backends. -/
def all : List Backend := [.sqlite, .mysql, .mariadb, .postgres, .oracle, .sqlserver]

/-- The backend of a name. -/
def ofName? (name : String) : Option Backend := all.find? (·.name == name)

/-- The version that is assumed when none is given. -/
def defaultVersion : Backend → Version
  | .sqlite => .of 3 35 0
  | .mysql => .of 8 0 35
  | .mariadb => .of 10 11 0
  | .postgres => .of 16 0 0
  | .oracle => .of 19 0 0
  | .sqlserver => .of 16 0 0

end Backend

end PolyQuery
