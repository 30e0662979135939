import PolyQuery.Config
import PolyQuery.Dialect
import PolyQuery.Expr.Reflect

/-! Plain views of dialects and of the configuration. -/
namespace PolyQuery

/-- A version as a list of its components. -/
def Version.reflect (v : Version) : Value := .array (v.components.map Value.number)

/-- Categories with their masks, in order. -/
def Capabilities.reflect (c : Capabilities) : Value :=
  .array (c.categories.map fun k => .array [.string k.name, .number (.int (c.mask k).toInt)])

/-- A text that may be missing. -/
def Value.ofText? (s : Option String) : Value := (s.map Value.string).getD .null

/-- A dialect with all that sets it apart. -/
def Dialect.reflect (d : Dialect) : Value :=
  .node [("name", .string d.backend.name), ("version", d.version.reflect),
    ("label", .string d.label), ("paginationStyle", .string d.paginationStyle.name),
    ("tableAliasKeyword", .string d.tableAliasKeyword),
    ("falsePredicate", .string d.falsePredicate), ("truePredicate", .string d.truePredicate),
    ("parenthesizeSetOperands", .bool d.parenthesizesOperands),
    ("recursiveKeyword", .bool d.hasRecursiveKeyword),
    ("recursiveCteRequiresColumns", .bool d.recursionNeedsColumns),
    ("selectWithoutFrom", .string d.selectWithoutSource),
    ("maxInListSize", (d.maxInList.map fun n => .number (.int n)).getD .null),
    ("limitAllSentinel", .ofText? d.noLimit), ("offsetRequiresOrderBy", .bool d.offsetNeedsOrder),
    ("masks", d.capabilities.reflect)]

/-- A configuration in its two parts. -/
def Config.reflect (c : Config) : Value :=
  let p := c.pool
  .node [
    ("db", .node [("host", .string p.host), ("port", .number p.port),
      ("database", .string p.database), ("user", .string p.user),
      ("password", .string p.password), ("max", .number (.int p.maxClients)),
      ("idleTimeoutMillis", .number (.int p.idleTimeout)),
      ("connectionTimeoutMillis", .number (.int p.connectTimeout))]),
    ("orm", .node [("logLevel", .string c.logLevel),
      ("relationCacheTtlMs", (c.relationLifetime.map Value.number).getD .undefined),
      ("recursiveMaxDepth", .number c.recursionDepth),
      ("sqliteFilename", .string c.fileName)])]

end PolyQuery
