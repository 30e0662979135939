import PolyQuery.Dialect.Backend

/-! The words that a name must not be without quotes, in upper case. -/
namespace PolyQuery.Backend

/-- Reserved on every backend. -/
def commonWords : List String :=
  ["ADD", "ALL", "ALTER", "AND", "ANY", "AS", "ASC", "BETWEEN", "BY", "CASE", "CHECK", "COLUMN",
   "CONSTRAINT", "CREATE", "CROSS", "CURRENT", "CURRENT_DATE", "CURRENT_TIME", "CURRENT_TIMESTAMP",
   "DEFAULT", "DELETE", "DESC", "DISTINCT", "DROP", "ELSE", "END", "EXCEPT", "EXISTS", "FALSE",
   "FETCH", "FOR", "FOREIGN", "FROM", "FULL", "GRANT", "GROUP", "HAVING", "IN", "INDEX", "INNER",
   "INSERT", "INTERSECT", "INTO", "IS", "JOIN", "KEY", "LEFT", "LIKE", "LIMIT", "NOT", "NULL",
   "OFFSET", "ON", "OR", "ORDER", "OUTER", "PRIMARY", "REFERENCES", "RIGHT", "ROW", "ROWS",
   "SELECT", "SET", "TABLE", "THEN", "TO", "TRUE", "UNION", "UNIQUE", "UPDATE", "USER", "USING",
   "VALUES", "WHEN", "WHERE", "WINDOW", "WITH"]

/-- Reserved on SQLite beside the common words. -/
def sqliteWords : List String :=
  ["ABORT", "ACTION", "AFTER", "ANALYZE", "ATTACH", "AUTOINCREMENT", "BEFORE", "BEGIN", "CASCADE",
   "COLLATE", "COMMIT", "CONFLICT", "DATABASE", "DEFERRABLE", "DEFERRED", "DETACH", "EACH",
   "ESCAPE", "EXCLUSIVE", "EXPLAIN", "FAIL", "GLOB", "IF", "IGNORE", "IMMEDIATE", "INDEXED",
   "INITIALLY", "INSTEAD", "ISNULL", "MATCH", "NATURAL", "NO", "NOTNULL", "OF", "PLAN", "PRAGMA",
   "QUERY", "RAISE", "RECURSIVE", "REGEXP", "REINDEX", "RELEASE", "RENAME", "REPLACE", "RESTRICT",
   "ROLLBACK", "SAVEPOINT", "TEMP", "TEMPORARY", "TRANSACTION", "TRIGGER", "VACUUM", "VIEW",
   "VIRTUAL"]

/-- Reserved on MySQL and MariaDB beside the common words. -/
def mysqlWords : List String :=
  ["ACCESSIBLE", "ANALYZE", "BEFORE", "BIGINT", "BINARY", "BLOB", "BOTH", "CALL", "CASCADE",
   "CHANGE", "CHAR", "CHARACTER", "COLLATE", "CONDITION", "CONTINUE", "CONVERT", "CURSOR",
   "DATABASE", "DATABASES", "DAY_HOUR", "DECIMAL", "DECLARE", "DELAYED", "DESCRIBE", "DIV",
   "DOUBLE", "DUAL", "EACH", "ELSEIF", "ENCLOSED", "ESCAPED", "EXIT", "EXPLAIN", "FLOAT", "FORCE",
   "FULLTEXT", "GROUPS", "IF", "IGNORE", "INFILE", "INT", "INTEGER", "INTERVAL", "ITERATE", "KEYS",
   "KILL", "LEADING", "LEAVE", "LINES", "LOAD", "LOCK", "LONG", "LOOP", "MATCH", "MOD", "NATURAL",
   "NUMERIC", "OPTIMIZE", "OPTION", "OUT", "OUTFILE", "OVER", "PARTITION", "PRECISION",
   "PROCEDURE", "PURGE", "RANGE", "RANK", "READ", "REAL", "RECURSIVE", "REGEXP", "RELEASE",
   "RENAME", "REPEAT", "REPLACE", "REQUIRE", "RESTRICT", "RETURN", "REVOKE", "RLIKE", "ROW_NUMBER",
   "SCHEMA", "SEPARATOR", "SHOW", "SIGNAL", "SMALLINT", "SPATIAL", "SQL", "STARTING",
   "STRAIGHT_JOIN", "SYSTEM", "TERMINATED", "TRAILING", "TRIGGER", "UNDO", "UNLOCK", "UNSIGNED",
   "USAGE", "USE", "VARCHAR", "WHILE", "WRITE", "XOR", "ZEROFILL"]

/-- Reserved on PostgreSQL beside the common words. -/
def postgresWords : List String :=
  ["ANALYSE", "ANALYZE", "ARRAY", "ASYMMETRIC", "AUTHORIZATION", "BINARY", "BOTH", "CAST",
   "COLLATE", "COLLATION", "CONCURRENTLY", "CURRENT_CATALOG", "CURRENT_ROLE", "CURRENT_SCHEMA",
   "CURRENT_USER", "DEFERRABLE", "DO", "FREEZE", "ILIKE", "INITIALLY", "ISNULL", "LATERAL",
   "LEADING", "LOCALTIME", "LOCALTIMESTAMP", "NATURAL", "NOTNULL", "ONLY", "OVERLAPS", "PLACING",
   "RETURNING", "SESSION_USER", "SIMILAR", "SOME", "SYMMETRIC", "TABLESAMPLE", "TRAILING",
   "VARIADIC", "VERBOSE"]

/-- Reserved on Oracle beside the common words. -/
def oracleWords : List String :=
  ["ACCESS", "AUDIT", "CHAR", "CLUSTER", "COMMENT", "COMPRESS", "CONNECT", "DATE", "DECIMAL",
   "EXCLUSIVE", "FILE", "FLOAT", "IDENTIFIED", "IMMEDIATE", "INCREMENT", "INITIAL", "INTEGER",
   "LEVEL", "LOCK", "LONG", "MAXEXTENTS", "MINUS", "MODE", "MODIFY", "NOAUDIT", "NOCOMPRESS",
   "NOWAIT", "NUMBER", "OF", "OFFLINE", "ONLINE", "OPTION", "PCTFREE", "PRIOR", "PUBLIC", "RAW",
   "RENAME", "RESOURCE", "ROWID", "ROWNUM", "SESSION", "SHARE", "SIZE", "SMALLINT", "START",
   "SUCCESSFUL", "SYNONYM", "SYSDATE", "TRIGGER", "UID", "VALIDATE", "VARCHAR", "VARCHAR2", "VIEW",
   "WHENEVER"]

/-- Reserved on SQL Server beside the common words. -/
def sqlserverWords : List String :=
  ["BACKUP", "BEGIN", "BREAK", "BROWSE", "BULK", "CASCADE", "CHECKPOINT", "CLOSE", "CLUSTERED",
   "COALESCE", "COMMIT", "COMPUTE", "CONTAINS", "CONTAINSTABLE", "CONTINUE", "CONVERT", "CURSOR",
   "DATABASE", "DBCC", "DEALLOCATE", "DECLARE", "DENY", "DISK", "DISTRIBUTED", "DOUBLE", "DUMP",
   "ERRLVL", "ESCAPE", "EXEC", "EXECUTE", "EXIT", "FILE", "FILLFACTOR", "FREETEXT", "FUNCTION",
   "GOTO", "HOLDLOCK", "IDENTITY", "IF", "KILL", "LINENO", "LOAD", "MERGE", "NOCHECK",
   "NONCLUSTERED", "OF", "OFF", "OPEN", "OPTION", "OVER", "PERCENT", "PIVOT", "PLAN", "PRINT",
   "PROC", "PROCEDURE", "PUBLIC", "RAISERROR", "READ", "RECONFIGURE", "REPLICATION", "RESTORE",
   "RESTRICT", "RETURN", "REVERT", "REVOKE", "ROWCOUNT", "RULE", "SAVE", "SCHEMA", "SHUTDOWN",
   "STATISTICS", "TEXTSIZE", "TOP", "TRAN", "TRANSACTION", "TRIGGER", "TRUNCATE", "TSEQUAL",
   "UNPIVOT", "USE", "VIEW", "WAITFOR", "WHILE", "WRITETEXT"]

/-- The reserved words of a backend. -/
def reservedWords : Backend → List String
  | .sqlite => commonWords ++ sqliteWords
  | .mysql => commonWords ++ mysqlWords
  | .mariadb => commonWords ++ mysqlWords
  | .postgres => commonWords ++ postgresWords
  | .oracle => commonWords ++ oracleWords
  | .sqlserver => commonWords ++ sqlserverWords

end PolyQuery.Backend
