import PolyQuery.Dialect.Backend
import PolyQuery.Capability

/-! The features of each backend, from the server version on that brought them. Feature masks carry
names of their own, so that each line below reads as the release notes do. -/
namespace PolyQuery

namespace SetFeature

def union : Mask := Category.bit 0
def unionAll : Mask := Category.bit 1
def intersect : Mask := Category.bit 2
def intersectAll : Mask := Category.bit 3
def except : Mask := Category.bit 4
def exceptAll : Mask := Category.bit 5

end SetFeature

namespace WindowFeature

def rowNumber : Mask := Category.bit 0
def rank : Mask := Category.bit 1
def denseRank : Mask := Category.bit 2
def lag : Mask := Category.bit 3
def lead : Mask := Category.bit 4
def firstValue : Mask := Category.bit 5
def lastValue : Mask := Category.bit 6
def nthValue : Mask := Category.bit 7
def cumeDist : Mask := Category.bit 8
def percentRank : Mask := Category.bit 9
def ntile : Mask := Category.bit 10

end WindowFeature

namespace GroupingFeature

def rollup : Mask := Category.bit 1

end GroupingFeature

namespace CteFeature

def basic : Mask := Category.bit 0
def recursive : Mask := Category.bit 1
def compoundRecursive : Mask := Category.bit 2
def inDml : Mask := Category.bit 3
def materialized : Mask := Category.bit 4

end CteFeature

namespace JsonFeature

def extract : Mask := Category.bit 0
def contains : Mask := Category.bit 1
def exists_ : Mask := Category.bit 2
def set : Mask := Category.bit 3
def insert : Mask := Category.bit 4
def replace : Mask := Category.bit 5
def remove : Mask := Category.bit 6
def keys : Mask := Category.bit 7
def array : Mask := Category.bit 8
def object : Mask := Category.bit 9

end JsonFeature

namespace ReturningFeature

def basic : Mask := Category.bit 0
def expressions : Mask := Category.bit 1
def aliases : Mask := Category.bit 2

end ReturningFeature

namespace TransactionFeature

def savepoint : Mask := Category.bit 0
def isolationLevels : Mask := Category.bit 1
def readOnly : Mask := Category.bit 2

end TransactionFeature

namespace BulkFeature

def multiRowInsert : Mask := Category.bit 0
def batchOperations : Mask := Category.bit 1

end BulkFeature

namespace JoinFeature

def inner : Mask := Category.bit 0
def left : Mask := Category.bit 1
def right : Mask := Category.bit 2
def full : Mask := Category.bit 3
def cross : Mask := Category.bit 4

end JoinFeature

/-- A line of a feature table: the version that brought features, none for those that every version
has, then their category and masks. -/
structure FeatureLine where
  since : Option Version
  category : Category
  flags : List Mask

/-- Adds a line to the capabilities of a server. -/
def FeatureLine.apply (version : Version) (c : Capabilities) (line : FeatureLine) : Capabilities :=
  match line.since with
  | none => c.add line.category line.flags
  | some minimum => c.addSince version minimum line.category line.flags

namespace Backend

def postgresFeatures : List FeatureLine :=
  [⟨none, .setOperations, [Category.setOperations.all]⟩,
    ⟨none, .joinOperations, [Category.joinOperations.all]⟩,
    ⟨none, .transactionFeatures,
      [TransactionFeature.savepoint, TransactionFeature.isolationLevels,
        TransactionFeature.readOnly]⟩,
    ⟨none, .bulkOperations, [BulkFeature.multiRowInsert, BulkFeature.batchOperations]⟩,
    ⟨none, .returningClause, [Category.returningClause.all]⟩,
    ⟨some (.of 8 4 0), .cte,
      [CteFeature.basic, CteFeature.recursive, CteFeature.compoundRecursive]⟩,
    ⟨some (.of 8 4 0), .windowFunctions, [Category.windowFunctions.all]⟩,
    ⟨some (.of 9 1 0), .cte, [CteFeature.inDml]⟩,
    ⟨some (.of 9 2 0), .jsonOperations,
      [JsonFeature.extract, JsonFeature.array, JsonFeature.object]⟩,
    ⟨some (.of 9 4 0), .jsonOperations,
      [JsonFeature.contains, JsonFeature.exists_, JsonFeature.keys]⟩,
    ⟨some (.of 9 5 0), .advancedGrouping, [Category.advancedGrouping.all]⟩,
    ⟨some (.of 9 5 0), .jsonOperations, [JsonFeature.set, JsonFeature.remove]⟩,
    ⟨some (.of 9 6 0), .jsonOperations, [JsonFeature.insert, JsonFeature.replace]⟩,
    ⟨some (.of 12 0 0), .cte, [CteFeature.materialized]⟩]

def mysqlFeatures : List FeatureLine :=
  [⟨none, .setOperations, [SetFeature.union, SetFeature.unionAll]⟩,
    ⟨none, .joinOperations,
      [JoinFeature.inner, JoinFeature.left, JoinFeature.right, JoinFeature.cross]⟩,
    ⟨none, .transactionFeatures,
      [TransactionFeature.savepoint, TransactionFeature.isolationLevels]⟩,
    ⟨none, .bulkOperations, [BulkFeature.multiRowInsert, BulkFeature.batchOperations]⟩,
    ⟨none, .advancedGrouping, [GroupingFeature.rollup]⟩,
    ⟨some (.of 5 6 5), .transactionFeatures, [TransactionFeature.readOnly]⟩,
    ⟨some (.of 5 7 8), .jsonOperations,
      [JsonFeature.extract, JsonFeature.contains, JsonFeature.set, JsonFeature.insert,
        JsonFeature.replace, JsonFeature.remove, JsonFeature.keys, JsonFeature.array,
        JsonFeature.object]⟩,
    ⟨some (.of 8 0 0), .cte,
      [CteFeature.basic, CteFeature.recursive, CteFeature.compoundRecursive, CteFeature.inDml]⟩,
    ⟨some (.of 8 0 0), .windowFunctions, [Category.windowFunctions.all]⟩,
    ⟨some (.of 8 0 31), .setOperations,
      [SetFeature.intersect, SetFeature.intersectAll, SetFeature.except, SetFeature.exceptAll]⟩]

def mariadbFeatures : List FeatureLine :=
  [⟨none, .setOperations, [SetFeature.union, SetFeature.unionAll]⟩,
    ⟨none, .joinOperations,
      [JoinFeature.inner, JoinFeature.left, JoinFeature.right, JoinFeature.cross]⟩,
    ⟨none, .transactionFeatures,
      [TransactionFeature.savepoint, TransactionFeature.isolationLevels,
        TransactionFeature.readOnly]⟩,
    ⟨none, .bulkOperations, [BulkFeature.multiRowInsert, BulkFeature.batchOperations]⟩,
    ⟨none, .advancedGrouping, [GroupingFeature.rollup]⟩,
    ⟨some (.of 10 2 3), .jsonOperations, [Category.jsonOperations.all]⟩,
    ⟨some (.of 10 2 2), .cte,
      [CteFeature.basic, CteFeature.recursive, CteFeature.compoundRecursive]⟩,
    ⟨some (.of 10 2 0), .windowFunctions, [Category.windowFunctions.all]⟩,
    ⟨some (.of 10 3 0), .setOperations, [SetFeature.intersect, SetFeature.except]⟩,
    ⟨some (.of 10 5 0), .setOperations, [SetFeature.intersectAll, SetFeature.exceptAll]⟩,
    ⟨some (.of 10 5 0), .returningClause, [Category.returningClause.all]⟩]

def sqliteFeatures : List FeatureLine :=
  [⟨none, .setOperations,
      [SetFeature.union, SetFeature.unionAll, SetFeature.intersect, SetFeature.except]⟩,
    ⟨none, .joinOperations, [JoinFeature.inner, JoinFeature.left, JoinFeature.cross]⟩,
    ⟨none, .transactionFeatures, [TransactionFeature.savepoint]⟩,
    ⟨none, .bulkOperations, [BulkFeature.batchOperations]⟩,
    ⟨some (.of 3 7 11), .bulkOperations, [BulkFeature.multiRowInsert]⟩,
    ⟨some (.of 3 8 3), .cte, [CteFeature.basic, CteFeature.recursive]⟩,
    ⟨some (.of 3 9 0), .jsonOperations,
      [JsonFeature.extract, JsonFeature.contains, JsonFeature.exists_, JsonFeature.keys,
        JsonFeature.array, JsonFeature.object]⟩,
    ⟨some (.of 3 25 0), .windowFunctions, [Category.windowFunctions.all]⟩,
    ⟨some (.of 3 34 0), .cte, [CteFeature.compoundRecursive]⟩,
    ⟨some (.of 3 35 0), .cte, [CteFeature.materialized]⟩,
    ⟨some (.of 3 35 0), .returningClause, [Category.returningClause.all]⟩,
    ⟨some (.of 3 38 0), .jsonOperations,
      [JsonFeature.set, JsonFeature.insert, JsonFeature.replace, JsonFeature.remove]⟩,
    ⟨some (.of 3 39 0), .joinOperations, [JoinFeature.right, JoinFeature.full]⟩]

def sqlserverFeatures : List FeatureLine :=
  [⟨none, .setOperations, [SetFeature.union, SetFeature.unionAll]⟩,
    ⟨none, .joinOperations, [Category.joinOperations.all]⟩,
    ⟨none, .transactionFeatures,
      [TransactionFeature.savepoint, TransactionFeature.isolationLevels]⟩,
    ⟨none, .bulkOperations, [BulkFeature.batchOperations]⟩,
    ⟨some (.of 9 0 0), .setOperations, [SetFeature.intersect, SetFeature.except]⟩,
    ⟨some (.of 9 0 0), .cte, [CteFeature.basic, CteFeature.recursive]⟩,
    ⟨some (.of 9 0 0), .windowFunctions,
      [WindowFeature.rowNumber, WindowFeature.rank, WindowFeature.denseRank,
        WindowFeature.ntile]⟩,
    ⟨some (.of 10 0 0), .advancedGrouping, [Category.advancedGrouping.all]⟩,
    ⟨some (.of 10 0 0), .bulkOperations, [BulkFeature.multiRowInsert]⟩,
    ⟨some (.of 11 0 0), .windowFunctions,
      [WindowFeature.lag, WindowFeature.lead, WindowFeature.firstValue, WindowFeature.lastValue,
        WindowFeature.cumeDist, WindowFeature.percentRank]⟩,
    ⟨some (.of 13 0 0), .jsonOperations,
      [JsonFeature.extract, JsonFeature.set, JsonFeature.object]⟩,
    ⟨some (.of 16 0 0), .jsonOperations, [JsonFeature.array]⟩]

def oracleFeatures : List FeatureLine :=
  [⟨none, .setOperations,
      [SetFeature.union, SetFeature.unionAll, SetFeature.intersect, SetFeature.except]⟩,
    ⟨none, .joinOperations, [Category.joinOperations.all]⟩,
    ⟨none, .transactionFeatures,
      [TransactionFeature.savepoint, TransactionFeature.isolationLevels,
        TransactionFeature.readOnly]⟩,
    ⟨none, .bulkOperations, [BulkFeature.batchOperations]⟩,
    ⟨none, .windowFunctions, [Category.windowFunctions.all]⟩,
    ⟨none, .advancedGrouping, [Category.advancedGrouping.all]⟩,
    ⟨some (.of 9 2 0), .cte, [CteFeature.basic]⟩,
    ⟨some (.of 11 2 0), .cte, [CteFeature.recursive]⟩,
    ⟨some (.of 12 1 0), .jsonOperations, [JsonFeature.extract, JsonFeature.exists_]⟩,
    ⟨some (.of 12 2 0), .jsonOperations, [JsonFeature.array, JsonFeature.object]⟩,
    ⟨some (.of 21 0 0), .setOperations, [SetFeature.intersectAll, SetFeature.exceptAll]⟩]

/-- The feature table of a backend. -/
def features : Backend → List FeatureLine
  | .sqlite => sqliteFeatures
  | .mysql => mysqlFeatures
  | .mariadb => mariadbFeatures
  | .postgres => postgresFeatures
  | .oracle => oracleFeatures
  | .sqlserver => sqlserverFeatures

/-- The capabilities of a server version. -/
def capabilities (b : Backend) (version : Version) : Capabilities :=
  b.features.foldl (FeatureLine.apply version) .empty

end Backend

end PolyQuery
