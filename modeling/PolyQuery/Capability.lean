import PolyQuery.Version

/-! What a backend can do: for each category of features a mask, one bit a feature. Masks only grow
while a set of capabilities is put together, some of them from a server version on. -/
namespace PolyQuery

/-- Features of one category, one bit each. As a number a mask is a signed word. -/
abbrev Mask := BitVec 32

/-- The lowest bits of a number without its fraction. -/
def Mask.ofNumber (n : Number) : Mask := BitVec.ofInt 32 (n.truncate?.getD 0)

/-- The mask that a number is, none for fractions and for numbers beyond a word. -/
def Mask.ofNumber? (n : Number) : Option Mask :=
  n.toInt?.bind fun i =>
    let m := BitVec.ofInt 32 i
    if m.toInt = i then some m else none

/-- A category of features. `other` is a category in which no feature is known. -/
inductive Category where
  | setOperations
  | windowFunctions
  | advancedGrouping
  | cte
  | jsonOperations
  | returningClause
  | transactionFeatures
  | bulkOperations
  | joinOperations
  | other (name : String)
  deriving DecidableEq, Repr

namespace Category

/-- The name of a category. -/
def name : Category → String
  | .setOperations => "SET_OPERATIONS"
  | .windowFunctions => "WINDOW_FUNCTIONS"
  | .advancedGrouping => "ADVANCED_GROUPING"
  | .cte => "CTE"
  | .jsonOperations => "JSON_OPERATIONS"
  | .returningClause => "RETURNING_CLAUSE"
  | .transactionFeatures => "TRANSACTION_FEATURES"
  | .bulkOperations => "BULK_OPERATIONS"
  | .joinOperations => "JOIN_OPERATIONS"
  | .other name => name

/-- The categories with known features. -/
def known : List Category :=
  [.setOperations, .windowFunctions, .advancedGrouping, .cte, .jsonOperations, .returningClause,
    .transactionFeatures, .bulkOperations, .joinOperations]

/-- The category of a name. -/
def ofName (name : String) : Category :=
  (known.find? (·.name == name)).getD (.other name)

/-- The names of the features of a category, from the lowest bit up. -/
def featureNames : Category → List String
  | .setOperations => ["Union", "UnionAll", "Intersect", "IntersectAll", "Except", "ExceptAll"]
  | .windowFunctions =>
    ["RowNumber", "Rank", "DenseRank", "Lag", "Lead", "FirstValue", "LastValue", "NthValue",
      "CumeDist", "PercentRank", "Ntile"]
  | .advancedGrouping => ["Cube", "Rollup", "GroupingSets"]
  | .cte => ["Basic", "Recursive", "CompoundRecursive", "InDml", "Materialized"]
  | .jsonOperations =>
    ["Extract", "Contains", "Exists", "Set", "Insert", "Replace", "Remove", "Keys", "Array",
      "Object"]
  | .returningClause => ["Basic", "Expressions", "Aliases"]
  | .transactionFeatures => ["Savepoint", "IsolationLevels", "ReadOnly"]
  | .bulkOperations => ["MultiRowInsert", "BatchOperations"]
  | .joinOperations => ["Inner", "Left", "Right", "Full", "Cross"]
  | .other _ => []

/-- The mask of a feature, by its place among the features of a category. -/
def bit (place : Nat) : Mask := BitVec.twoPow 32 place

/-- The mask of all features of a category. -/
def all (c : Category) : Mask := BitVec.ofNat 32 (powerOfTwo c.featureNames.length - 1)

end Category

namespace Capability

/-- A signed word of 32 bits doubled. -/
def doubled (bit : Int) : Int := Int.bmod (2 * bit) (powerOfTwo 32)

/-- The name of a single bit: its feature, or the bit in hexadecimal. -/
def bitName (c : Category) (bit : Int) : String :=
  let place := Nat.log2 bit.toNat
  match c.featureNames[place]? with
  | some name => name
  | none => "0x" ++ String.ofList (Nat.toDigits 16 bit.toNat)

/-- Names the bits of a mask from `bit` on, behind those that are named already. The bit is doubled
until it exceeds the mask, and nothing else ends the walk. -/
def bitNames (c : Category) (mask : Nat) (bit : Int) (named : List String) :
    Option (List String) :=
  if bit ≤ mask then
    -- by `apply`, since a call that is a term leaves its place in the file in the definition
    (by apply bitNames : Category → Nat → Int → List String → Option (List String)) c mask
      (doubled bit) (if mask &&& bit.toNat ≠ 0 then named ++ [bitName c bit] else named)
  else some named
partial_fixpoint

/-- The readable name of a mask, such as `CTE.Recursive`, none when the walk over its bits never
ends. -/
def describe? (c : Category) (mask : Nat) : Option String :=
  (bitNames c mask 1 []).map fun names => c.name ++ "." ++ "|".intercalate names

end Capability

/-- The masks of the categories, in the order in which categories were first named. -/
structure Capabilities where
  masks : List (Category × Mask)
  deriving DecidableEq, Repr

namespace Capabilities

/-- No category named. -/
def empty : Capabilities := ⟨[]⟩

/-- The mask of a category, zero when it was never named. -/
def mask (c : Capabilities) (category : Category) : Mask :=
  (c.masks.lookup category).getD 0

/-- Sets the mask of a category, which keeps its place. -/
def putMask (category : Category) (mask : Mask) : List (Category × Mask) → List (Category × Mask)
  | [] => [(category, mask)]
  | (k, m) :: rest =>
    if k = category then (k, mask) :: rest else (k, m) :: putMask category mask rest

/-- Adds features to a category. -/
def add (c : Capabilities) (category : Category) (flags : List Mask) : Capabilities :=
  ⟨putMask category (flags.foldl (· ||| ·) (c.mask category)) c.masks⟩

theorem lookup_putMask (category k : Category) (m : Mask) (masks : List (Category × Mask)) :
    (putMask category m masks).lookup k = if k = category then some m else masks.lookup k := by
  have hbeq (j : Category) : (k == j) = decide (k = j) := rfl
  induction masks with
  | nil => by_cases hk : k = category <;> simp [putMask, List.lookup_cons, hbeq, hk]
  | cons entry masks ih =>
    obtain ⟨j, n⟩ := entry
    by_cases hj : j = category
    · subst hj
      by_cases hk : k = j <;> simp [putMask, List.lookup_cons, hbeq, hk]
    · by_cases hk : k = j
      · subst hk
        simp [putMask, hj]
      · simp [putMask, hj, List.lookup_cons, hbeq, hk, ih]

theorem mask_add (c : Capabilities) (category k : Category) (flags : List Mask) : (c.add category flags).mask k =
    if k = category then flags.foldl (· ||| ·) (c.mask category) else c.mask k := by
  rw [mask, add, lookup_putMask]
  split
  · rfl
  · rfl

/-- Adds features that servers have from a version on. -/
def addSince (c : Capabilities) (version minimum : Version) (category : Category)
    (flags : List Mask) : Capabilities :=
  if version.atLeast minimum then c.add category flags else c

/-- Whether the category has any feature. -/
def supportsCategory (c : Capabilities) (category : Category) : Bool := c.mask category != 0

/-- Whether all features of a mask are there; a mask may name none. -/
def includes (c : Capabilities) (category : Category) (flags : Mask) : Bool :=
  c.mask category &&& flags == flags

/-- Whether all features of a mask that names at least one are there. -/
def supports (c : Capabilities) (category : Category) (flags : Mask) : Bool :=
  flags != 0 && c.includes category flags

/-- The categories with a feature, in order of first naming. -/
def categories (c : Capabilities) : List Category :=
  (c.masks.filter fun (_, m) => m != 0).map (·.1)

end Capabilities

end PolyQuery
