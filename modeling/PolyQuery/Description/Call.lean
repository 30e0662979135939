import PolyQuery.Adapter.Decode
import PolyQuery.Description.Query
import PolyQuery.Dialect.Reflect

/-! Calls of the small functions of the library by their words, with arguments of any kind. An
argument is read as the number or the text that it stands for, and one that cannot be read is an
error. Main definition: `Description.callFunction?`. -/
namespace PolyQuery

/-- Whether two values are the same without any conversion. Objects made apart never are. -/
def Value.same : Value → Value → Bool
  | .null, .null => true
  | .undefined, .undefined => true
  | .bool a, .bool b => a == b
  | .number m, .number n => m.eq n
  | .bigint i, .bigint j => i == j
  | .string s, .string t => s == t
  | _, _ => false

/-- The difference of two values as numbers; a big integer can only be subtracted from another. -/
def Value.minus (a b : Value) : Except Error Value :=
  match a, b with
  | .bigint i, .bigint j => .ok (.bigint (i - j))
  | .bigint _, _ => .error .inapplicable
  | _, .bigint _ => .error .inapplicable
  | a, b => do
    let m ← readable a.toNumber?
    let n ← readable b.toNumber?
    return .number (m.sub n)

/-- Whether a number is zero or more. -/
def Value.isNonnegative : Value → Bool
  | .number n => (Number.int 0).le n
  | .bigint i => 0 ≤ i
  | _ => false

/-- The values of a list with a text between two of them, where a missing one is empty. -/
def Value.joined (separator : String) : Value → Except Error String
  | .array vs => do
    let texts ← readable (Value.itemTexts? vs)
    return separator.intercalate texts
  | .bytes _ data => .ok (separator.intercalate (data.map fun b => toString b.toNat))
  | _ => .error .inapplicable

namespace Description

/-- A field of what is described; nothing has no fields at all. -/
def property (d : Description) (key : String) : Except Error Description :=
  match d.present? with
  | some d => .ok (d.get key)
  | none => .error .inapplicable

/-- The fields of a record that is to be written. -/
def recordFields (d : Description) : Except Error (List (String × Operand)) :=
  match d.present? with
  | some d => .ok d.toOperand.entries
  | none => .error .inapplicable

/-- The fields of each record in a list. -/
def recordsFields (d : Description) : Except Error (List (List (String × Operand))) :=
  match d.toOperand.items? with
  | some _ => d.list.mapM recordFields
  | none => .error .inapplicable

/-- What stands at a place of a list, a text or bytes, or under that number in an object. -/
def partAt (d : Description) (place : Nat) : Except Error Value :=
  match d.present? with
  | none => .error .inapplicable
  | some d =>
    .ok (((d.toOperand.entries.lookup (toString place)).map Operand.toValue).getD .undefined)

/-- The first two parts that differ, among the three of a version. -/
def differingParts (a b : Description) : List Nat → Except Error (Option (Value × Value))
  | [] => .ok none
  | place :: rest => do
    let x ← a.partAt place
    let y ← b.partAt place
    if x.same y then differingParts a b rest else return some (x, y)

/-- Negative, zero or positive as the first version is before, equal to or after the second. -/
def compareVersions (a b : Description) : Except Error Value := do
  match ← differingParts a b [0, 1, 2] with
  | some (x, y) => x.minus y
  | none => return .number (.int 0)

/-- Whether a version is the minimum or after it. -/
def versionAtLeast (v minimum : Description) : Except Error Bool := do
  return (← compareVersions v minimum).isNonnegative

/-- The version that a text names. -/
def parseVersion (d : Description) : Except Error Version := do
  let given ← readable d.toValue.text?
  match Version.parse? given with
  | some v => return v
  | none => .error (.unreadableVersion given)

/-- The version that a number stands for. -/
def versionOfNumber (d : Description) : Except Error Version := do
  match d.toValue with
  | .bigint _ => .error .inapplicable
  | v => return Version.ofNumber (← readable v.toNumber?)

/-- The category that a description names. -/
def category (d : Description) : Except Error Category := do
  return Category.ofName (← readable d.toValue.text?)

/-- Whether features of a category have names, or at least a place where names would be. -/
def hasFeatureNames (c : Category) : Bool :=
  Category.known.contains c || FieldMap.inherited.contains c.name ||
    ["__proto__", "__defineGetter__", "__defineSetter__", "__lookupGetter__",
      "__lookupSetter__"].contains c.name

/-- The readable name of a mask. Only a mask above zero is taken apart; a big integer cannot be, and
bits in the lowest word need a place for their names. An infinite mask has no bits there and is
exceeded by none, as the word with the highest bit alone. -/
def describeFeatures (c : Category) (flags : Value) : Except Error String := do
  let named (mask : Nat) : Except Error String :=
    if mask % powerOfTwo 32 = 0 || hasFeatureNames c then readable (Capability.describe? c mask)
    else .error .inapplicable
  match flags with
  | .bigint i => if 0 < i then .error .inapplicable else named 0
  | v =>
    match ← readable v.toNumber? with
    | .infinite false => named (powerOfTwo 32)
    | n => named ((n.floor.toInt?.getD 0).toNat)

/-- The name by which a query refers to a source. -/
def nameOfSource (d : Description) : Except Error Value := do
  let kind ← d.property "kind"
  let shown := (d.get "alias").toValue
  return if kind.text? = some "table" && shown.isMissing then (d.get "name").toValue else shown

/-- A text argument. -/
def requiredText (d : Description) : Except Error String := readable d.text?

/-- The function that a word stands for, applied to a list of arguments. -/
def callFunction? (word : String) (arguments : Description) : Option (Except Error Value) :=
  let d (place : Nat) : Description := arguments.item place
  match word with
  | "camelToSnake" =>
    some ((d 0).requiredText.map fun s => .string (Naming.camelToSnake s))
  | "snakeToCamel" =>
    some ((d 0).requiredText.map fun s => .string (Naming.snakeToCamel s))
  | "transformRow" =>
    some ((d 0).recordFields.map fun row =>
      .object (renameRow (row.map fun (k, x) => (k, x.toValue))))
  | "parseServerVersion" => some ((d 0).parseVersion.map Version.reflect)
  | "compareVersions" => some (compareVersions (d 0) (d 1))
  | "versionAtLeast" => some ((versionAtLeast (d 0) (d 1)).map .bool)
  | "formatVersion" => some (((d 0).toValue.joined ".").map .string)
  | "describeCapability" =>
    some (do
      let c ← (d 0).category
      return .string (← describeFeatures c (d 1).toValue))
  | "inferHostType" => some (.ok (.string (d 0).toValue.hostType))
  | "parsePgVersionNum" => some ((d 0).versionOfNumber.map Version.reflect)
  | "sourceName" => some (d 0).nameOfSource
  | "isExpression" =>
    some (.ok (.bool (match d 0 with
      | .expr _ => true
      | _ => false)))
  | "tableSource" =>
    some (.ok (.object [("kind", .string "table"), ("name", (d 0).toValue),
      ("alias", (d 1).toValue)]))
  | _ => none

end Description

end PolyQuery
