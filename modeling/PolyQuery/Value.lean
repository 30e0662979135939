import PolyQuery.Number.Text
import PolyQuery.Calendar
import PolyQuery.Number.Literal
import PolyQuery.Text.Utf8

/-! The values that go into statements and come back in rows. A value keeps the kind in which the
host program or a driver delivered it, since the kind decides how it is stored, matched and
written. -/
namespace PolyQuery

/-- Bytes come as a driver's buffer or as a plain byte array. -/
inductive ByteKind where
  | buffer
  | plain
  deriving DecidableEq, Repr

/-- A value. `date none` is the invalid date. `node` is the plain object that an expression is when
it is used as a value. `foreign` is an object of some other class, of which only the class is known,
`callable` a function, and `record` an object of the record store. -/
inductive Value where
  | null
  | undefined
  | bool (b : Bool)
  | number (n : Number)
  | bigint (i : Int)
  | string (s : String)
  | date (ms : Option Int)
  | bytes (kind : ByteKind) (data : List UInt8)
  | array (items : List Value)
  | object (fields : List (String × Value))
  | node (fields : List (String × Value))
  | foreign (className : String)
  | callable
  | record (id : Nat)
  deriving Inhabited, Repr

/-- A row as a driver delivers it: columns with their values, in order. -/
abbrev Row := List (String × Value)

namespace Fields

/-- The number that a key in the form of a list position stands for: no leading zeros, below the
greatest position. -/
def position? (key : String) : Option Nat :=
  let cs := key.toList
  if cs.isEmpty || !cs.all Number.isDigit || (cs.length > 1 && cs.head? == some '0') then none
  else
    let n := Number.decimalValue cs
    if n < 4294967295 then some n else none

/-- Sets a key: a key that is there keeps its place. -/
def put {α : Type} (fields : List (String × α)) (key : String) (value : α) : List (String × α) :=
  match fields with
  | [] => [(key, value)]
  | (k, v) :: rest => if k = key then (k, value) :: rest else (k, v) :: put rest key value

/-- Inserts before the first greater position. -/
def insertByPosition {α : Type} (n : Nat) (field : String × α) :
    List (String × α) → List (String × α)
  | [] => [field]
  | f :: rest =>
    match position? f.1 with
    | some m => if n < m then field :: f :: rest else f :: insertByPosition n field rest
    | none => field :: f :: rest

/-- The order in which an object lists its fields: positions first, ascending, then the other keys
in order of entry. -/
def arrange {α : Type} (fields : List (String × α)) : List (String × α) :=
  let positions := fields.filter fun f => (position? f.1).isSome
  let others := fields.filter fun f => (position? f.1).isNone
  positions.foldl (fun acc f => insertByPosition ((position? f.1).getD 0) f acc) [] ++ others

/-- Fields entered one after another, as an object lists them. -/
def ofList {α : Type} (entries : List (String × α)) : List (String × α) :=
  arrange (entries.foldl (fun acc (k, v) => put acc k v) [])

end Fields

namespace Value

/-- Neither a value nor an absence of one. -/
def isMissing : Value → Bool
  | .null => true
  | .undefined => true
  | _ => false

/-- The word for a value's kind in error messages. -/
def kindWord : Value → String
  | .null => "null"
  | .undefined => "undefined"
  | .bool _ => "boolean"
  | .number _ => "number"
  | .bigint _ => "bigint"
  | .string _ => "string"
  | .callable => "function"
  | _ => "object"

/-- The type under which a value is stored when nothing else is said. -/
def hostType : Value → String
  | .null => "null"
  | .undefined => "null"
  | .bool _ => "boolean"
  | .number _ => "number"
  | .bigint _ => "bigint"
  | .string _ => "string"
  | .date _ => "date"
  | .bytes _ _ => "buffer"
  | .array _ => "json"
  | .object _ => "json"
  | .node _ => "json"
  | .record _ => "json"
  | .foreign _ => "unknown"
  | .callable => "unknown"

/-- One of two hexadecimal digits. -/
def hexDigit (n : Nat) : Char :=
  if n < 10 then Char.ofNat (48 + n) else Char.ofNat (87 + n)

/-- Bytes in lower-case hexadecimal. -/
def hexChars (data : List UInt8) : List Char :=
  data.flatMap fun b => [hexDigit (b.toNat / 16), hexDigit (b.toNat % 16)]

/-- The text of an object. The fields `toString` and `valueOf` take the place of its own ways to be
read: a function there gives nothing, and any other value leaves the object without a text. -/
def objectText? (fields : List (String × Value)) : Option String :=
  match fields.lookup "toString", fields.lookup "valueOf" with
  | none, _ => some "[object Object]"
  | some .callable, _ => some "undefined"
  | some _, some .callable => some "undefined"
  | some _, _ => none

/-- The number of an object, which is none at all unless its fields leave it unreadable. -/
def objectNumber? (fields : List (String × Value)) : Option Number :=
  match fields.lookup "valueOf" with
  | some .callable => some .nan
  | _ => (objectText? fields).map fun _ => .nan

mutual

/-- The text of a value inside a message or a name, if it has one. -/
def text? : Value → Option String
  | .null => some "null"
  | .undefined => some "undefined"
  | .bool b => some (if b then "true" else "false")
  | .number n => some n.text
  | .bigint i => some (toString i)
  | .string s => some s
  | .date (some ms) => some (Calendar.longText ms)
  | .date none => some "Invalid Date"
  | .bytes .buffer data => some (String.ofList (Text.Utf8.decode data))
  | .bytes .plain data => some (",".intercalate (data.map fun b => toString b.toNat))
  | .array items => (itemTexts? items).map (",".intercalate ·)
  | .object fields => objectText? fields
  | .node _ => some "[object Object]"
  | .record _ => some "[object Object]"
  | .foreign className => some ("[object " ++ className ++ "]")
  | .callable => some "function"

/-- The texts of the items of an array, where a missing one is empty. -/
def itemTexts? : List Value → Option (List String)
  | [] => some []
  | v :: vs =>
    match if v.isMissing then some "" else v.text?, itemTexts? vs with
    | some s, some ss => some (s :: ss)
    | _, _ => none

end

/-- The text of a value, empty where it has none. -/
def text (v : Value) : String := v.text?.getD ""

/-- The number that a value stands for, if it can be read as one. -/
def toNumber? : Value → Option Number
  | .null => some (.int 0)
  | .undefined => some .nan
  | .bool b => some (.int (if b then 1 else 0))
  | .number n => some n
  | .bigint i => some (Number.ofInt i)
  | .string s => some (Number.ofText s)
  | .date (some ms) => some (.int ms)
  | .date none => some .nan
  | .callable => some .nan
  | .object fields => objectNumber? fields
  | .node _ => some .nan
  | .record _ => some .nan
  | .foreign _ => some .nan
  | v => v.text?.map Number.ofText

/-- The number that a value stands for. -/
def toNumber (v : Value) : Number := v.toNumber?.getD .nan

/-- Whether a value counts as true: all but nothing, false, zeros, no number and the empty text. -/
def isTruthy : Value → Bool
  | .null => false
  | .undefined => false
  | .bool b => b
  | .number n => !n.isZero && n != .nan
  | .bigint i => i != 0
  | .string s => s != ""
  | _ => true

end Value

end PolyQuery
