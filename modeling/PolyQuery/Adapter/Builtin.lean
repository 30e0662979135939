import PolyQuery.Adapter
import PolyQuery.Calendar.Reading
import PolyQuery.Json
import PolyQuery.Text.Base64
import PolyQuery.Text.Letters
import PolyQuery.Text.Uuid

/-! The adapters that every registry starts with: booleans, dates, JSON documents, UUIDs, integers
of any size, and bytes. Each reads back what it writes, and more. -/
namespace PolyQuery.Adapter

/-- Texts that mean true. -/
def trueTexts : List String := ["true", "t", "1", "yes", "y"]

/-- Texts that mean false. -/
def falseTexts : List String := ["false", "f", "0", "no", "n"]

/-- A boolean in a column: a word or a bit. -/
def booleanToDatabase : Conversion := fun v target _ =>
  match v with
  | .bool b =>
    if target = some .text then .ok (.string (if b then "true" else "false"))
    else .ok (.number (.int (if b then 1 else 0)))
  | v => refuse "BooleanAdapter" v (targetWord target)

/-- A boolean from a column: any number but zero is true. -/
def booleanFromDatabase : Conversion := fun v target _ =>
  match v with
  | .bool b => .ok (.bool b)
  | .number n => .ok (.bool !n.isZero)
  | .bigint i => .ok (.bool (i != 0))
  | v =>
    let word := match v with
      | .string s => Text.lower (Text.trim s)
      | _ => ""
    if trueTexts.contains word then .ok (.bool true)
    else if falseTexts.contains word then .ok (.bool false)
    else refuse "BooleanAdapter" v ("boolean from " ++ targetWord target)

/-- Booleans as integers or words. -/
def boolean : Adapter where
  name := "BooleanAdapter"
  hostType := "boolean"
  representations := [.integer, .text]
  toDatabase := booleanToDatabase
  fromDatabase := booleanFromDatabase
  detects := none

/-- A date in a column: milliseconds, seconds or the ISO text. -/
def dateToDatabase : Conversion := fun v target _ =>
  match v with
  | .date (some ms) =>
    match target with
    | some .integer => .ok (.number (.int ms))
    | some .real => .ok (.number ((Number.int ms).divNat 1000))
    | _ => .ok (.string (Calendar.isoText ms))
  | v => refuse "DateTimeAdapter" v (targetWord target)

/-- The instant that a number of milliseconds names; its fraction is cut. -/
def instantOfNumber (n : Number) : Option Int := n.truncate?.bind Calendar.clip

/-- A date from a column: a text, or milliseconds, or seconds that are rounded to milliseconds. -/
def dateFromDatabase : Conversion := fun v target _ =>
  let finish (ms : Option Int) : Except Error Value :=
    match ms with
    | some ms => .ok (.date (some ms))
    | none => refuse "DateTimeAdapter" v ("date from " ++ targetWord target)
  let scaled (n : Number) : Number :=
    if target = some .real then (n.mul (.int 1000)).roundHalfUp else n
  match v with
  | .date ms => .ok (.date ms)
  | .string s => finish (Calendar.read? s)
  | .number n => finish (instantOfNumber (scaled n))
  | .bigint i => finish (instantOfNumber (scaled (Number.ofInt i)))
  | _ => finish none

/-- Dates as ISO text, milliseconds or seconds. -/
def dateTime : Adapter where
  name := "DateTimeAdapter"
  hostType := "date"
  representations := [.text, .integer, .real]
  toDatabase := dateToDatabase
  fromDatabase := dateFromDatabase
  detects := none

/-- A document in a column; what has no JSON text is stored as nothing. -/
def jsonToDatabase : Conversion := fun v _ _ =>
  match Json.text? v with
  | .ok (some s) => .ok (.string s)
  | .ok none => .ok .undefined
  | .error _ => .error .noJsonText

/-- A document from a column; a driver may have parsed it already. -/
def jsonFromDatabase : Conversion := fun v target _ =>
  match v with
  | .string s =>
    match Json.parse? s with
    | some v => .ok v
    | none => .error (.malformedJson "JsonAdapter" (targetWord target))
  | v => .ok v

/-- Documents as JSON text. -/
def json : Adapter where
  name := "JsonAdapter"
  hostType := "json"
  representations := [.text]
  toDatabase := jsonToDatabase
  fromDatabase := jsonFromDatabase
  detects := none

/-- A UUID in a column: sixteen bytes or the text in lower case. -/
def uuidToDatabase : Conversion := fun v target _ =>
  match v with
  | .string s =>
    if Text.Uuid.isValid s.toList then
      if target = some .blob then .ok (.bytes .buffer (Text.Uuid.bytes s.toList))
      else .ok (.string (Text.lower s))
    else refuse "UuidAdapter" v (targetWord target)
  | v => refuse "UuidAdapter" v (targetWord target)

/-- A UUID from a column: any text in lower case, or sixteen bytes that make a UUID. -/
def uuidFromDatabase : Conversion := fun v target _ =>
  match v with
  | .string s => .ok (.string (Text.lower s))
  | .bytes _ data =>
    if data.length = 16 then
      let text := Text.Uuid.grouped (Value.hexChars data)
      if Text.Uuid.isValid text then .ok (.string (String.ofList text)) else .error .malformedUuid
    else refuse "UuidAdapter" v ("uuid from " ++ targetWord target)
  | v => refuse "UuidAdapter" v ("uuid from " ++ targetWord target)

/-- UUIDs as text or bytes. -/
def uuid : Adapter where
  name := "UuidAdapter"
  hostType := "uuid"
  representations := [.text, .blob]
  toDatabase := uuidToDatabase
  fromDatabase := uuidFromDatabase
  detects := none

/-- An integer in a column: its decimal text or itself. -/
def bigintToDatabase : Conversion := fun v target _ =>
  match v with
  | .bigint i => .ok (if target = some .text then .string (toString i) else .bigint i)
  | v => refuse "BigIntAdapter" v (targetWord target)

/-- An integer from a column: a text or a number without fraction. -/
def bigintFromDatabase : Conversion := fun v target _ =>
  match v with
  | .bigint i => .ok (.bigint i)
  | .string s =>
    match Number.integerOfText? s with
    | some i => .ok (.bigint i)
    | none => .error .malformedInteger
  | .number n =>
    match n.toInt? with
    | some i => .ok (.bigint i)
    | none => refuse "BigIntAdapter" v ("bigint from " ++ targetWord target)
  | v => refuse "BigIntAdapter" v ("bigint from " ++ targetWord target)

/-- Integers of any size as decimal text or integers. -/
def bigint : Adapter where
  name := "BigIntAdapter"
  hostType := "bigint"
  representations := [.text, .integer]
  toDatabase := bigintToDatabase
  fromDatabase := bigintFromDatabase
  detects := none

/-- Bytes in a column: base64 text or a buffer. -/
def bufferToDatabase : Conversion := fun v target _ =>
  match v with
  | .bytes _ data =>
    .ok (if target = some .text then .string (String.ofList (Text.Base64.encode data))
      else .bytes .buffer data)
  | v => refuse "BufferAdapter" v (targetWord target)

/-- Bytes from a column: bytes of either kind, or base64 text. -/
def bufferFromDatabase : Conversion := fun v target _ =>
  match v with
  | .bytes _ data => .ok (.bytes .buffer data)
  | .string s =>
    if target = some .text then .ok (.bytes .buffer (Text.Base64.decode s.toList))
    else refuse "BufferAdapter" v ("buffer from " ++ targetWord target)
  | v => refuse "BufferAdapter" v ("buffer from " ++ targetWord target)

/-- Bytes as a blob or base64 text. -/
def buffer : Adapter where
  name := "BufferAdapter"
  hostType := "buffer"
  representations := [.blob, .text]
  toDatabase := bufferToDatabase
  fromDatabase := bufferFromDatabase
  detects := none

/-- The adapters in the order in which they are registered. -/
def builtins : List Adapter := [boolean, dateTime, json, uuid, bigint, buffer]

end PolyQuery.Adapter
