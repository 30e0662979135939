import PolyQuery.Value

/-! JSON text of values and values of JSON text. Writing leaves out what JSON has no word for:
missing values and functions vanish from objects and become `null` in arrays, and numbers that are
not finite become `null`. An integer beyond the number range has no form at all. -/
namespace PolyQuery.Json

/-- A value that has no JSON text. -/
inductive Fault where
  | bigint
  | cycle
  deriving DecidableEq, Repr

/-- The escape `\u` with four digits. -/
def unicodeEscape (n : Nat) : List Char :=
  '\\' :: 'u' :: [Value.hexDigit (n / 4096 % 16), Value.hexDigit (n / 256 % 16),
    Value.hexDigit (n / 16 % 16), Value.hexDigit (n % 16)]

/-- A character inside quotes. -/
def escape (c : Char) : List Char :=
  if c = '"' then ['\\', '"']
  else if c = '\\' then ['\\', '\\']
  else if c = '\n' then ['\\', 'n']
  else if c = '\r' then ['\\', 'r']
  else if c = '\t' then ['\\', 't']
  else if c.toNat = 8 then ['\\', 'b']
  else if c.toNat = 12 then ['\\', 'f']
  else if c.toNat < 32 then unicodeEscape c.toNat
  else [c]

/-- A text between quotes. -/
def quote (s : String) : String :=
  String.ofList ('"' :: s.toList.flatMap escape ++ ['"'])

/-- Texts between brackets, with commas. -/
def enclose (opening closing : String) (items : List String) : String :=
  opening ++ ",".intercalate items ++ closing

/-- A byte buffer is written as an object that names its type, a plain byte array as an object with
its positions as keys. -/
def bytesText (kind : ByteKind) (data : List UInt8) : String :=
  let numbers := data.map fun b => toString b.toNat
  match kind with
  | .buffer =>
    enclose "\x7b" "\x7d" [quote "type" ++ ":" ++ quote "Buffer",
      quote "data" ++ ":" ++ enclose "[" "]" numbers]
  | .plain =>
    enclose "\x7b" "\x7d" (numbers.zipIdx.map fun (n, i) => quote (toString i) ++ ":" ++ n)

mutual

/-- The text of a value, none for a value that JSON leaves out. -/
def text? : Value → Except Fault (Option String)
  | .null => .ok (some "null")
  | .undefined => .ok none
  | .callable => .ok none
  | .bool b => .ok (some (if b then "true" else "false"))
  | .number (.infinite _) => .ok (some "null")
  | .number .nan => .ok (some "null")
  | .number n => .ok (some n.text)
  | .bigint _ => .error .bigint
  | .string s => .ok (some (quote s))
  | .date (some ms) => .ok (some (quote (Calendar.isoText ms)))
  | .date none => .ok (some "null")
  | .bytes kind data => .ok (some (bytesText kind data))
  | .array items => do return some (enclose "[" "]" (← itemTexts items))
  | .object fields => do return some (enclose "\x7b" "\x7d" (← fieldTexts fields))
  | .node fields => do return some (enclose "\x7b" "\x7d" (← fieldTexts fields))
  | .foreign _ => .ok (some "\x7b\x7d")
  | .record _ => .ok (some "\x7b\x7d")

/-- The texts of array items. -/
def itemTexts : List Value → Except Fault (List String)
  | [] => .ok []
  | v :: vs => do
    let here ← text? v
    let rest ← itemTexts vs
    return here.getD "null" :: rest

/-- The texts of fields that have one. -/
def fieldTexts : List (String × Value) → Except Fault (List String)
  | [] => .ok []
  | (key, v) :: fields => do
    let here ← text? v
    let rest ← fieldTexts fields
    match here with
    | some t => return (quote key ++ ":" ++ t) :: rest
    | none => return rest

end

/-- The blanks of JSON. -/
def isSpace (c : Char) : Bool := c == ' ' || c == '\t' || c == '\n' || c == '\r'

/-- Without blanks in front. -/
def skip (cs : List Char) : List Char := cs.dropWhile isSpace

/-- Four hexadecimal digits. -/
def hexUnit? : List Char → Option (Nat × List Char)
  | a :: b :: c :: d :: rest => (Number.digitsValue? 16 [a, b, c, d]).map fun n => (n, rest)
  | _ => none

/-- The escaped character after a backslash; two surrogates in a row make one character. -/
def escaped? (cs : List Char) : Option (Char × List Char) :=
  match cs with
  | '"' :: r => some ('"', r)
  | '\\' :: r => some ('\\', r)
  | '/' :: r => some ('/', r)
  | 'b' :: r => some (Char.ofNat 8, r)
  | 'f' :: r => some (Char.ofNat 12, r)
  | 'n' :: r => some ('\n', r)
  | 'r' :: r => some ('\r', r)
  | 't' :: r => some ('\t', r)
  | 'u' :: r =>
    match hexUnit? r with
    | none => none
    | some (high, r) =>
      if 0xD800 ≤ high ∧ high < 0xDC00 then
        match r with
        | '\\' :: 'u' :: r' =>
          match hexUnit? r' with
          | some (low, r'') =>
            if 0xDC00 ≤ low ∧ low < 0xE000 then
              some (Char.ofNat (0x10000 + (high - 0xD800) * 1024 + (low - 0xDC00)), r'')
            else some (Char.ofNat 0xFFFD, r)
          | none => none
        | r => some (Char.ofNat 0xFFFD, r)
      else if 0xDC00 ≤ high ∧ high < 0xE000 then some (Char.ofNat 0xFFFD, r)
      else some (Char.ofNat high, r)
  | _ => none

/-- The characters up to the closing quote. -/
def stringBody? : Nat → List Char → Option (List Char × List Char)
  | 0, _ => none
  | _ + 1, [] => none
  | fuel + 1, c :: cs =>
    if c = '"' then some ([], cs)
    else if c = '\\' then do
      let (e, r) ← escaped? cs
      let (body, r) ← stringBody? fuel r
      some (e :: body, r)
    else if c.toNat < 32 then none
    else do
      let (body, r) ← stringBody? fuel cs
      some (c :: body, r)

/-- The integer part of a number: one zero, or digits that do not begin with zero. -/
def wholePart? (cs : List Char) : Option (List Char × List Char) :=
  match cs with
  | '0' :: r => some (['0'], r)
  | cs =>
    let digits := cs.takeWhile Number.isDigit
    if digits.isEmpty then none else some (digits, cs.dropWhile Number.isDigit)

/-- The digits after a point, empty when there is no point. -/
def fractionPart? (cs : List Char) : Option (List Char × List Char) :=
  match cs with
  | '.' :: r =>
    let digits := r.takeWhile Number.isDigit
    if digits.isEmpty then none else some (digits, r.dropWhile Number.isDigit)
  | cs => some ([], cs)

/-- The exponent, zero when there is none. -/
def exponentPart? (cs : List Char) : Option (Int × List Char) :=
  match cs with
  | c :: r =>
    if c = 'e' ∨ c = 'E' then
      let (negative, r) := Number.splitSign r
      let digits := r.takeWhile Number.isDigit
      if digits.isEmpty then none
      else some (Number.signed negative (Number.decimalValue digits), r.dropWhile Number.isDigit)
    else some (0, c :: r)
  | [] => some (0, [])

/-- A number in front. -/
def number? (cs : List Char) : Option (Number × List Char) := do
  let (negative, r) := match cs with
    | '-' :: r => (true, r)
    | cs => (false, cs)
  let (whole, r) ← wholePart? r
  let (fraction, r) ← fractionPart? r
  let (exponent, r) ← exponentPart? r
  some (Number.ofDecimal negative (Number.decimalValue (whole ++ fraction))
    (exponent - fraction.length), r)

/-- The word in front, if it is there. -/
def word? (word : String) (v : Value) (cs : List Char) : Option (Value × List Char) :=
  if word.toList.isPrefixOf cs then some (v, cs.drop word.length) else none

mutual

/-- A value in front, after blanks. -/
def value? : Nat → List Char → Option (Value × List Char)
  | 0, _ => none
  | fuel + 1, cs =>
    match skip cs with
    | '\x7b' :: r =>
      match skip r with
      | '\x7d' :: r => some (.object [], r)
      | r => do
        let (fields, r) ← fields? fuel r
        some (.object (Fields.ofList fields), r)
    | '[' :: r =>
      match skip r with
      | ']' :: r => some (.array [], r)
      | r => do
        let (items, r) ← items? fuel r
        some (.array items, r)
    | '"' :: r => do
      let (body, r) ← stringBody? (r.length + 1) r
      some (.string (String.ofList body), r)
    | 't' :: r => word? "true" (.bool true) ('t' :: r)
    | 'f' :: r => word? "false" (.bool false) ('f' :: r)
    | 'n' :: r => word? "null" .null ('n' :: r)
    | r => (number? r).map fun (n, r) => (.number n, r)

/-- Items up to the closing bracket. -/
def items? : Nat → List Char → Option (List Value × List Char)
  | 0, _ => none
  | fuel + 1, cs => do
    let (v, r) ← value? fuel cs
    match skip r with
    | ',' :: r =>
      let (vs, r) ← items? fuel r
      some (v :: vs, r)
    | ']' :: r => some ([v], r)
    | _ => none

/-- Fields up to the closing brace. -/
def fields? : Nat → List Char → Option (List (String × Value) × List Char)
  | 0, _ => none
  | fuel + 1, cs =>
    match skip cs with
    | '"' :: r => do
      let (key, r) ← stringBody? (r.length + 1) r
      match skip r with
      | ':' :: r =>
        let (v, r) ← value? fuel r
        match skip r with
        | ',' :: r =>
          let (fs, r) ← fields? fuel r
          some ((String.ofList key, v) :: fs, r)
        | '\x7d' :: r => some ([(String.ofList key, v)], r)
        | _ => none
      | _ => none
    | _ => none

end

/-- The value of a whole text. -/
def parse? (s : String) : Option Value :=
  match value? (2 * s.length + 2) s.toList with
  | some (v, rest) => if (skip rest).isEmpty then some v else none
  | none => none

end PolyQuery.Json
