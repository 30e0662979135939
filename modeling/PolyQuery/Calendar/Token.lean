import PolyQuery.Calendar
import PolyQuery.Number.Literal

/-! The pieces of a text that names an instant: numbers, marks, the words that mean something in a
date, and blanks. Main definition: `Calendar.tokens`. -/
namespace PolyQuery.Calendar

/-- A piece of a date's text. -/
inductive Token
  /-- A run of digits with its value and its length. -/
  | number (value length : Nat)
  /-- One of the marks `:`, `-`, `+`, `.` and `)`. -/
  | mark (c : Char)
  /-- The name of a month. -/
  | month (n : Nat)
  /-- The half of a day, by the hours before it. -/
  | half (hours : Nat)
  /-- A zone, by its distance from UTC in hours. -/
  | zone (hours : Int)
  /-- The letter Z. -/
  | zulu
  /-- The letter T. -/
  | timeMark
  /-- Any other word. -/
  | word
  | blank
  /-- Any other character, or a remark in parentheses. -/
  | other
  deriving DecidableEq, Repr

/-- The zones with a name, in hours from UTC. -/
def zones : List (String × Int) :=
  [("ut", 0), ("utc", 0), ("gmt", 0), ("cdt", -5), ("cst", -6), ("edt", -4), ("est", -5),
   ("mdt", -6), ("mst", -7), ("pdt", -7), ("pst", -8)]

/-- The letters by which months are known. -/
def monthKeys : List String :=
  ["jan", "feb", "mar", "apr", "may", "jun", "jul", "aug", "sep", "oct", "nov", "dec"]

/-- A capital as a small letter, other characters as they are. -/
def smallLetter (c : Char) : Char :=
  if 'A' ≤ c ∧ c ≤ 'Z' then Char.ofNat (c.toNat + 32) else c

/-- What a word means: a month is known by its first three letters, all else by the whole word. -/
def Token.ofWord (w : List Char) : Token :=
  let key := String.ofList ((w.take 3).map smallLetter)
  match monthKeys.idxOf? key with
  | some i => .month (i + 1)
  | none =>
    if 3 < w.length then .word
    else if key = "am" then .half 0
    else if key = "pm" then .half 12
    else if key = "z" then .zulu
    else if key = "t" then .timeMark
    else
      match zones.lookup key with
      | some hours => .zone hours
      | none => .word

/-- The value of a run of digits, of which nine count after the zeros in front. -/
def runValue (digits : List Char) : Nat :=
  Number.decimalValue ((digits.dropWhile (· == '0')).take 9)

/-- A character of a word: the letters and all that stand after them, line and paragraph separators
among them, but no other blanks. -/
def isWordChar (c : Char) : Bool :=
  'A' ≤ c && (!Text.isBlank c || c == '\u2028' || c == '\u2029')

/-- What follows a remark that is `depth` parentheses deep; one that nothing closes goes on to the
end. -/
def afterRemark : Nat → List Char → List Char
  | 0, cs => cs
  | _, [] => []
  | depth + 1, c :: cs =>
    if c = '(' then afterRemark (depth + 2) cs
    else if c = ')' then afterRemark depth cs
    else afterRemark (depth + 1) cs

theorem length_afterRemark_le (depth : Nat) (cs : List Char) :
    (afterRemark depth cs).length ≤ cs.length := by
  induction cs generalizing depth with
  | nil => cases depth <;> simp [afterRemark]
  | cons c cs ih =>
    cases depth with
    | zero => simp [afterRemark]
    | succ depth =>
      simp only [afterRemark]
      split
      · exact Nat.le_succ_of_le (ih _)
      · split <;> exact Nat.le_succ_of_le (ih _)

theorem length_dropWhile_le (p : Char → Bool) (cs : List Char) :
    (cs.dropWhile p).length ≤ cs.length :=
  (List.dropWhile_suffix p).length_le

/-- The pieces of a text without its end mark. -/
def scan : List Char → List Token
  | [] => []
  | c :: cs =>
    if Number.isDigit c then
      let digits := c :: cs.takeWhile Number.isDigit
      .number (runValue digits) digits.length :: scan (cs.dropWhile Number.isDigit)
    else if c = ':' ∨ c = '-' ∨ c = '+' ∨ c = '.' ∨ c = ')' then .mark c :: scan cs
    else if isWordChar c then
      .ofWord (c :: cs.takeWhile isWordChar) :: scan (cs.dropWhile isWordChar)
    else if Text.isBlank c then .blank :: scan cs
    else if c = '(' then .other :: scan (afterRemark 1 cs)
    else .other :: scan cs
termination_by cs => cs.length
decreasing_by
  all_goals simp only [List.length_cons]
  · exact Nat.lt_succ_of_le (length_dropWhile_le _ cs)
  · omega
  · exact Nat.lt_succ_of_le (length_dropWhile_le _ cs)
  · omega
  · exact Nat.lt_succ_of_le (length_afterRemark_le 1 cs)
  · omega

/-- The pieces of a text, which a null character ends. -/
def tokens (s : String) : List Token := scan (s.toList.takeWhile (· != '\x00'))

end PolyQuery.Calendar
