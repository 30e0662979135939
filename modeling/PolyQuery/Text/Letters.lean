import PolyQuery.Text.CaseContext
import PolyQuery.Text.CaseTable

/-! Upper and lower case of a whole text, by the full mappings of Unicode: a letter may become
several, and a capital sigma at the end of a word becomes the final form. The case maps of ASCII
letters alone stand beside them. -/
namespace PolyQuery.Text

/-- The letters `A` to `Z`. -/
def isCapital (c : Char) : Bool := 'A' ≤ c && c ≤ 'Z'

/-- The letters `a` to `z`. -/
def isSmall (c : Char) : Bool := 'a' ≤ c && c ≤ 'z'

/-- The counterpart that runs and sequences give a character, itself when they give none. -/
def mapCase (runs : List CaseRun) (sequences : List (Nat × List Nat)) (c : Char) : List Char :=
  match sequences.lookup c.toNat with
  | some codes => codes.map Char.ofNat
  | none =>
    match runs.find? (·.has c.toNat) with
    | some r => [Char.ofNat ((c.toNat : Int) + r.offset).toNat]
    | none => [c]

/-- The upper case of a character. -/
def upperChar (c : Char) : List Char :=
  if isSmall c then [Char.ofNat (c.toNat - 32)]
  else if c.toNat < 128 then [c]
  else mapCase upperRuns upperSequences c

/-- The lower case of a character, apart from its place in a word. -/
def lowerChar (c : Char) : List Char :=
  if isCapital c then [Char.ofNat (c.toNat + 32)]
  else if c.toNat < 128 then [c]
  else mapCase lowerRuns lowerSequences c

/-- A letter that is written in upper, lower or title case. -/
def isCased (c : Char) : Bool :=
  isCapital c || isSmall c || (128 ≤ c.toNat && casedRanges.any (·.has c.toNat))

/-- Marks that words may hold between their letters. -/
def isCaseIgnorable (c : Char) : Bool :=
  c == '\'' || c == '.' || c == ':' || c == '^' || c.toNat == 0x60 ||
    (128 ≤ c.toNat && ignorableRanges.any (·.has c.toNat))

/-- Whether the nearest character that is no mark is a letter with case. -/
def startsCased (cs : List Char) : Bool :=
  match cs.dropWhile isCaseIgnorable with
  | c :: _ => isCased c
  | [] => false

/-- The lower case of the characters after `before`, which is reversed. -/
def lowerFrom (before : List Char) : List Char → List Char
  | [] => []
  | c :: cs =>
    let here :=
      if c = 'Σ' ∧ startsCased before ∧ ¬ startsCased cs then ['ς'] else lowerChar c
    here ++ lowerFrom (c :: before) cs

/-- A text in upper case. -/
def upper (s : String) : String := String.ofList (s.toList.flatMap upperChar)

/-- A text in lower case. -/
def lower (s : String) : String := String.ofList (lowerFrom [] s.toList)

end PolyQuery.Text
