import PolyQuery.Dialect.Features
import PolyQuery.Dialect.Reserved
import PolyQuery.Error
import PolyQuery.Text.Letters

/-! A dialect: a backend at a server version, with everything that its statements depend on —
quoting of names, placeholders, pagination, keywords and constant predicates. -/
namespace PolyQuery

/-- A backend at a version. -/
structure Dialect where
  backend : Backend
  version : Version
  deriving DecidableEq, Repr

/-- How a limit and an offset are written: `LIMIT n OFFSET m`, `OFFSET m ROWS FETCH NEXT n ROWS
ONLY`, a query around the query that filters on row numbers, or `SELECT TOP n`, which has no
offset. -/
inductive PaginationStyle where
  | limitOffset
  | offsetFetch
  | rownum
  | top
  deriving DecidableEq, Repr

/-- The word for a style. -/
def PaginationStyle.name : PaginationStyle → String
  | .limitOffset => "limit-offset"
  | .offsetFetch => "offset-fetch"
  | .rownum => "rownum"
  | .top => "top"

/-- What to ask of a plan description. -/
structure ExplainOptions where
  analyze : Bool
  json : Bool
  deriving DecidableEq, Repr

namespace Dialect

/-- A backend at the given version or its default one. -/
def make (backend : Backend) (version : Option Version) : Dialect :=
  ⟨backend, version.getD backend.defaultVersion⟩

/-- A backend at the version that a text names. -/
def ofVersionText (backend : Backend) (text : String) : Except Error Dialect :=
  match Version.parse? text with
  | some v => .ok ⟨backend, v⟩
  | none => .error (.unreadableVersion text)

/-- The dialect of a backend by its name, of the version that is written behind an `@`, or of the
default one. -/
def named? (text : String) : Option (Except Error Dialect) :=
  let name := text.toList.takeWhile (· != '@')
  (Backend.ofName? (String.ofList name)).map fun b =>
    match text.toList.drop name.length with
    | _ :: version => ofVersionText b (String.ofList version)
    | [] => .ok (make b none)

/-- Every backend at its default version. -/
def defaults : List Dialect := Backend.all.map fun b => make b none

/-- The capabilities of the server. -/
def capabilities (d : Dialect) : Capabilities := d.backend.capabilities d.version

/-- The readable name, such as `postgres 16.0.0`. -/
def label (d : Dialect) : String := d.backend.name ++ " " ++ d.version.format

/-- The characters that open and close a quoted name. -/
def quotes (d : Dialect) : Char × Char :=
  match d.backend with
  | .mysql => (Char.ofNat 96, Char.ofNat 96)
  | .mariadb => (Char.ofNat 96, Char.ofNat 96)
  | .sqlserver => ('[', ']')
  | _ => ('"', '"')

/-- Whether placeholders carry the position of their parameter. -/
def numbersParameters (d : Dialect) : Bool :=
  d.backend == .postgres || d.backend == .oracle || d.backend == .sqlserver

/-- The placeholder of the parameter at a position that is written as a text. -/
def placeholderOf (d : Dialect) (position : String) : String :=
  match d.backend with
  | .postgres => "$" ++ position
  | .oracle => ":p" ++ position
  | .sqlserver => "@p" ++ position
  | _ => "?"

/-- The placeholder of the parameter at a position counted from one. -/
def placeholder (d : Dialect) (position : Nat) : String := d.placeholderOf (toString position)

/-- The style of pagination at this version. -/
def paginationStyle (d : Dialect) : PaginationStyle :=
  match d.backend with
  | .oracle => if d.version.atLeast (.of 12 1 0) then .offsetFetch else .rownum
  | .sqlserver => if d.version.atLeast (.of 11 0 0) then .offsetFetch else .top
  | _ => .limitOffset

/-- Between a table and its alias. -/
def tableAliasKeyword (d : Dialect) : String :=
  if d.backend = .oracle then " " else " AS "

/-- A predicate that never holds. -/
def falsePredicate (_ : Dialect) : String := "1 = 0"

/-- A predicate that always holds. -/
def truePredicate (_ : Dialect) : String := "1 = 1"

/-- Whether the operands of a set operation may stand in parentheses. -/
def parenthesizesOperands (d : Dialect) : Bool := d.backend != .sqlite

/-- Whether a recursive `WITH` carries the keyword. -/
def hasRecursiveKeyword (d : Dialect) : Bool := d.backend != .oracle

/-- Whether a recursive common table expression must list its columns. -/
def recursionNeedsColumns (d : Dialect) : Bool := d.backend == .oracle

/-- What a `SELECT` without a source ends its list with. -/
def selectWithoutSource (d : Dialect) : String :=
  if d.backend = .oracle then " FROM DUAL" else ""

/-- The longest list that `IN` may have. -/
def maxInList (d : Dialect) : Option Nat :=
  if d.backend = .oracle then some 1000 else none

/-- The limit that means none, for an offset that stands alone. -/
def noLimit (d : Dialect) : Option String :=
  match d.backend with
  | .sqlite => some "-1"
  | .mysql => some "18446744073709551615"
  | .mariadb => some "18446744073709551615"
  | _ => none

/-- Whether an offset must follow an ordering. -/
def offsetNeedsOrder (d : Dialect) : Bool := d.backend == .sqlserver

/-- The keyword of a set operator. -/
def setOperatorKeyword (d : Dialect) (keyword : String) : String :=
  if d.backend = .oracle ∧ keyword = "EXCEPT" then "MINUS" else keyword

/-- A letter or an underscore. -/
def isNameStart (c : Char) : Bool := Text.isCapital c || Text.isSmall c || c == '_'

/-- A letter, a digit or an underscore. -/
def isNameChar (c : Char) : Bool := isNameStart c || Number.isDigit c

/-- A name of letters, digits and underscores that does not begin with a digit. -/
def isPlainName (cs : List Char) : Bool :=
  match cs with
  | c :: rest => isNameStart c && rest.all isNameChar
  | [] => false

/-- Whether a name is reserved in any letter case. -/
def isReserved (d : Dialect) (name : String) : Bool :=
  d.backend.reservedWords.contains (Text.upper name)

/-- A name needs quotes when it is not plain, when it is reserved, and on PostgreSQL, which folds
names to small letters, when it has a capital. -/
def needsQuotes (d : Dialect) (name : String) : Bool :=
  !isPlainName name.toList || d.isReserved name ||
    (d.backend == .postgres && name.toList.any Text.isCapital)

/-- A name between quotes, with every closing quote inside doubled. -/
def quoted (d : Dialect) (name : String) : String :=
  let (opening, closing) := d.quotes
  String.ofList (opening ::
    (name.toList.flatMap fun c => if c = closing then [c, c] else [c]) ++ [closing])

/-- A name as it stands in a statement. -/
def quoteIdentifier (d : Dialect) (name : String) : String :=
  if d.needsQuotes name then d.quoted name else name

/-- The parts of a text between points. -/
def dottedParts : List Char → List (List Char)
  | [] => [[]]
  | c :: cs =>
    if c = '.' then [] :: dottedParts cs
    else match dottedParts cs with
      | p :: ps => (c :: p) :: ps
      | [] => [[c]]

/-- A dotted name, each part but a star quoted on its own. -/
def quoteQualified (d : Dialect) (name : String) : String :=
  ".".intercalate <| (dottedParts name.toList).map fun part =>
    let s := String.ofList part
    if s = "*" then s else d.quoteIdentifier s

/-- Whether the words that ask for a plan depend on options. -/
def takesExplainOptions (d : Dialect) : Bool :=
  d.backend == .postgres || d.backend == .mysql || d.backend == .mariadb

/-- The words before a statement that ask for its plan. -/
def explainWords (d : Dialect) (options : ExplainOptions) : Except Error String :=
  match d.backend with
  | .postgres =>
    let flags := (if options.analyze then ["ANALYZE"] else []) ++
      (if options.json then ["FORMAT JSON"] else [])
    .ok (if flags.isEmpty then "EXPLAIN" else "EXPLAIN (" ++ ", ".intercalate flags ++ ")")
  | .mysql =>
    .ok (if options.analyze then "EXPLAIN ANALYZE"
      else if options.json then "EXPLAIN FORMAT=JSON" else "EXPLAIN")
  | .mariadb =>
    .ok (if options.analyze then "ANALYZE"
      else if options.json then "EXPLAIN FORMAT=JSON" else "EXPLAIN")
  | .sqlite => .ok "EXPLAIN QUERY PLAN"
  | .oracle => .ok "EXPLAIN PLAN FOR"
  | .sqlserver =>
    .error (.unsupportedFeature d.label none "EXPLAIN"
      (some "use SET SHOWPLAN_XML ON on the session instead"))

/-- The representation that a backend prefers for a host type, none where the adapter decides. -/
def suggestRepresentation (d : Dialect) (hostType : String) : Option Representation :=
  match d.backend, hostType with
  | .postgres, "json" => some .text
  | .postgres, "bigint" => some .text
  | .postgres, "boolean" => some .native
  | .postgres, "date" => some .native
  | .postgres, "uuid" => some .native
  | .postgres, "buffer" => some .native
  | .sqlite, "boolean" => some .integer
  | .sqlite, "bigint" => some .integer
  | .sqlite, "date" => some .text
  | .sqlite, "json" => some .text
  | .sqlite, "uuid" => some .text
  | .sqlite, "buffer" => some .native
  | .sqlserver, "boolean" => some .native
  | _, "boolean" => some .integer
  | _, "json" => some .text
  | _, "uuid" => some .text
  | _, "bigint" => some .text
  | _, "date" => some .native
  | _, "buffer" => some .native
  | _, _ => none

end Dialect

/-- What must be there of a category: any feature, all features of a mask, or something that no
server has. -/
inductive Needed where
  | any
  | all (flags : Mask)
  | impossible
  deriving DecidableEq, Repr

/-- A category with what must be there of it. -/
structure Requirement where
  category : Category
  needed : Needed
  deriving DecidableEq, Repr

/-- Whether a dialect has what is required. -/
def Requirement.isMet (r : Requirement) (d : Dialect) : Bool :=
  match r.needed with
  | .any => d.capabilities.supportsCategory r.category
  | .all flags => d.capabilities.includes r.category flags
  | .impossible => false

/-- The dialects that meet all requirements. -/
def selectDialects (requirements : List Requirement) (dialects : List Dialect) : List Dialect :=
  dialects.filter fun d => requirements.all fun r => r.isMet d

end PolyQuery
