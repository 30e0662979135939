import PolyQuery.Sql.Fragment

/-! The end of a query: its ordering, and the rows that it keeps, in the dialect's style. -/
namespace PolyQuery.Paging

/-- The sum of two bounds; bounds that are no numbers are put side by side. -/
def plus (a b : Value) : Value :=
  match a, b with
  | .number m, .number n => .number (m.add n)
  | a, b => .string (a.text ++ b.text)

/-- An offset, zero when it is missing. -/
def skipped (offset : Option Value) : Value :=
  match offset with
  | some .null => .number (.int 0)
  | some v => v
  | none => .number (.int 0)

/-- Exactly the number zero. -/
def isZero : Value → Bool
  | .number n => n.isZero
  | _ => false

/-- Whether a query keeps all its rows. -/
def isWhole (limit offset : Option Value) : Bool := limit.isNone && offset.isNone

/-- Pages by `LIMIT n OFFSET m`; an offset alone stands behind the limit that means none. -/
def limitOffset (d : Dialect) (core order : Fragment) (limit offset : Option Value) : Fragment :=
  let limitPart :=
    match limit with
    | some v => Fragment.text (" LIMIT " ++ v.text)
    | none =>
      match d.noLimit with
      | some s => Fragment.text (" LIMIT " ++ s)
      | none => Fragment.empty
  let offsetPart :=
    match offset with
    | some v => Fragment.text (" OFFSET " ++ v.text)
    | none => Fragment.empty
  core ++ order ++ limitPart ++ offsetPart

/-- Pages by `OFFSET m ROWS FETCH NEXT n ROWS ONLY`, after an ordering where the server insists on
one. -/
def offsetFetch (d : Dialect) (core order : Fragment) (ordered : Bool)
    (limit offset : Option Value) : Fragment :=
  let ordering :=
    if !ordered && d.offsetNeedsOrder then Fragment.text " ORDER BY (SELECT NULL)" else order
  let fetch :=
    match limit with
    | some v => Fragment.text (" FETCH NEXT " ++ v.text ++ " ROWS ONLY")
    | none => Fragment.empty
  core ++ ordering ++ Fragment.text (" OFFSET " ++ (skipped offset).text ++ " ROWS") ++ fetch

/-- A query around the query that keeps the rows between two row numbers. -/
def rownum (core order : Fragment) (limit offset : Option Value) : Fragment :=
  let inner := core ++ order
  let skip := skipped offset
  match limit with
  | some v =>
    if isZero skip then
      Fragment.text "SELECT * FROM (" ++ inner ++ Fragment.text (") WHERE ROWNUM <= " ++ v.text)
    else
      Fragment.text "SELECT * FROM (SELECT q_.*, ROWNUM rn_ FROM (" ++ inner ++
        Fragment.text (") q_ WHERE ROWNUM <= " ++ (plus skip v).text ++ ") WHERE rn_ > " ++
          skip.text)
  | none =>
    Fragment.text "SELECT * FROM (SELECT q_.*, ROWNUM rn_ FROM (" ++ inner ++
      Fragment.text (") q_) WHERE rn_ > " ++ skip.text)

/-- Pages by `SELECT TOP n` around the query, unless it stands in the query already; there is no
offset. -/
def top (d : Dialect) (core order : Fragment) (limit offset : Option Value) (applied : Bool) :
    Except Error Fragment :=
  let offsetIsPositive :=
    match offset with
    | some v => (Number.int 0).lt v.toNumber
    | none => false
  if offsetIsPositive then
    .error (.unsupportedFeature d.label none "OFFSET" (some "requires OFFSET/FETCH support"))
  else
    match limit with
    | some v =>
      if applied then .ok (core ++ order)
      else .ok (Fragment.text ("SELECT TOP " ++ v.text ++ " * FROM (") ++ core ++
        Fragment.text ") AS q_" ++ order)
    | none => .ok (core ++ order)

/-- A query with its ordering and pagination. `ordered` says whether it has an ordering, `applied`
whether `TOP` stands in it already. -/
def finish (d : Dialect) (core order : Fragment) (ordered : Bool) (pagination : Option Pagination)
    (applied : Bool) : Except Error Fragment :=
  let limit := pagination.bind Pagination.limit
  let offset := pagination.bind Pagination.offset
  if isWhole limit offset then .ok (core ++ order)
  else match d.paginationStyle with
    | .limitOffset => .ok (limitOffset d core order limit offset)
    | .offsetFetch => .ok (offsetFetch d core order ordered limit offset)
    | .rownum => .ok (rownum core order limit offset)
    | .top => top d core order limit offset applied

end PolyQuery.Paging
