import PolyQuery.Proofs.Evaluation
import PolyQuery.Proofs.Fragment
import PolyQuery.Proofs.Token

/-! The pages that a query can be asked for: how each of them is written around the parts of the
query, which rows of the query it has, and with which columns. A text that is written for a page of
a query is not written for another one: `Page.Reads.unique`. -/
namespace PolyQuery

/-! ## A query without its page -/

/-- A query with another page. -/
def Query.paged (q : Query) (page : Option Pagination) : Query :=
  match q with
  | .select p => .select { p with pagination := page }
  | .combined p => .combined { p with pagination := page }

/-- What is written for a query apart from its page: its `WITH` clause; for a selection, whether it
is `DISTINCT`; all that stands before the ordering, for a selection without its first words; and the
ordering. -/
structure Sql.Parts where
  ctes : List Fragment
  recursive : Bool
  distinct : Option Bool
  rest : Fragment
  order : Fragment
  ordered : Bool

/-- Texts that a page puts between the parts of a query: before all of them, behind `SELECT` or
`SELECT DISTINCT`, before the ordering, and behind all of them. -/
structure Surround where
  before : String := ""
  top : String := ""
  middle : String := ""
  behind : String := ""

namespace Sql.Parts

/-- What stands before the ordering. -/
def core (parts : Parts) (top : String) : Fragment :=
  match parts.distinct with
  | some distinct =>
    Fragment.text ("SELECT" ++ (if distinct then " DISTINCT" else "") ++ top ++ " ") ++ parts.rest
  | none => parts.rest

/-- The parts of a query with texts between them. -/
def within (parts : Parts) (s : Surround) : Fragment :=
  Fragment.text s.before ++ parts.core s.top ++ Fragment.text s.middle ++ parts.order ++
    Fragment.text s.behind

/-- The text of a query. -/
def sql (d : Dialect) (parts : Parts) (s : Surround) : String :=
  (withClause d parts.recursive parts.ctes (parts.within s)).sql d

/-- The words behind `SELECT` for the limit that stands there. -/
def topWords : Option Value → String
  | some v => " TOP " ++ v.text
  | none => ""

/-- A query with the end of its page. -/
def finish (d : Dialect) (parts : Parts) (page : Option Pagination) : Except Error Fragment :=
  Paging.finish d (parts.core (topWords (topLimit d page))) parts.order parts.ordered page
    (parts.distinct.isSome && (topLimit d page).isSome)

end Sql.Parts

namespace Sql
variable {d : Dialect}

/-- Writes the parts of a query. -/
def parts (d : Dialect) : Query → Except Error Parts
  | .select p => do
    requireCtes d p.ctes
    let ctes ← cteList d p.ctes
    let items ← itemList d p.items
    let source ← optionalSource d p.source
    let joined ← joins d p.joins
    let condition ← optional d p.condition
    let groups ← exprs d p.groupBy
    let having ← optional d p.having
    let orders ← terms d p.orderBy
    return {
      ctes := ctes
      recursive := p.ctes.any Cte.recursive
      distinct := some p.distinct
      rest := (if p.items.isEmpty then Fragment.text "*" else Fragment.join ", " items) ++
        source ++ joined ++ optionalClause " WHERE" condition ++ listClause " GROUP BY" groups ++
        optionalClause " HAVING" having
      order := listClause " ORDER BY" orders
      ordered := !p.orderBy.isEmpty }
  | .combined p => do
    requireCtes d p.ctes
    let ctes ← cteList d p.ctes
    d.require .setOperations (p.operator.feature p.all)
    let left ← query d p.left
    let right ← query d p.right
    let orders ← terms d p.orderBy
    return {
      ctes := ctes
      recursive := p.ctes.any Cte.recursive
      distinct := none
      rest := setOperand d .left p.left left ++ Fragment.text (" " ++
        d.setOperatorKeyword p.operator.keyword ++ (if p.all then " ALL " else " ")) ++
        setOperand d .right p.right right
      order := listClause " ORDER BY" orders
      ordered := !p.orderBy.isEmpty }

/-- A query is its parts with the end of its page, behind its `WITH` clause. -/
theorem query_paged (q : Query) (page : Option Pagination) :
    query d (q.paged page) = (do
      let parts ← Sql.parts d q
      let body ← parts.finish d page
      return withClause d parts.recursive parts.ctes body) := by
  cases q with
  | select p =>
    simp only [Query.paged, query, select, parts, bind_assoc, pure_bind]
    simp only [Parts.finish, Parts.core, Option.isSome_some, Bool.true_and]
    simp only [← Fragment.append_assoc]
    rfl
  | combined p =>
    simp only [Query.paged, query, combined, parts, bind_assoc, pure_bind]
    simp only [Parts.finish, Parts.core, Option.isSome_none, Bool.false_and]

/-- A query that is not ordered has nothing in the place of its ordering. -/
theorem parts_order {q : Query} {parts : Parts} (h : Sql.parts d q = .ok parts)
    (hordered : parts.ordered = false) : parts.order = Fragment.empty := by
  have hnone {ts : List OrderTerm} {orders : List Fragment} (horders : terms d ts = .ok orders)
      (hts : (!ts.isEmpty) = false) : listClause " ORDER BY" orders = Fragment.empty := by
    cases ts with
    | nil =>
      cases horders
      rfl
    | cons t ts => cases hts
  cases q with
  | select p =>
    rw [Sql.parts] at h
    -- what is required of the tables, and the seven clauses before the order
    iterate 8 obtain ⟨_, _, h⟩ := bind_eq_ok.1 h
    obtain ⟨orders, horders, h⟩ := bind_eq_ok.1 h
    cases h
    exact hnone horders hordered
  | combined p =>
    rw [Sql.parts] at h
    -- what is required, the tables, and the two operands
    iterate 5 obtain ⟨_, _, h⟩ := bind_eq_ok.1 h
    obtain ⟨orders, horders, h⟩ := bind_eq_ok.1 h
    cases h
    exact hnone horders hordered

end Sql

/-! ## Rows of a page -/

/-- The rows that a condition on their numbers keeps, with their numbers. A row is looked at with
the number behind that of the row that was kept last, and a row that is not kept leaves its number
to the next. -/
def Page.numbered {α : Type} (keep : Nat → Bool) : Nat → List α → List (α × Nat)
  | _, [] => []
  | n, row :: rows =>
    if keep n then (row, n) :: numbered keep (n + 1) rows else numbered keep n rows

/-- The rows behind as many as are skipped, and of these no more than the limit. -/
def Page.window {α : Type} (limit : Option Nat) (skip : Nat) (rows : List α) : List α :=
  match limit with
  | some k => (rows.drop skip).take k
  | none => rows.drop skip

/-- How a query asks for a page, with the words for its bounds: not at all; by `LIMIT`, where a word
may stand for none, and `OFFSET`; by `OFFSET` and `FETCH NEXT`; by a selection around the query that
keeps the rows up to a number; by one around a selection that numbers the rows, up to a number if
there is one, which keeps those with greater numbers than one; by `TOP` in the query itself; and by
`TOP` in a selection around the query. -/
inductive Page where
  | whole
  | limited (limit offset : Option String)
  | fetched (offset : String) (limit : Option String)
  | upTo (last : String)
  | between (last : Option String) (offset : String)
  | top (limit : String)
  | topAround (limit : String)
  deriving DecidableEq

namespace Page

/-- The number that a word stands for, if there is a word. -/
def bound? : Option String → Option (Option Nat)
  | some word => (numeral? word).map some
  | none => some none

/-- The rows of a page of a query with these rows, each with the number that it shows in a column of
its own, if it shows one. -/
def result? {α : Type} (rows : List α) : Page → Option (List (α × Option Nat))
  | whole => some (rows.map (·, none))
  | limited limit offset => do
    let limit ← bound? limit
    let offset ← bound? offset
    return (window limit (offset.getD 0) rows).map (·, none)
  | fetched offset limit => do
    let offset ← numeral? offset
    let limit ← bound? limit
    return (window limit offset rows).map (·, none)
  | upTo last => do
    let last ← numeral? last
    return (numbered (· ≤ last) 1 rows).map fun (row, _) => (row, none)
  | between last offset => do
    let last ← bound? last
    let offset ← numeral? offset
    return ((numbered (fun n => last.all (n ≤ ·)) 1 rows).filter fun (_, n) => offset < n).map
      fun (row, n) => (row, some n)
  | top limit => do
    let limit ← numeral? limit
    return (rows.take limit).map (·, none)
  | topAround limit => do
    let limit ← numeral? limit
    return (rows.take limit).map (·, none)

/-- The columns of a page of a query with these columns. -/
def columns (columns : List String) : Page → List String
  | between _ _ => columns ++ ["rn_"]
  | _ => columns

/-- The page of a result: its columns, and its rows with their numbers behind their fields, where
they show them. -/
def contents? {κ : Type} (page : Page) (c : Contents κ) : Option (Contents κ) := do
  let rows ← page.result? c.rows
  return ⟨page.columns c.columns, rows.map fun (row, n) => row ++ (n.map (.int ·)).toList⟩

/-! ### Texts -/

/-- A word behind other words, if there is one. -/
def optionalWord (before after : String) : Option String → String
  | some word => before ++ word ++ after
  | none => ""

/-- The texts that ask a server for a page of a query. -/
def surround (d : Dialect) (ordered : Bool) : Page → Surround
  | whole => {}
  | limited limit offset =>
    { behind := optionalWord " LIMIT " "" (limit.or d.noLimit) ++
        optionalWord " OFFSET " "" offset }
  | fetched offset limit =>
    { middle := if !ordered && d.offsetNeedsOrder then " ORDER BY (SELECT NULL)" else ""
      behind := " OFFSET " ++ offset ++ " ROWS" ++ optionalWord " FETCH NEXT " " ROWS ONLY" limit }
  | upTo last => { before := "SELECT * FROM (", behind := ") WHERE ROWNUM <= " ++ last }
  | between last offset =>
    { before := "SELECT * FROM (SELECT q_.*, ROWNUM rn_ FROM ("
      behind := ") q_" ++ optionalWord " WHERE ROWNUM <= " "" last ++ ") WHERE rn_ > " ++ offset }
  | top limit => { top := " TOP " ++ limit }
  | topAround limit =>
    { before := "SELECT TOP " ++ limit ++ " * FROM (", middle := ") AS q_" }

/-- The words of a page. -/
def words : Page → List String
  | whole => []
  | limited limit offset => limit.toList ++ offset.toList
  | fetched offset limit => offset :: limit.toList
  | upTo last => [last]
  | between last offset => last.toList ++ [offset]
  | top limit => [limit]
  | topAround limit => [limit]

/-- The style in which a page is asked for, if it is. -/
def style? : Page → Option PaginationStyle
  | whole => none
  | limited _ _ => some .limitOffset
  | fetched _ _ => some .offsetFetch
  | upTo _ => some .rownum
  | between _ _ => some .rownum
  | top _ => some .top
  | topAround _ => some .top

/-- A page with a bound; the word that means no limit is none. `TOP` stands in a selection, and
around a combination. -/
def HasForm (d : Dialect) (parts : Sql.Parts) : Page → Prop
  | limited limit offset => (limit ≠ none ∨ offset ≠ none) ∧ (limit ≠ none → limit ≠ d.noLimit)
  | top _ => parts.distinct ≠ none
  | topAround _ => parts.distinct = none
  | _ => True

/-- A page that may be asked of a server, where each bound is a word. -/
structure Suits (d : Dialect) (parts : Sql.Parts) (page : Page) : Prop where
  style : ∀ style ∈ page.style?, d.paginationStyle = style
  form : page.HasForm d parts
  words : ∀ word ∈ page.words, ' ' ∉ word.toList

end Page

/-! ## First and last words -/

section Words

/-- A list up to the first place of a letter. -/
theorem eq_of_append_cons {α : Type} {a : α} {xs ys us vs : List α} (hxs : a ∉ xs) (hys : a ∉ ys)
    (h : xs ++ a :: us = ys ++ a :: vs) : xs = ys ∧ us = vs := by
  induction xs generalizing ys with
  | nil =>
    cases ys with
    | nil =>
      cases h
      exact ⟨rfl, rfl⟩
    | cons y ys =>
      cases h
      exact absurd List.mem_cons_self hys
  | cons x xs ih =>
    cases ys with
    | nil =>
      cases h
      exact absurd List.mem_cons_self hxs
    | cons y ys =>
      obtain ⟨rfl, htail⟩ := List.cons.inj h
      obtain ⟨rfl, hrest⟩ := ih (List.not_mem_of_not_mem_cons hxs)
        (List.not_mem_of_not_mem_cons hys) htail
      exact ⟨rfl, hrest⟩

/-- The last word of a text. -/
theorem eq_of_lastWord {s t w v : String} (hw : ' ' ∉ w.toList) (hv : ' ' ∉ v.toList)
    (h : s ++ " " ++ w = t ++ " " ++ v) : s = t ∧ w = v := by
  have hreverse : w.toList.reverse ++ ' ' :: s.toList.reverse =
      v.toList.reverse ++ ' ' :: t.toList.reverse := by
    have hlists := congrArg (fun text => text.toList.reverse) h
    simpa using hlists
  obtain ⟨hlast, hrest⟩ := eq_of_append_cons (fun hmem => hw (List.mem_reverse.1 hmem))
    (fun hmem => hv (List.mem_reverse.1 hmem)) hreverse
  exact ⟨String.toList_inj.1 (List.reverse_injective hrest),
    String.toList_inj.1 (List.reverse_injective hlast)⟩

/-- The first word of a text. -/
theorem eq_of_firstWord {s t w v : String} (hw : ' ' ∉ w.toList) (hv : ' ' ∉ v.toList)
    (h : w ++ " " ++ s = v ++ " " ++ t) : w = v ∧ s = t := by
  have hlists : w.toList ++ ' ' :: s.toList = v.toList ++ ' ' :: t.toList := by
    simpa using congrArg String.toList h
  obtain ⟨hfirst, hrest⟩ := eq_of_append_cons hw hv hlists
  exact ⟨String.toList_inj.1 hfirst, String.toList_inj.1 hrest⟩

end Words

/-! ## The page that a text asks for -/

namespace Sql.Parts

/-- A `WITH` clause does not depend on the query behind it. -/
theorem exists_withClause (d : Dialect) (recursive : Bool) (fs : List Fragment) :
    ∃ before : String, ∀ body : Fragment, ((Sql.withClause d recursive fs body).chars d 0) =
      before.toList ++ body.chars d (fs.flatMap Fragment.bindings).length := by
  cases fs with
  | nil => exact ⟨"", fun body => rfl⟩
  | cons f fs =>
    -- its values come first, so the query behind it starts at the number of these values
    let keyword := if recursive && d.hasRecursiveKeyword then "WITH RECURSIVE" else "WITH"
    let clause := Sql.clause keyword (Fragment.join ", " (f :: fs)) ++ Fragment.text " "
    have hlength : clause.bindings.length = ((f :: fs).flatMap Fragment.bindings).length := by
      simp [clause]
    refine ⟨String.ofList (clause.chars d 0), fun body => ?_⟩
    have happend : Sql.withClause d recursive (f :: fs) body = clause ++ body := rfl
    rw [happend, Fragment.chars_append, hlength, Nat.zero_add, String.toList_ofList]

/-- The first words of a selection can be followed by others. -/
theorem exists_core (d : Dialect) (parts : Sql.Parts) (n : Nat) : ∃ first rest : String,
    ∀ top : String, (parts.core top).chars d n =
      (first ++ (if parts.distinct.isSome then top else "") ++ rest).toList := by
  unfold Sql.Parts.core
  cases parts.distinct with
  | none => exact ⟨"", String.ofList (parts.rest.chars d n), fun top => by simp⟩
  | some distinct =>
    refine ⟨"SELECT" ++ (if distinct then " DISTINCT" else ""),
      " " ++ String.ofList (parts.rest.chars d n), fun top => ?_⟩
    simp [Fragment.chars_append, Fragment.chars_text]

theorem bindings_core (parts : Sql.Parts) (top : String) :
    (parts.core top).bindings = parts.rest.bindings := by
  unfold Sql.Parts.core
  cases parts.distinct <;> rfl

/-- Only the texts of a page are different in the texts of two pages of a query. -/
theorem exists_sql (d : Dialect) (parts : Sql.Parts) : ∃ ctes first rest order : String,
    ∀ s : Surround, parts.sql d s = ctes ++ s.before ++ first ++
      (if parts.distinct.isSome then s.top else "") ++ rest ++ s.middle ++ order ++ s.behind := by
  let n := (parts.ctes.flatMap Fragment.bindings).length
  obtain ⟨ctes, hctes⟩ := exists_withClause d parts.recursive parts.ctes
  obtain ⟨first, rest, hcore⟩ := exists_core d parts n
  refine ⟨ctes, first, rest,
    String.ofList (parts.order.chars d (n + parts.rest.bindings.length)), fun s => ?_⟩
  apply String.toList_inj.1
  rw [Sql.Parts.sql, Fragment.toList_sql, hctes, Sql.Parts.within]
  simp only [Fragment.chars_append, Fragment.chars_text, Fragment.bindings_append,
    Fragment.bindings_text, bindings_core, List.nil_append, List.append_nil, List.length_nil,
    Nat.add_zero, String.toList_append, String.toList_ofList, List.append_assoc]
  rw [show (List.flatMap Fragment.bindings parts.ctes).length = n from rfl, hcore]
  simp only [String.toList_append, List.append_assoc]

end Sql.Parts

namespace Page
variable {d : Dialect} {parts : Sql.Parts} {page other : Page}

theorem optionalWord_inj {before after : String} (hbefore : before ≠ "") {x y : Option String}
    (h : optionalWord before after x = optionalWord before after y) : x = y := by
  cases x with
  | none =>
    cases y with
    | none => rfl
    | some v => simp [optionalWord, hbefore] at h
  | some w =>
    cases y with
    | none => simp [optionalWord, hbefore] at h
    | some v =>
      have hw : w = v := by simpa [optionalWord] using h
      rw [hw]

/-- The words of two pages by `LIMIT` and `OFFSET`. -/
theorem eq_of_limited {x y m n : Option String} (hx : ∀ w ∈ x, ' ' ∉ w.toList)
    (hy : ∀ w ∈ y, ' ' ∉ w.toList)
    (h : optionalWord " LIMIT " "" x ++ optionalWord " OFFSET " "" m =
      optionalWord " LIMIT " "" y ++ optionalWord " OFFSET " "" n) : x = y ∧ m = n := by
  have hdiffer (w : String) (m n : Option String) : " LIMIT " ++ w ++ "" ++
      optionalWord " OFFSET " "" m ≠ optionalWord " OFFSET " "" n := by
    intro heq
    have hlists := congrArg String.toList heq
    cases n <;> simp [optionalWord] at hlists
  -- a word of `LIMIT` goes up to the space before `OFFSET`, or to the end
  have hword {w v : String} (hw : ' ' ∉ w.toList) (hv : ' ' ∉ v.toList)
      (heq : w ++ optionalWord " OFFSET " "" m = v ++ optionalWord " OFFSET " "" n) :
      w = v ∧ m = n := by
    have hspace (offset : Option String) :
        optionalWord " OFFSET " "" offset ++ " " = " " ++ optionalWord "OFFSET " " " offset := by
      cases offset with
      | none => rfl
      | some word => exact String.toList_inj.1 (by simp [optionalWord])
    have hboth : w ++ " " ++ optionalWord "OFFSET " " " m =
        v ++ " " ++ optionalWord "OFFSET " " " n := by
      rw [String.append_assoc, String.append_assoc, ← hspace, ← hspace, ← String.append_assoc,
        ← String.append_assoc, heq]
    obtain ⟨hfirst, hrest⟩ := eq_of_firstWord hw hv hboth
    exact ⟨hfirst, optionalWord_inj (by decide) hrest⟩
  cases x with
  | none =>
    cases y with
    | none =>
      have hoffset : optionalWord " OFFSET " "" m = optionalWord " OFFSET " "" n := by
        rwa [optionalWord, String.empty_append, String.empty_append] at h
      exact ⟨rfl, optionalWord_inj (by decide) hoffset⟩
    | some v => exact absurd h.symm (hdiffer v n m)
  | some w =>
    cases y with
    | none => exact absurd h (hdiffer w m n)
    | some v =>
      have heq : w ++ optionalWord " OFFSET " "" m = v ++ optionalWord " OFFSET " "" n := by
        simpa [optionalWord, String.append_assoc] using h
      obtain ⟨rfl, rfl⟩ := hword (hx w rfl) (hy v rfl) heq
      exact ⟨rfl, rfl⟩

/-- The words of two pages by `OFFSET` and `FETCH NEXT`. -/
theorem eq_of_fetched {w v : String} {x y : Option String} (hw : ' ' ∉ w.toList)
    (hv : ' ' ∉ v.toList)
    (h : " OFFSET " ++ w ++ " ROWS" ++ optionalWord " FETCH NEXT " " ROWS ONLY" x =
      " OFFSET " ++ v ++ " ROWS" ++ optionalWord " FETCH NEXT " " ROWS ONLY" y) :
    w = v ∧ x = y := by
  have hrows (limit : Option String) : " ROWS" ++ optionalWord " FETCH NEXT " " ROWS ONLY" limit =
      " " ++ ("ROWS" ++ optionalWord " FETCH NEXT " " ROWS ONLY" limit) := by
    rw [← String.append_assoc]
    rfl
  simp only [String.append_assoc, String.append_right_inj] at h
  rw [hrows, hrows] at h
  have hwords : w ++ " " ++ ("ROWS" ++ optionalWord " FETCH NEXT " " ROWS ONLY" x) =
      v ++ " " ++ ("ROWS" ++ optionalWord " FETCH NEXT " " ROWS ONLY" y) := by
    rw [String.append_assoc, String.append_assoc, h]
  obtain ⟨rfl, hrest⟩ := eq_of_firstWord hw hv hwords
  exact ⟨rfl, optionalWord_inj (by decide) ((String.append_right_inj _).1 hrest)⟩

/-- The words of two pages by row numbers between two. -/
theorem eq_of_between {s w v : String} {x y : Option String} (hw : ' ' ∉ w.toList)
    (hv : ' ' ∉ v.toList)
    (h : s ++ (") q_" ++ optionalWord " WHERE ROWNUM <= " "" x ++ ") WHERE rn_ > " ++ w) =
      s ++ (") q_" ++ optionalWord " WHERE ROWNUM <= " "" y ++ ") WHERE rn_ > " ++ v)) :
    x = y ∧ w = v := by
  have hspace : ") WHERE rn_ > " = ") WHERE rn_ >" ++ " " := rfl
  rw [String.append_right_inj, hspace, ← String.append_assoc, ← String.append_assoc] at h
  obtain ⟨hrest, rfl⟩ := eq_of_lastWord hw hv h
  rw [String.append_left_inj, String.append_right_inj] at hrest
  exact ⟨optionalWord_inj (by decide) hrest, rfl⟩

/-- The last words of pages by row numbers differ. -/
theorem upTo_ne_between {s t w v : String} (x : Option String) (hw : ' ' ∉ w.toList)
    (hv : ' ' ∉ v.toList) : s ++ (") WHERE ROWNUM <= " ++ w) ≠
      t ++ (") q_" ++ optionalWord " WHERE ROWNUM <= " "" x ++ ") WHERE rn_ > " ++ v) := by
  intro h
  -- without the last words the texts end with different signs
  have hspace : ") WHERE rn_ > " = ") WHERE rn_ >" ++ " " := rfl
  have hspace' : ") WHERE ROWNUM <= " = ") WHERE ROWNUM <=" ++ " " := rfl
  simp only [hspace, hspace', ← String.append_assoc] at h
  obtain ⟨hrest, -⟩ := eq_of_lastWord hw hv h
  have hlast := congrArg (fun text => text.toList.reverse.head?) hrest
  simp at hlast

/-- A page that is asked for makes a text longer. -/
theorem length_sql_lt (hpage : page.Suits d parts) (hne : page ≠ whole) :
    (parts.sql d (whole.surround d parts.ordered)).length <
      (parts.sql d (page.surround d parts.ordered)).length := by
  -- a word that is there is not empty, whatever it stands between
  have hword (before after : String) (hbefore : 0 < before.length) {x : Option String}
      (hx : x ≠ none) : 0 < (optionalWord before after x).length := by
    obtain ⟨w, rfl⟩ := Option.ne_none_iff_exists'.1 hx
    simp only [optionalWord, String.length_append]
    omega
  obtain ⟨ctes, first, rest, order, hsql⟩ := parts.exists_sql d
  have hempty : "".length = 0 := rfl
  simp only [hsql, surround, ite_self, String.length_append, hempty]
  cases page with
  | whole => exact absurd rfl hne
  | limited limit offset =>
    dsimp only
    rw [String.length_append]
    rcases hpage.form.1 with hlimit | hoffset
    · have hgiven : limit.or d.noLimit ≠ none := by
        cases limit with
        | none => exact absurd rfl hlimit
        | some v => exact Option.some_ne_none v
      have hlong := hword " LIMIT " "" (by decide) hgiven
      omega
    · have hlong := hword " OFFSET " "" (by decide) hoffset
      omega
  | fetched offset limit =>
    have hlong : 0 < " OFFSET ".length := by decide
    simp only [String.length_append]
    omega
  | upTo last =>
    have hlong : 0 < "SELECT * FROM (".length := by decide
    dsimp only
    omega
  | between last offset =>
    have hlong : 0 < "SELECT * FROM (SELECT q_.*, ROWNUM rn_ FROM (".length := by decide
    dsimp only
    omega
  | top limit =>
    have hlong : 0 < " TOP ".length := by decide
    have hform : parts.distinct.isSome := Option.isSome_iff_ne_none.2 hpage.form
    simp only [if_pos hform, String.length_append]
    omega
  | topAround limit =>
    have hlong : 0 < ") AS q_".length := by decide
    dsimp only
    omega

/-- What stands behind `LIMIT` is a word. -/
theorem limitWord {limit offset : Option String} (hpage : (limited limit offset).Suits d parts) :
    ∀ w ∈ limit.or d.noLimit, ' ' ∉ w.toList := by
  intro w hw
  cases limit with
  | some v =>
    cases hw
    exact hpage.words w (by simp [words])
  | none =>
    change d.noLimit = some w at hw
    revert hw
    unfold Dialect.noLimit
    cases d.backend with
    | sqlite | mysql | mariadb =>
      rintro ⟨⟩
      decide
    | _ => rintro ⟨⟩

/-- A limit is known from what stands behind `LIMIT`. -/
theorem eq_of_or_noLimit {x y : Option String} (hx : x ≠ none → x ≠ d.noLimit)
    (hy : y ≠ none → y ≠ d.noLimit) (h : x.or d.noLimit = y.or d.noLimit) : x = y := by
  cases x with
  | none =>
    cases y with
    | none => rfl
    | some v => exact absurd h.symm (hy (Option.some_ne_none v))
  | some w =>
    cases y with
    | none => exact absurd h (hx (Option.some_ne_none w))
    | some v => exact h

/-- A text that is that of the whole query asks for no other page. -/
theorem eq_whole_of_sql (hpage : page.Suits d parts)
    (h : parts.sql d (whole.surround d parts.ordered) =
      parts.sql d (page.surround d parts.ordered)) : page = whole := by
  by_contra hne
  have hlonger := length_sql_lt hpage hne
  rw [h] at hlonger
  exact Nat.lt_irrefl _ hlonger

/-- A page is asked for in the style of the server. -/
theorem Suits.style?_eq (hpage : page.Suits d parts) (hne : page ≠ whole) :
    page.style? = some d.paginationStyle := by
  cases hs : page.style? with
  | none => cases page <;> first | exact absurd rfl hne | cases hs
  | some style => rw [hpage.style style hs]

/-- No two pages of a query are asked for by the same text. -/
theorem eq_of_sql (hpage : page.Suits d parts) (hother : other.Suits d parts)
    (h : parts.sql d (page.surround d parts.ordered) =
      parts.sql d (other.surround d parts.ordered)) : page = other := by
  by_cases hwhole : page = whole
  · subst hwhole
    exact (eq_whole_of_sql hother h).symm
  have hwhole' : other ≠ whole := by
    rintro rfl
    exact hwhole (eq_whole_of_sql hpage h.symm)
  have hstyle : page.style? = other.style? :=
    (hpage.style?_eq hwhole).trans (hother.style?_eq hwhole').symm
  obtain ⟨ctes, first, rest, order, hsql⟩ := parts.exists_sql d
  rw [hsql, hsql] at h
  -- what is the same before and behind the texts of the pages is taken away in each style
  cases page with
  | whole => exact absurd rfl hwhole
  | limited x m =>
    cases other with
    | limited y n =>
      dsimp only [surround] at h
      rw [String.append_right_inj] at h
      obtain ⟨hlimit, rfl⟩ := eq_of_limited (limitWord hpage) (limitWord hother) h
      rw [eq_of_or_noLimit hpage.form.2 hother.form.2 hlimit]
    | _ => cases hstyle
  | fetched w x =>
    cases other with
    | fetched v y =>
      dsimp only [surround] at h
      rw [String.append_right_inj] at h
      obtain ⟨rfl, rfl⟩ := eq_of_fetched (hpage.words w List.mem_cons_self)
        (hother.words v List.mem_cons_self) h
      rfl
    | _ => cases hstyle
  | upTo w =>
    cases other with
    | upTo v =>
      dsimp only [surround] at h
      rw [String.append_right_inj, String.append_right_inj] at h
      rw [h]
    | between y v =>
      dsimp only [surround] at h
      exact absurd h (upTo_ne_between y (hpage.words w (by simp [words]))
        (hother.words v (by simp [words])))
    | _ => cases hstyle
  | between x w =>
    cases other with
    | upTo v =>
      dsimp only [surround] at h
      exact absurd h.symm (upTo_ne_between x (hother.words v (by simp [words]))
        (hpage.words w (by simp [words])))
    | between y v =>
      dsimp only [surround] at h
      obtain ⟨rfl, rfl⟩ := eq_of_between (hpage.words w (by simp [words]))
        (hother.words v (by simp [words])) h
      rfl
    | _ => cases hstyle
  | top w =>
    cases other with
    | top v =>
      have hselection : parts.distinct.isSome := Option.isSome_iff_ne_none.2 hpage.form
      dsimp only [surround] at h
      rw [if_pos hselection, if_pos hselection] at h
      have hw : w = v := by simpa using h
      rw [hw]
    | topAround v => exact absurd hother.form hpage.form
    | _ => cases hstyle
  | topAround w =>
    cases other with
    | top v => exact absurd hpage.form hother.form
    | topAround v =>
      dsimp only [surround] at h
      have hw : w = v := by simpa using h
      rw [hw]
    | _ => cases hstyle

/-- The text asks for the page. -/
structure Reads (d : Dialect) (parts : Sql.Parts) (sql : String) (page : Page) : Prop where
  suits : page.Suits d parts
  text : sql = parts.sql d (page.surround d parts.ordered)

theorem Reads.unique {sql : String} (hpage : page.Reads d parts sql)
    (hother : other.Reads d parts sql) : other = page :=
  eq_of_sql hother.suits hpage.suits (hother.text.symm.trans hpage.text)

end Page

end PolyQuery
