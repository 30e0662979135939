import PolyQuery.Proofs.Bounds
import PolyQuery.Proofs.Pages

/-! The window of rows that a query is asked for. A query with a limit or an offset compiles where
it compiles without, unless the server cannot skip rows, and in each style of pagination the page
that its text asks for has exactly the rows in the window: `compile_window`. Where rows are numbered the
last number is the sum of both bounds, rounded as sums are, so that beyond the exact numbers a row may be
missing or one too many be kept: `query_lastRow`. The page has the columns of the query, except where
rows are skipped by their numbers: `query_columns`. -/
namespace PolyQuery

/-! ## The page that a query asks for -/

/-- The page that a query with these bounds asks for. -/
def Page.of (d : Dialect) (selection : Bool) (limit offset : Option Value) : Page :=
  let skip := Paging.skipped offset
  if Paging.isWhole limit offset then .whole
  else match d.paginationStyle, limit with
    | .limitOffset, _ => .limited (limit.map Value.text) (offset.map Value.text)
    | .offsetFetch, _ => .fetched skip.text (limit.map Value.text)
    | .rownum, some v =>
      if Paging.isZero skip then .upTo v.text
      else .between (some (Paging.plus skip v).text) skip.text
    | .rownum, none => .between none skip.text
    | .top, some v => if selection then .top v.text else .topAround v.text
    | .top, none => .whole

/-- Which page a query asks for: in each style of pagination, by its bounds. -/
inductive Page.Asked (d : Dialect) (selection : Bool) :
    Option Value → Option Value → Page → Prop where
  | whole : Asked d selection none none .whole
  | untopped {offset} (hstyle : d.paginationStyle = .top) : Asked d selection none offset .whole
  | limited {limit offset} (hstyle : d.paginationStyle = .limitOffset)
      (hpart : Paging.isWhole limit offset = false) : Asked d selection limit offset
        (.limited (limit.map Value.text) (offset.map Value.text))
  | fetched {limit offset} (hstyle : d.paginationStyle = .offsetFetch)
      (hpart : Paging.isWhole limit offset = false) : Asked d selection limit offset
        (.fetched (Paging.skipped offset).text (limit.map Value.text))
  | upTo {v offset} (hstyle : d.paginationStyle = .rownum)
      (hskip : Paging.isZero (Paging.skipped offset) = true) :
      Asked d selection (some v) offset (.upTo v.text)
  | between {limit offset} (hstyle : d.paginationStyle = .rownum)
      (hpart : Paging.isWhole limit offset = false)
      (hskip : Paging.isZero (Paging.skipped offset) = false ∨ limit = none) :
      Asked d selection limit offset
        (.between (limit.map fun v => (Paging.plus (Paging.skipped offset) v).text)
          (Paging.skipped offset).text)
  | top {v offset} (hstyle : d.paginationStyle = .top) (hselection : selection = true) :
      Asked d selection (some v) offset (.top v.text)
  | topAround {v offset} (hstyle : d.paginationStyle = .top) (hselection : selection = false) :
      Asked d selection (some v) offset (.topAround v.text)

namespace Page
variable {d : Dialect} {selection : Bool} {limit offset : Option Value}

theorem Asked.of_eq {page : Page} (h : Asked d selection limit offset page) :
    Page.of d selection limit offset = page := by
  cases h with
  | whole => rfl
  | untopped hstyle => simp [Page.of, hstyle]
  | limited hstyle hpart => simp [Page.of, hstyle, hpart]
  | fetched hstyle hpart => simp [Page.of, hstyle, hpart]
  | upTo hstyle hskip => simp [Page.of, hstyle, hskip, Paging.isWhole]
  | between hstyle hpart hskip =>
    cases limit with
    | none => simp [Page.of, hstyle, hpart]
    | some v => simp [Page.of, hstyle, hpart, hskip.resolve_right (Option.some_ne_none v)]
  | top hstyle hselection => simp [Page.of, hstyle, hselection, Paging.isWhole]
  | topAround hstyle hselection => simp [Page.of, hstyle, hselection, Paging.isWhole]

theorem asked_of (d : Dialect) (selection : Bool) (limit offset : Option Value) :
    Asked d selection limit offset (Page.of d selection limit offset) := by
  -- there is one page of which this holds, so it is enough to find it
  suffices hasked : ∃ page, Asked d selection limit offset page by
    obtain ⟨page, hpage⟩ := hasked
    rw [hpage.of_eq]
    exact hpage
  cases hpart : Paging.isWhole limit offset with
  | true =>
    obtain ⟨hlimit, hoffset⟩ := (Bool.and_eq_true _ _).mp hpart
    obtain rfl := Option.isNone_iff_eq_none.1 hlimit
    obtain rfl := Option.isNone_iff_eq_none.1 hoffset
    exact ⟨_, .whole⟩
  | false =>
    cases hstyle : d.paginationStyle with
    | limitOffset => exact ⟨_, .limited hstyle hpart⟩
    | offsetFetch => exact ⟨_, .fetched hstyle hpart⟩
    | rownum =>
      cases limit with
      | none => exact ⟨_, .between hstyle hpart (.inr rfl)⟩
      | some v =>
        cases hskip : Paging.isZero (Paging.skipped offset) with
        | true => exact ⟨_, .upTo hstyle hskip⟩
        | false => exact ⟨_, .between hstyle hpart (.inl hskip)⟩
    | top =>
      cases limit with
      | none => exact ⟨_, .untopped hstyle⟩
      | some v =>
        cases hselection : selection with
        | true => exact ⟨_, .top hstyle rfl⟩
        | false => exact ⟨_, .topAround hstyle rfl⟩

end Page

/-- Fragments with the same values that become the same text wherever they stand. -/
structure Fragment.Alike (d : Dialect) (f g : Fragment) : Prop where
  bindings : f.bindings = g.bindings
  chars : ∀ n, f.chars d n = g.chars d n

namespace Fragment.Alike
variable {d : Dialect} {f g : Fragment}

theorem withClause (h : f.Alike d g) (recursive : Bool) (ctes : List Fragment) :
    (Sql.withClause d recursive ctes f).Alike d (Sql.withClause d recursive ctes g) := by
  constructor
  · rw [Sql.bindings_withClause, Sql.bindings_withClause, h.bindings]
  · cases ctes with
    | nil => exact h.chars
    | cons c cs =>
      intro n
      obtain ⟨clause, hclause⟩ : ∃ clause, ∀ body,
          Sql.withClause d recursive (c :: cs) body = clause ++ body := ⟨_, fun _ => rfl⟩
      rw [hclause, hclause, Fragment.chars_append, Fragment.chars_append, h.chars]

theorem sql (h : f.Alike d g) : f.sql d = g.sql d := by
  apply String.toList_inj.1
  rw [Fragment.toList_sql, Fragment.toList_sql, h.chars]

end Fragment.Alike

namespace Sql.Parts
variable {d : Dialect} {parts : Parts} {limit offset : Option Value} {body : Fragment}

theorem bindings_within (s : Surround) :
    (parts.within s).bindings = parts.rest.bindings ++ parts.order.bindings := by
  simp [within, bindings_core]

theorem alike_within (s : Surround)
    (hbindings : body.bindings = parts.rest.bindings ++ parts.order.bindings)
    (hchars : ∀ n, body.chars d n = s.before.toList ++ (parts.core s.top).chars d n ++
      s.middle.toList ++ parts.order.chars d (n + parts.rest.bindings.length) ++ s.behind.toList) :
    body.Alike d (parts.within s) := by
  constructor
  · rw [hbindings, bindings_within]
  · intro n
    rw [hchars, within]
    simp [Fragment.chars_append, Fragment.chars_text, bindings_core]

/-- Nothing, or `TOP` in a selection. -/
theorem alike_top (top : String) :
    (parts.core top ++ parts.order).Alike d (parts.within { top := top }) := by
  apply alike_within
  · rw [Fragment.bindings_append, bindings_core]
  · intro n
    simp [Fragment.chars_append, bindings_core]

theorem chars_empty (n : Nat) : Fragment.empty.chars d n = [] := rfl

theorem alike_limitOffset :
    (Paging.limitOffset d (parts.core "") parts.order limit offset).Alike d
      (parts.within ((Page.limited (limit.map Value.text) (offset.map Value.text)).surround d
        parts.ordered)) := by
  unfold Paging.limitOffset
  apply alike_within
  · cases limit <;> cases offset <;> cases d.noLimit <;> simp [bindings_core]
  · intro n
    cases limit <;> cases offset <;> cases hnone : d.noLimit <;>
      simp [Page.surround, Page.optionalWord, Fragment.chars_append, Fragment.chars_text,
        bindings_core, chars_empty, hnone]

theorem alike_offsetFetch (hordered : parts.ordered = false → parts.order = Fragment.empty) :
    (Paging.offsetFetch d (parts.core "") parts.order parts.ordered limit offset).Alike d
      (parts.within ((Page.fetched (Paging.skipped offset).text (limit.map Value.text)).surround d
        parts.ordered)) := by
  unfold Paging.offsetFetch
  cases hinsists : !parts.ordered && d.offsetNeedsOrder with
  | true =>
    have hnone : parts.order = Fragment.empty := by
      apply hordered
      simpa using ((Bool.and_eq_true _ _).mp hinsists).1
    apply alike_within
    · cases limit <;> simp [bindings_core, hnone]
    · intro n
      cases limit <;>
        simp [Page.surround, Page.optionalWord, Fragment.chars_append, Fragment.chars_text,
          bindings_core, chars_empty, hnone, hinsists]
  | false =>
    apply alike_within
    · cases limit <;> simp [bindings_core]
    · intro n
      cases limit <;>
        simp [Page.surround, Page.optionalWord, Fragment.chars_append, Fragment.chars_text,
          bindings_core, chars_empty, hinsists]

theorem alike_upTo (hskip : Paging.isZero (Paging.skipped offset) = true) (v : Value) :
    (Paging.rownum (parts.core "") parts.order (some v) offset).Alike d
      (parts.within ((Page.upTo v.text).surround d parts.ordered)) := by
  unfold Paging.rownum
  dsimp only
  rw [if_pos hskip]
  apply alike_within
  · simp [bindings_core]
  · intro n
    simp [Page.surround, Fragment.chars_append, Fragment.chars_text, bindings_core]

theorem alike_between (hskip : Paging.isZero (Paging.skipped offset) = false ∨ limit = none) :
    (Paging.rownum (parts.core "") parts.order limit offset).Alike d
      (parts.within ((Page.between
        (limit.map fun v => (Paging.plus (Paging.skipped offset) v).text)
        (Paging.skipped offset).text).surround d parts.ordered)) := by
  unfold Paging.rownum
  apply alike_within
  · cases limit with
    | none => simp [bindings_core]
    | some v => simp [bindings_core, hskip.resolve_right (Option.some_ne_none v)]
  · intro n
    cases limit with
    | none =>
      simp [Page.surround, Page.optionalWord, Fragment.chars_append, Fragment.chars_text,
        bindings_core]
    | some v =>
      simp [Page.surround, Page.optionalWord, Fragment.chars_append, Fragment.chars_text,
        bindings_core, hskip.resolve_right (Option.some_ne_none v)]

theorem alike_topped (v : Value) : (Paging.topped (parts.core "") parts.order v).Alike d
    (parts.within ((Page.topAround v.text).surround d parts.ordered)) := by
  apply alike_within
  · simp [Paging.topped, bindings_core]
  · intro n
    simp [Paging.topped, Page.surround, Fragment.chars_append, Fragment.chars_text,
      bindings_core]

/-- A query with the end of its page is the query among the texts of its page. -/
theorem alike_finish (hordered : parts.ordered = false → parts.order = Fragment.empty)
    (h : parts.finish d (some ⟨limit, offset⟩) = .ok body) : body.Alike d
      (parts.within ((Page.of d parts.distinct.isSome limit offset).surround d parts.ordered)) := by
  have hbare (hnone : topLimit d (some ⟨limit, offset⟩) = none) :
      parts.core (topWords (topLimit d (some ⟨limit, offset⟩))) = parts.core "" := by
    rw [hnone]
    rfl
  have hplain (hstyle : d.paginationStyle ≠ .top) :
      topLimit d (some ⟨limit, offset⟩) = none := if_neg hstyle
  -- one case for each way to end a query, where the page is the one that is asked for so
  have hends := Paging.finish_ok h
  simp only [Option.bind_some] at hends
  rcases hends with ⟨rfl, hall | ⟨hstyle, hrest⟩⟩ | ⟨rfl, hstyle, hpart⟩ |
    ⟨rfl, hstyle, hpart⟩ | ⟨rfl, hstyle, hpart⟩ | ⟨v, hlimit, rfl, hstyle, happlied⟩
  · obtain ⟨hlimit, hoffset⟩ := (Bool.and_eq_true _ _).mp hall
    obtain rfl := Option.isNone_iff_eq_none.1 hlimit
    obtain rfl := Option.isNone_iff_eq_none.1 hoffset
    have hnone : topLimit d (some ⟨none, none⟩) = none := ite_self _
    rw [hbare hnone, Page.Asked.whole.of_eq]
    exact alike_top ""
  · have htop : topLimit d (some ⟨limit, offset⟩) = limit := if_pos hstyle
    cases limit with
    | none =>
      rw [hbare htop, (Page.Asked.untopped hstyle).of_eq]
      exact alike_top ""
    | some v =>
      have hselection : parts.distinct.isSome = true := by
        have happlied := hrest.resolve_left (Option.some_ne_none v)
        exact ((Bool.and_eq_true _ _).mp happlied).1
      rw [htop, (Page.Asked.top hstyle hselection).of_eq]
      exact alike_top _
  · rw [hbare (hplain (by rw [hstyle]; decide)), (Page.Asked.limited hstyle hpart).of_eq]
    exact alike_limitOffset
  · rw [hbare (hplain (by rw [hstyle]; decide)), (Page.Asked.fetched hstyle hpart).of_eq]
    exact alike_offsetFetch hordered
  · rw [hbare (hplain (by rw [hstyle]; decide))]
    cases limit with
    | none =>
      rw [(Page.Asked.between hstyle hpart (.inr rfl)).of_eq]
      exact alike_between (.inr rfl)
    | some v =>
      cases hskip : Paging.isZero (Paging.skipped offset) with
      | true =>
        rw [(Page.Asked.upTo hstyle hskip).of_eq]
        exact alike_upTo hskip v
      | false =>
        rw [(Page.Asked.between hstyle hpart (.inl hskip)).of_eq]
        exact alike_between (.inl hskip)
  · cases hlimit
    have htop : topLimit d (some ⟨some v, offset⟩) = some v := if_pos hstyle
    have hcombined : parts.distinct.isSome = false := by
      rwa [htop, Option.isSome_some, Bool.and_true] at happlied
    have hnone : parts.distinct = none :=
      Option.isNone_iff_eq_none.1 (Option.isSome_eq_false_iff.1 hcombined)
    -- a combination has no place for `TOP` among its first words
    have hcore (top : String) : parts.core top = parts.core "" := by
      unfold core
      rw [hnone]
    rw [hcore, (Page.Asked.topAround hstyle hcombined).of_eq]
    exact alike_topped v

end Sql.Parts

/-! ## The rows that a query asks for -/

namespace Page

section Numbers
variable {α : Type} {rows : List α} {last skip n : Nat}

/-- Without a condition the rows are numbered one after another. -/
theorem numbered_all {keep : Nat → Bool} (hkeep : ∀ m, keep m = true) (n : Nat) (rows : List α) :
    numbered keep n rows = rows.zipIdx n := by
  induction rows generalizing n with
  | nil => rfl
  | cons row rows ih => rw [numbered, if_pos (hkeep n), ih, List.zipIdx_cons]

/-- Behind the last number that is kept no row is: none is numbered any more. -/
theorem numbered_none {keep : Nat → Bool} (hkeep : keep n = false) :
    numbered keep n rows = [] := by
  induction rows with
  | nil => rfl
  | cons row rows ih =>
    rw [numbered, if_neg (by rw [hkeep]; decide)]
    exact ih

/-- The rows up to a number are the first ones. -/
theorem numbered_le (last n : Nat) (rows : List α) :
    numbered (· ≤ last) n rows = (rows.take (last + 1 - n)).zipIdx n := by
  induction rows generalizing n with
  | nil => rw [List.take_nil]; rfl
  | cons row rows ih =>
    -- a row that is not kept leaves its number to the next, so none is kept from there on
    by_cases hle : n ≤ last
    · have hcount : last + 1 - n = last + 1 - (n + 1) + 1 := by omega
      rw [numbered, if_pos (decide_eq_true hle), ih, hcount, List.take_succ_cons, List.zipIdx_cons]
    · have hcount : last + 1 - n = 0 := by omega
      rw [numbered_none (decide_eq_false hle), hcount]
      rfl

/-- The rows with greater numbers are those behind the row with the number. -/
theorem filter_zipIdx (skip n : Nat) (rows : List α) :
    ((rows.zipIdx n).filter fun (_, m) => skip < m).map Prod.fst = rows.drop (skip + 1 - n) := by
  induction rows generalizing n with
  | nil => rw [List.drop_nil]; rfl
  | cons row rows ih =>
    rw [List.zipIdx_cons]
    by_cases hlt : skip < n
    · have hcount : skip + 1 - n = 0 := by omega
      have hnext : skip + 1 - (n + 1) = 0 := by omega
      rw [List.filter_cons_of_pos (by simpa using hlt), List.map_cons, ih, hcount, hnext]
      rfl
    · have hcount : skip + 1 - n = skip + 1 - (n + 1) + 1 := by omega
      rw [List.filter_cons_of_neg (by simpa using hlt), ih, hcount, List.drop_succ_cons]

end Numbers

variable {d : Dialect} {parts : Sql.Parts} {limit offset : Option Value}

/-- The bounds of a page, as they are read. -/
theorem bound?_map {bound : Option Value} (h : ∀ v, bound = some v → v.IsBound) :
    bound? (bound.map Value.text) = some (bound.map Value.count) := by
  cases bound with
  | none => rfl
  | some v =>
    change (numeral? v.text).map some = some (some v.count)
    rw [(h v rfl).text, numeral?_repr]
    rfl

theorem suits_whole : whole.Suits d parts :=
  ⟨fun _ hstyle => (nomatch hstyle), trivial, fun _ hword => nomatch hword⟩

/-- A page with valid bounds may be asked of the server. -/
theorem Asked.suits {page : Page} (h : Asked d parts.distinct.isSome limit offset page)
    (hpage : Pagination.Valid (some ⟨limit, offset⟩)) : page.Suits d parts := by
  obtain ⟨hlimit, hoffset⟩ := hpage _ rfl
  obtain ⟨hskip, -⟩ := Value.IsBound.skipped hoffset
  -- bounds are numbers, and these have no blanks in their texts
  have hword {bound : Option Value} (h : ∀ v, bound = some v → v.IsBound) :
      ∀ w ∈ (bound.map Value.text).toList, ' ' ∉ w.toList := by
    cases bound with
    | none => exact fun w hw => nomatch hw
    | some v =>
      intro w hw
      obtain rfl := List.mem_singleton.1 hw
      exact (h v rfl).space_notMem
  cases h with
  | whole => exact suits_whole
  | untopped hstyle => exact suits_whole
  | limited hstyle hpart =>
    refine ⟨fun _ hs => by cases hs; exact hstyle, ⟨?_, ?_⟩, ?_⟩
    · rw [Paging.isWhole] at hpart
      cases limit <;> cases offset <;> simp_all
    · cases limit with
      | none => exact fun hne => absurd rfl hne
      | some v => exact fun _ => (hlimit v rfl).text_ne_noLimit
    · intro w hw
      rcases List.mem_append.1 hw with hw | hw
      · exact hword hlimit w hw
      · exact hword hoffset w hw
  | fetched hstyle hpart =>
    refine ⟨fun _ hs => by cases hs; exact hstyle, trivial, ?_⟩
    intro w hw
    rcases List.mem_cons.1 hw with rfl | hw
    · exact hskip.space_notMem
    · exact hword hlimit w hw
  | upTo hstyle hzero => exact ⟨fun _ hs => by cases hs; exact hstyle, trivial, hword hlimit⟩
  | between hstyle hpart hzero =>
    refine ⟨fun _ hs => by cases hs; exact hstyle, trivial, ?_⟩
    intro w hw
    rcases List.mem_append.1 hw with hw | hw
    · cases limit with
      | none => cases hw
      | some v =>
        obtain rfl := List.mem_singleton.1 hw
        exact hskip.space_notMem_plus (hlimit v rfl)
    · obtain rfl := List.mem_singleton.1 hw
      exact hskip.space_notMem
  | top hstyle hselection =>
    refine ⟨fun _ hs => by cases hs; exact hstyle, ?_, hword hlimit⟩
    exact Option.isSome_iff_ne_none.1 hselection
  | topAround hstyle hselection =>
    refine ⟨fun _ hs => by cases hs; exact hstyle, ?_, hword hlimit⟩
    exact Option.isNone_iff_eq_none.1 (Option.isSome_eq_false_iff.1 hselection)

theorem map_fst_map {α : Type} (rows : List α) :
    (rows.map fun row => (row, (none : Option Nat))).map Prod.fst = rows := by
  rw [List.map_map]
  exact List.map_id rows

/-- The rows between two numbers are the first ones without those that are skipped. -/
theorem result?_between {α : Type} (rows : List α) {last : Option String} {offset : String}
    {kept : Option Nat} {skip : Nat} (hlast : bound? last = some kept)
    (hoffset : numeral? offset = some skip) :
    ((between last offset).result? rows).map (List.map Prod.fst) =
      some (((kept.map fun k => rows.take k).getD rows).drop skip) := by
  -- the selection inside cuts the end off, the one around it the beginning
  have hnumbered : numbered (fun n => kept.all (n ≤ ·)) 1 rows =
      ((kept.map fun k => rows.take k).getD rows).zipIdx 1 := by
    cases kept with
    | none => exact numbered_all (fun _ => rfl) 1 rows
    | some k => exact numbered_le k 1 rows
  have hfirst : Prod.fst ∘ (fun (row, n) => (row, some n) : α × Nat → α × Option Nat) = Prod.fst :=
    rfl
  rw [result?, hlast, hoffset]
  calc (some (((numbered (fun n => kept.all (n ≤ ·)) 1 rows).filter fun (_, n) => skip < n).map
          fun (row, n) => (row, some n))).map (List.map Prod.fst)
      = some (((((kept.map fun k => rows.take k).getD rows).zipIdx 1).filter
          fun (_, n) => skip < n).map Prod.fst) := by
        rw [hnumbered, Option.map_some, List.map_map, hfirst]
    _ = some (((kept.map fun k => rows.take k).getD rows).drop skip) := by
        rw [filter_zipIdx]
        rfl

/-- The rows of the page that a query asks for. -/
theorem Asked.result? {α : Type} {page : Page} {selection : Bool}
    (h : Asked d selection limit offset page) (rows : List α)
    (hpage : Pagination.Valid (some ⟨limit, offset⟩))
    (hsum : Value.countOf limit + Value.countOf offset ≤ Number.maxSafe.toNat)
    (hserved : d.paginationStyle = .top → Value.countOf offset = 0) :
    (page.result? rows).map (List.map Prod.fst) =
      some (window (limit.map Value.count) (Value.countOf offset) rows) := by
  obtain ⟨hlimit, hoffset⟩ := hpage _ rfl
  obtain ⟨hskip, hcount⟩ := Value.IsBound.skipped hoffset
  have hskipText : numeral? (Paging.skipped offset).text = some (Value.countOf offset) := by
    rw [hskip.text, numeral?_repr, hcount]
  have hnumeral (v : Value) (hv : limit = some v) : numeral? v.text = some v.count := by
    rw [(hlimit v hv).text, numeral?_repr]
  have hnobound : bound? none = some none := rfl
  cases h with
  | whole => exact congrArg some (map_fst_map rows)
  | untopped hstyle =>
    -- without a limit there is nothing to ask a server with `TOP` for, as no rows are skipped
    rw [hserved hstyle]
    exact congrArg some (map_fst_map rows)
  | limited hstyle hpart =>
    rw [Page.result?, bound?_map hlimit, bound?_map hoffset]
    exact congrArg some (map_fst_map _)
  | fetched hstyle hpart =>
    rw [Page.result?, bound?_map hlimit, hskipText]
    exact congrArg some (map_fst_map _)
  | @upTo v _ hstyle hzero =>
    have hnone : Value.countOf offset = 0 := by rw [← hcount, ← hskip.isZero, hzero]
    rw [hnone, Page.result?, hnumeral v rfl]
    change some (((numbered (· ≤ v.count) 1 rows).map fun (row, _) => (row, none)).map
      Prod.fst) = some (rows.take v.count)
    rw [numbered_le, List.map_map]
    exact congrArg some (List.zipIdx_map_fst 1 (rows.take v.count))
  | between hstyle hpart hzero =>
    cases limit with
    | none => exact result?_between rows hnobound hskipText
    | some v =>
      -- the last number is the sum of both bounds: this is where the sum has to be exact
      have hlast : bound? (some (Paging.plus (Paging.skipped offset) v).text) =
          some (some (Value.countOf offset + v.count)) := by
        rw [bound?, hskip.text_plus (hlimit v rfl) (by rw [hcount, Nat.add_comm]; exact hsum),
          numeral?_repr, hcount, Option.map_some]
      rw [Option.map_some, result?_between rows hlast hskipText]
      exact congrArg some (by simp [window, List.drop_take])
  | @top v _ hstyle hselection =>
    rw [hserved hstyle, Page.result?, hnumeral v rfl]
    exact congrArg some (map_fst_map _)
  | @topAround v _ hstyle hselection =>
    rw [hserved hstyle, Page.result?, hnumeral v rfl]
    exact congrArg some (map_fst_map _)

end Page

/-! ## Queries with pages -/

theorem Pagination.Valid.none : Pagination.Valid none := fun _ hpage => nomatch hpage

/-- A valid page changes nothing for the checks. -/
theorem Plan.checkQuery_paged (q : Query) {page : Option Pagination}
    (hpage : Pagination.Valid page) : checkQuery (q.paged page) = checkQuery (q.paged none) := by
  have hchecked : checkPagination page = .ok () := (checks_pagination page).passes.2 hpage
  have hnone : checkPagination none = .ok () := rfl
  cases q with
  | select p => simp only [Query.paged, checkQuery, checkSelect, hchecked, hnone]
  | combined p => simp only [Query.paged, checkQuery, checkSet, hchecked, hnone]

namespace Sql.Parts
variable {d : Dialect} {limit offset : Option Value}

/-- Only a server with `TOP` refuses a page, and only one that skips rows. -/
theorem finish_refused (parts : Parts) (hpage : Pagination.Valid (some ⟨limit, offset⟩))
    (hstyle : d.paginationStyle = .top) (hskip : 0 < Value.countOf offset) :
    parts.finish d (some ⟨limit, offset⟩) = .error (.unsupportedFeature d.label none "OFFSET"
      (some "requires OFFSET/FETCH support")) := by
  cases offset with
  | none => cases hskip
  | some v =>
    have hpositive : (Number.int 0).lt v.toNumber = true := by
      rw [((hpage _ rfl).2 v rfl).lt_toNumber]
      exact decide_eq_true hskip
    have hpart : Paging.isWhole limit (some v) = false := Bool.and_false _
    simp [finish, Paging.finish, hpart, hstyle, Paging.top, hpositive]

/-- `TOP` is there for every page that skips no rows. -/
theorem exists_top {core order : Fragment} (hoffset : ∀ v, offset = some v → v.IsBound)
    (hzero : Value.countOf offset = 0) (applied : Bool) :
    ∃ body, Paging.top d core order limit offset applied = .ok body := by
  have hnone : Paging.top d core order limit offset applied =
      Paging.top d core order limit none applied := by
    cases offset with
    | none => rfl
    | some v =>
      have hnegative : (Number.int 0).lt v.toNumber = false := by
        rw [(hoffset v rfl).lt_toNumber]
        exact decide_eq_false (Nat.not_lt.2 (Nat.le_of_eq hzero))
      simp [Paging.top, hnegative]
  rw [hnone]
  cases limit with
  | none => exact ⟨_, rfl⟩
  | some v =>
    cases applied with
    | true => exact ⟨_, rfl⟩
    | false => exact ⟨_, rfl⟩

theorem exists_finish (parts : Parts) (hpage : Pagination.Valid (some ⟨limit, offset⟩))
    (hserved : ¬ (d.paginationStyle = .top ∧ 0 < Value.countOf offset)) :
    ∃ body, parts.finish d (some ⟨limit, offset⟩) = .ok body := by
  unfold finish Paging.finish
  simp only [Option.bind_some]
  split
  · exact ⟨_, rfl⟩
  · cases hstyle : d.paginationStyle with
    | top =>
      have hzero : Value.countOf offset = 0 := by
        by_contra hskip
        exact hserved ⟨hstyle, Nat.pos_of_ne_zero hskip⟩
      exact exists_top (hpage _ rfl).2 hzero _
    | _ => exact ⟨_, rfl⟩

/-- A query without a page. -/
theorem finish_none (parts : Parts) :
    parts.finish d none = .ok (parts.core "" ++ parts.order) := by
  have hnone : topLimit d none = none := ite_self _
  rw [finish, hnone]
  rfl

end Sql.Parts

/-- The statement with the end of its page in it. -/
def Sql.Parts.compiled (d : Dialect) (parts : Sql.Parts) (body : Fragment) : Compiled :=
  let f := Sql.withClause d parts.recursive parts.ctes body
  ⟨f.sql d, f.bindings⟩

section Reading
variable {d : Dialect} {q : Query} {parts : Sql.Parts} {limit offset : Option Value}
  {body : Fragment}

/-- The text of a query without a page asks for all of it. -/
theorem reads_whole (d : Dialect) (parts : Sql.Parts) :
    Page.whole.Reads d parts (parts.compiled d (parts.core "" ++ parts.order)).sql :=
  ⟨Page.suits_whole, ((Sql.Parts.alike_top "").withClause parts.recursive parts.ctes).sql⟩

/-- The text of a query with a page asks for this page. -/
theorem reads_of (hpage : Pagination.Valid (some ⟨limit, offset⟩))
    (hparts : Sql.parts d q = .ok parts)
    (hbody : parts.finish d (some ⟨limit, offset⟩) = .ok body) :
    (Page.of d parts.distinct.isSome limit offset).Reads d parts (parts.compiled d body).sql := by
  have halike := Sql.Parts.alike_finish (Sql.parts_order hparts) hbody
  exact ⟨(Page.asked_of _ _ _ _).suits hpage, (halike.withClause parts.recursive parts.ctes).sql⟩

/-- A page binds no values. -/
theorem bindings_of (hparts : Sql.parts d q = .ok parts)
    (hbody : parts.finish d (some ⟨limit, offset⟩) = .ok body) :
    (parts.compiled d body).bindings =
      (parts.compiled d (parts.core "" ++ parts.order)).bindings := by
  have halike := Sql.Parts.alike_finish (Sql.parts_order hparts) hbody
  have hwhole : (parts.core "" ++ parts.order).Alike d (parts.within {}) := Sql.Parts.alike_top ""
  unfold Sql.Parts.compiled
  dsimp only
  rw [Sql.bindings_withClause, Sql.bindings_withClause, halike.bindings, hwhole.bindings,
    Sql.Parts.bindings_within, Sql.Parts.bindings_within]

/-- A query with a valid page is checked as it is without; then its parts are written, and last the
end of its page. -/
theorem compile_paged (d : Dialect) (q : Query) {page : Option Pagination}
    (hpage : Pagination.Valid page) :
    compile d (.query (q.paged page)) = (do
      Plan.checkQuery (q.paged none)
      let parts ← Sql.parts d q
      (parts.finish d page).map (parts.compiled d)) := by
  unfold compile
  simp only [Plan.check, Sql.statement, Plan.checkQuery_paged q hpage, Sql.query_paged, bind_assoc,
    pure_bind]
  rfl

/-- A query that passes the checks and whose parts are written compiles if its page is written. -/
theorem compile_parts {page : Option Pagination}
    (hchecked : Plan.checkQuery (q.paged none) = .ok ()) (hparts : Sql.parts d q = .ok parts)
    (hpage : Pagination.Valid page) : compile d (.query (q.paged page)) =
      (parts.finish d page).map (parts.compiled d) := by
  rw [compile_paged d q hpage, hchecked, hparts]
  rfl

end Reading

/-- A query with a page compiles exactly if it compiles without, unless the server has only `TOP`
and rows are to be skipped. Its text is the text of the query without its page and the words for one
page, and that page has the rows of the query behind those that are skipped, up to the limit; it may
show their numbers beside them. -/
theorem compile_window (d : Dialect) (q : Query) {limit offset : Option Value}
    (hpage : Pagination.Valid (some ⟨limit, offset⟩))
    (hsum : Value.countOf limit + Value.countOf offset ≤ Number.maxSafe.toNat) :
    let bare := compile d (.query (q.paged none))
    let paged := compile d (.query (q.paged (some ⟨limit, offset⟩)))
    (∀ e, bare = .error e → paged = .error e) ∧
    ∀ c, bare = .ok c →
      if d.paginationStyle = .top ∧ 0 < Value.countOf offset then
        paged = .error (.unsupportedFeature d.label none "OFFSET"
          (some "requires OFFSET/FETCH support"))
      else ∃ c' parts page, paged = .ok c' ∧ c'.bindings = c.bindings ∧
        Sql.parts d q = .ok parts ∧ Page.whole.Reads d parts c.sql ∧
        page.Reads d parts c'.sql ∧ (∀ other : Page, other.Reads d parts c'.sql → other = page) ∧
        ∀ {α : Type} (rows : List α), (page.result? rows).map (List.map Prod.fst) =
          some (Page.window (limit.map Value.count) (Value.countOf offset) rows) := by
  dsimp only
  -- the checks and all parts but the end are those of the query without its page
  cases hchecked : Plan.checkQuery (q.paged none) with
  | error e =>
    have hfails {page : Option Pagination} (hvalid : Pagination.Valid page) :
        compile d (.query (q.paged page)) = .error e := by
      rw [compile_paged d q hvalid, hchecked]
      rfl
    rw [hfails hpage, hfails .none]
    exact ⟨fun _ he => he, fun _ hc => nomatch hc⟩
  | ok u =>
    cases hparts : Sql.parts d q with
    | error e =>
      have hfails {page : Option Pagination} (hvalid : Pagination.Valid page) :
          compile d (.query (q.paged page)) = .error e := by
        rw [compile_paged d q hvalid, hchecked, hparts]
        rfl
      rw [hfails hpage, hfails .none]
      exact ⟨fun _ he => he, fun _ hc => nomatch hc⟩
    | ok parts =>
      rw [compile_parts hchecked hparts hpage, compile_parts hchecked hparts .none,
        Sql.Parts.finish_none]
      refine ⟨fun _ he => (nomatch he), ?_⟩
      rintro c ⟨⟩
      by_cases hrefused : d.paginationStyle = .top ∧ 0 < Value.countOf offset
      · rw [if_pos hrefused, Sql.Parts.finish_refused parts hpage hrefused.1 hrefused.2]
        rfl
      · obtain ⟨body, hbody⟩ := parts.exists_finish hpage hrefused
        have hreads := reads_of hpage hparts hbody
        rw [if_neg hrefused, hbody]
        refine ⟨parts.compiled d body, parts, Page.of d parts.distinct.isSome limit offset, rfl,
          bindings_of hparts hbody, rfl, reads_whole d parts, hreads,
          fun _ hother => hreads.unique hother, ?_⟩
        intro α rows
        apply (Page.asked_of _ _ _ _).result? rows hpage hsum
        intro hstyle
        by_contra hskip
        exact hrefused ⟨hstyle, Nat.pos_of_ne_zero hskip⟩

/-- The first column of a table. -/
def firstColumn : Query := .select {
  items := [.column none "a" none], source := some (.table "t" none), joins := [],
  condition := none, groupBy := [], having := none, orderBy := [], pagination := none,
  distinct := false, ctes := [] }

/-- An Oracle server that numbers rows to cut pages. -/
def rownumServer : Dialect := ⟨.oracle, .of 11 2 0⟩

/-- Two rows behind the first. -/
def secondPage : Pagination := ⟨some (.number (.int 2)), some (.number (.int 1))⟩

theorem secondPage_valid : Pagination.Valid (some secondPage) := by
  rintro page ⟨⟩
  constructor
  · rintro v ⟨⟩
    exact .inr ⟨2, by decide, rfl⟩
  · rintro v ⟨⟩
    exact .inr ⟨1, by decide, rfl⟩

/-- What is written for the column of the table and for its second page. -/
theorem written_secondPage : ∃ parts body, Sql.parts rownumServer firstColumn = .ok parts ∧
    parts.finish rownumServer (some secondPage) = .ok body ∧
    Sql.query rownumServer (firstColumn.paged (some secondPage)) =
      .ok (Sql.withClause rownumServer parts.recursive parts.ctes body) ∧
    compile rownumServer (.query (firstColumn.paged (some secondPage))) =
      .ok (parts.compiled rownumServer body) ∧
    compile rownumServer (.query (firstColumn.paged none)) =
      .ok (parts.compiled rownumServer (parts.core "" ++ parts.order)) := by
  have hchecked : Plan.checkQuery (firstColumn.paged none) = .ok () := rfl
  obtain ⟨parts, hparts⟩ : ∃ parts, Sql.parts rownumServer firstColumn = .ok parts := ⟨_, rfl⟩
  obtain ⟨body, hbody⟩ : ∃ body, parts.finish rownumServer (some secondPage) = .ok body :=
    parts.exists_finish secondPage_valid (by decide)
  refine ⟨parts, body, hparts, hbody, ?_, ?_, ?_⟩
  · rw [Sql.query_paged, hparts]
    change (parts.finish rownumServer (some secondPage) >>= fun body => _) = _
    rw [hbody]
    rfl
  · rw [compile_parts hchecked hparts secondPage_valid, hbody]
    rfl
  · rw [compile_parts hchecked hparts .none, Sql.Parts.finish_none]
    rfl

theorem compile_window_secondPage : Pagination.Valid (some secondPage) ∧
    Value.countOf secondPage.limit + Value.countOf secondPage.offset ≤ Number.maxSafe.toNat ∧
    ∃ c parts page, compile rownumServer (.query (firstColumn.paged (some secondPage))) = .ok c ∧
      Sql.parts rownumServer firstColumn = .ok parts ∧ page.Reads rownumServer parts c.sql ∧
      (∀ other : Page, other.Reads rownumServer parts c.sql → other = page) ∧
      ∀ {α : Type} (rows : List α),
        (page.result? rows).map (List.map Prod.fst) = some ((rows.drop 1).take 2) := by
  have hsum : Value.countOf secondPage.limit + Value.countOf secondPage.offset ≤
      Number.maxSafe.toNat := by decide
  obtain ⟨_, _, -, -, -, -, hbare⟩ := written_secondPage
  have hserved := (compile_window rownumServer firstColumn secondPage_valid hsum).2 _ hbare
  rw [if_neg (by decide)] at hserved
  obtain ⟨c, parts, page, hc, -, hparts, -, hreads, hunique, hrows⟩ := hserved
  exact ⟨secondPage_valid, hsum, c, parts, page, hc, hparts, hreads, hunique, hrows⟩

/-! ## The last row -/

/-- Where rows are numbered, a query with both bounds is written if it is written without them, and its
text can only be read as asking for the rows up to one number and behind another. The latter is the
offset. The former is the sum of the bounds as it is rounded, which is the sum itself exactly if that is
at most `2 ^ 53` or even; the page has the rows up to the rounded sum. -/
theorem query_lastRow {d : Dialect} {q : Query} {limit offset : Value} {bare : Fragment}
    (hstyle : d.paginationStyle = .rownum)
    (hchecked : Plan.checkPagination (some ⟨some limit, some offset⟩) = .ok ())
    (hpositive : 0 < offset.count) (hbare : Sql.query d (q.paged none) = .ok bare) :
    ∃ f parts last, Sql.query d (q.paged (some ⟨some limit, some offset⟩)) = .ok f ∧
      Sql.parts d q = .ok parts ∧
      (∀ page : Page, page.Reads d parts (f.sql d) ↔
        page = .between (some last) (toString offset.count)) ∧
      last = toString (Number.nearestNat (offset.count + limit.count)) ∧
      (last = toString (offset.count + limit.count) ↔
        offset.count + limit.count ≤ 2 ^ 53 ∨ 2 ∣ offset.count + limit.count) ∧
      ∀ {α : Type} (rows : List α),
        ((Page.between (some last) (toString offset.count)).result? rows).map (List.map Prod.fst) =
          some ((rows.take (Number.nearestNat (offset.count + limit.count))).drop offset.count) := by
  have hpage : Pagination.Valid (some ⟨some limit, some offset⟩) :=
    (Plan.checks_pagination _).passes.1 hchecked
  obtain ⟨hlimit, hoffset⟩ := hpage _ rfl
  obtain ⟨hskip, hcount⟩ := Value.IsBound.skipped hoffset
  have hcount : (Paging.skipped (some offset)).count = offset.count := hcount
  have hnonzero : Paging.isZero (Paging.skipped (some offset)) = false := by
    rw [Bool.eq_false_iff, ne_eq, hskip.isZero, hcount]
    exact Nat.ne_of_gt hpositive
  -- the page that the bounds ask for, with both of its words
  have hlast : (Paging.plus (Paging.skipped (some offset)) limit).text =
      toString (Number.nearestNat (offset.count + limit.count)) := by
    rw [hskip.text_plus_nearest (hlimit limit rfl), hcount]
  have hof (selection : Bool) : Page.of d selection (some limit) (some offset) =
      .between (some (toString (Number.nearestNat (offset.count + limit.count))))
        (toString offset.count) := by
    rw [(Page.Asked.between hstyle rfl (.inl hnonzero)).of_eq, Option.map_some, hlast, hskip.text,
      hcount]
  -- its text is that of the query without a page, and can be read in no other way
  rw [Sql.query_paged] at hbare
  obtain ⟨parts, hparts, -⟩ := bind_eq_ok.1 hbare
  have hserved : ¬ (d.paginationStyle = .top ∧ 0 < Value.countOf (some offset)) := by
    rw [hstyle]
    exact fun h => nomatch h.1
  obtain ⟨body, hbody⟩ := parts.exists_finish hpage hserved
  have hquery : Sql.query d (q.paged (some ⟨some limit, some offset⟩)) =
      .ok (Sql.withClause d parts.recursive parts.ctes body) := by
    rw [Sql.query_paged, hparts]
    change (parts.finish d _ >>= fun body => _) = _
    rw [hbody]
    rfl
  have hreads := reads_of hpage hparts hbody
  rw [hof] at hreads
  refine ⟨_, parts, _, hquery, hparts, fun page => ⟨fun hother => ?_, fun heq => ?_⟩, rfl, ?_, ?_⟩
  · exact hreads.unique hother
  · rw [heq]
    exact hreads
  · rw [← Number.nearestNat_eq_iff]
    constructor
    · intro hsame
      have hnumber := congrArg numeral? hsame
      rw [numeral?_repr, numeral?_repr] at hnumber
      exact Option.some.inj hnumber
    · exact congrArg toString
  · intro α rows
    have hkept : Page.bound? (some (toString (Number.nearestNat (offset.count + limit.count)))) =
        some (some (Number.nearestNat (offset.count + limit.count))) := by
      rw [Page.bound?, numeral?_repr, Option.map_some]
    rw [Page.result?_between rows hkept (numeral?_repr _)]
    rfl

/-- The greatest bound. -/
def greatest : Value := .number (.int 9007199254740991)

/-- The sum of the greatest bounds is far beyond the exact numbers, but even. -/
theorem query_lastRow_greatest :
    rownumServer.paginationStyle = .rownum ∧
    Plan.checkPagination (some ⟨some greatest, some greatest⟩) = .ok () ∧ 0 < greatest.count ∧
    ∃ f parts, Sql.query rownumServer (firstColumn.paged (some ⟨some greatest, some greatest⟩)) = .ok f ∧
      Sql.parts rownumServer firstColumn = .ok parts ∧
      ∀ page : Page, page.Reads rownumServer parts (f.sql rownumServer) ↔
        page = .between (some "18014398509481982") "9007199254740991" := by
  have hstyle : rownumServer.paginationStyle = .rownum := by decide
  have hchecked : Plan.checkPagination (some ⟨some greatest, some greatest⟩) = .ok () := rfl
  have hpositive : 0 < greatest.count := by decide
  obtain ⟨bare, hbare⟩ : ∃ bare, Sql.query rownumServer (firstColumn.paged none) = .ok bare := ⟨_, rfl⟩
  obtain ⟨f, parts, last, hquery, hparts, hreads, -, hexact, -⟩ :=
    query_lastRow hstyle hchecked hpositive hbare
  have hlast : last = "18014398509481982" := by
    rw [hexact.2 (.inr (by decide))]
    decide +kernel
  have hskip : toString greatest.count = "9007199254740991" := by decide +kernel
  rw [hlast, hskip] at hreads
  exact ⟨hstyle, hchecked, hpositive, f, parts, hquery, hparts, hreads⟩

/-- Two rows to skip, and of the rest as many as a limit can name. -/
def behindTwo : Pagination := ⟨some greatest, some (.number (.int 2))⟩

/-- The last number is rounded down, so one row less is kept than the limit names; where both bounds are
written as they are, the same page has all its rows. -/
theorem behindTwo_loses_row :
    Plan.checkPagination (some behindTwo) = .ok () ∧ 2 + greatest.count = 9007199254740993 ∧
    (∃ c, compile rownumServer (.query (firstColumn.paged (some behindTwo))) = .ok c ∧
      c.sql = "SELECT * FROM (SELECT q_.*, ROWNUM rn_ FROM (SELECT a FROM t) q_" ++
        " WHERE ROWNUM <= 9007199254740992) WHERE rn_ > 2") ∧
    ∃ c, compile ⟨.oracle, .of 12 1 0⟩ (.query (firstColumn.paged (some behindTwo))) = .ok c ∧
      c.sql = "SELECT a FROM t OFFSET 2 ROWS FETCH NEXT 9007199254740991 ROWS ONLY" :=
  ⟨rfl, rfl, compile_of_sql _ (by decide +kernel), compile_of_sql _ (by decide +kernel)⟩

/-! ## Columns -/

namespace Page
variable {d : Dialect} {limit offset : Option Value}

theorem mem_of_mem_numbered {α : Type} {keep : Nat → Bool} {n m : Nat} {rows : List α} {row : α}
    (h : (row, m) ∈ numbered keep n rows) : row ∈ rows := by
  induction rows generalizing n with
  | nil => cases h
  | cons first rows ih =>
    rw [numbered] at h
    split at h
    · rcases List.mem_cons.1 h with heq | h
      · cases heq
        exact List.mem_cons_self
      · exact List.mem_cons_of_mem _ (ih h)
    · exact List.mem_cons_of_mem _ (ih h)

theorem mem_of_mem_window {α : Type} {limit : Option Nat} {skip : Nat} {rows : List α} {row : α}
    (h : row ∈ window limit skip rows) : row ∈ rows := by
  cases limit with
  | none => exact List.mem_of_mem_drop h
  | some k => exact List.mem_of_mem_drop (List.mem_of_mem_take h)

/-- A page has only rows of the query. They show numbers in a column of their own, or there is no
such column. -/
theorem mem_of_result? {α : Type} {page : Page} {rows : List α}
    {shown : List (α × Option Nat)} (h : page.result? rows = some shown) {row : α} {n : Option Nat}
    (hrow : (row, n) ∈ shown) (columns : List String) :
    row ∈ rows ∧ (page.columns columns).length = columns.length + n.toList.length := by
  -- most pages only keep some of the rows, without a number beside them
  have hplain {kept : List α} (hkept : ∀ r ∈ kept, r ∈ rows)
      (hmem : (row, n) ∈ kept.map (·, none)) :
      row ∈ rows ∧ columns.length = columns.length + n.toList.length := by
    obtain ⟨r, hr, heq⟩ := List.mem_map.1 hmem
    cases heq
    exact ⟨hkept _ hr, rfl⟩
  cases page with
  | whole =>
    cases h
    exact hplain (fun _ hr => hr) hrow
  | limited limit offset =>
    obtain ⟨k, hk, h⟩ := Option.bind_eq_some_iff.1 h
    obtain ⟨m, hm, h⟩ := Option.bind_eq_some_iff.1 h
    cases h
    exact hplain (fun _ hr => mem_of_mem_window hr) hrow
  | fetched offset limit =>
    obtain ⟨k, hk, h⟩ := Option.bind_eq_some_iff.1 h
    obtain ⟨m, hm, h⟩ := Option.bind_eq_some_iff.1 h
    cases h
    exact hplain (fun _ hr => mem_of_mem_window hr) hrow
  | upTo last =>
    obtain ⟨k, hk, h⟩ := Option.bind_eq_some_iff.1 h
    cases h
    obtain ⟨⟨r, m⟩, hr, heq⟩ := List.mem_map.1 hrow
    cases heq
    exact ⟨mem_of_mem_numbered hr, rfl⟩
  | between last offset =>
    obtain ⟨k, hk, h⟩ := Option.bind_eq_some_iff.1 h
    obtain ⟨m, hm, h⟩ := Option.bind_eq_some_iff.1 h
    cases h
    obtain ⟨⟨r, l⟩, hr, heq⟩ := List.mem_map.1 hrow
    cases heq
    exact ⟨mem_of_mem_numbered (List.mem_of_mem_filter hr), List.length_append⟩
  | top limit =>
    obtain ⟨k, hk, h⟩ := Option.bind_eq_some_iff.1 h
    cases h
    exact hplain (fun _ hr => List.mem_of_mem_take hr) hrow
  | topAround limit =>
    obtain ⟨k, hk, h⟩ := Option.bind_eq_some_iff.1 h
    cases h
    exact hplain (fun _ hr => List.mem_of_mem_take hr) hrow

/-- Rows have as many fields as a result has columns, if the rows of the query have. -/
theorem length_of_mem_contents? {κ : Type} {page : Page} {c shown : Contents κ}
    (hc : ∀ row ∈ c.rows, row.length = c.columns.length) (hshown : page.contents? c = some shown) :
    ∀ row ∈ shown.rows, row.length = shown.columns.length := by
  obtain ⟨rows, hrows, hshown⟩ := Option.bind_eq_some_iff.1 hshown
  cases hshown
  intro row hrow
  obtain ⟨⟨first, n⟩, hmem, rfl⟩ := List.mem_map.1 hrow
  obtain ⟨hfirst, hwidth⟩ := mem_of_result? hrows hmem c.columns
  have hnumber : (n.map fun m : Nat => (Datum.int (m : Int) : Datum κ)).toList.length =
      n.toList.length := by
    cases n <;> rfl
  rw [hwidth, ← hc first hfirst, ← hnumber]
  exact List.length_append

/-- The columns of the page that a query asks for. -/
theorem Asked.columns {page : Page} {selection : Bool} (h : Asked d selection limit offset page)
    (hoffset : ∀ v, offset = some v → v.IsBound) (columns : List String) :
    page.columns columns = columns ++
      if d.paginationStyle = .rownum ∧ offset ≠ none ∧ (limit = none ∨ 0 < Value.countOf offset)
        then ["rn_"] else [] := by
  obtain ⟨hskip, hcount⟩ := Value.IsBound.skipped hoffset
  have hiff := hskip.isZero
  rw [hcount] at hiff
  have hplain {numbers : Prop} [Decidable numbers] (hnot : ¬ numbers) :
      columns = columns ++ if numbers then ["rn_"] else [] := by
    rw [if_neg hnot, List.append_nil]
  cases h with
  | whole => exact hplain fun h => h.2.1 rfl
  | untopped hstyle => exact hplain fun h => by rw [hstyle] at h; exact nomatch h.1
  | limited hstyle hpart => exact hplain fun h => by rw [hstyle] at h; exact nomatch h.1
  | fetched hstyle hpart => exact hplain fun h => by rw [hstyle] at h; exact nomatch h.1
  | upTo hstyle hzero =>
    refine hplain fun h => ?_
    rw [hiff.1 hzero] at h
    rcases h.2.2 with hnone | hpositive
    · cases hnone
    · cases hpositive
  | between hstyle hpart hzero =>
    -- rows are numbered to skip some of them, or for an offset without a limit, even of zero
    have hgiven : offset ≠ none := by
      rintro rfl
      rcases hzero with hzero | rfl
      · exact absurd hzero (by decide)
      · cases hpart
    have hnumbers : limit = none ∨ 0 < Value.countOf offset := by
      refine hzero.symm.imp_right fun hzero => Nat.pos_of_ne_zero fun hnone => ?_
      rw [hiff.2 hnone] at hzero
      cases hzero
    rw [if_pos ⟨hstyle, hgiven, hnumbers⟩]
    rfl
  | top hstyle hselection => exact hplain fun h => by rw [hstyle] at h; exact nomatch h.1
  | topAround hstyle hselection => exact hplain fun h => by rw [hstyle] at h; exact nomatch h.1

end Page

/-- The columns of a query with a page, wherever it stands. Its text and that of the query without
the page ask for a page each, with the same columns, unless the server is to skip rows by their
numbers: then these are one more column. That is not counted: the arities are the same. -/
theorem query_columns {d : Dialect} {q : Query} {limit offset : Option Value} {f : Fragment}
    (hpage : Pagination.Valid (some ⟨limit, offset⟩))
    (h : Sql.query d (q.paged (some ⟨limit, offset⟩)) = .ok f) :
    (q.paged (some ⟨limit, offset⟩)).arity = (q.paged none).arity ∧
    ∃ bare parts page, Sql.query d (q.paged none) = .ok bare ∧ Sql.parts d q = .ok parts ∧
      Page.whole.Reads d parts (bare.sql d) ∧
      page.Reads d parts (f.sql d) ∧
      (∀ other : Page, other.Reads d parts (f.sql d) → other = page) ∧
      ∀ {κ : Type} (c : Contents κ),
        page.columns c.columns = c.columns ++
          (if d.paginationStyle = .rownum ∧ offset ≠ none ∧
            (limit = none ∨ 0 < Value.countOf offset) then ["rn_"] else []) ∧
        ∀ shown, page.contents? c = some shown → shown.columns = page.columns c.columns ∧
          ((∀ row ∈ c.rows, row.length = c.columns.length) →
            ∀ row ∈ shown.rows, row.length = shown.columns.length) := by
  have harity : (q.paged (some ⟨limit, offset⟩)).arity = (q.paged none).arity := by
    cases q with
    | select p => rfl
    | combined p => rfl
  rw [Sql.query_paged] at h
  obtain ⟨parts, hparts, h⟩ := bind_eq_ok.1 h
  obtain ⟨body, hbody, h⟩ := bind_eq_ok.1 h
  cases h
  -- without a page there is only the query and its order
  have hbare : Sql.query d (q.paged none) =
      .ok (Sql.withClause d parts.recursive parts.ctes (parts.core "" ++ parts.order)) := by
    rw [Sql.query_paged, hparts]
    change (parts.finish d none >>= fun body => _) = _
    rw [Sql.Parts.finish_none]
    rfl
  have hreads := reads_of hpage hparts hbody
  refine ⟨harity, _, parts, _, hbare, hparts, reads_whole d parts, hreads,
    fun _ hother => hreads.unique hother, fun c => ⟨?_, fun shown hshown => ⟨?_, fun hc => ?_⟩⟩⟩
  · exact (Page.asked_of _ _ _ _).columns (hpage _ rfl).2 c.columns
  · obtain ⟨rows, hrows, hshown⟩ := Option.bind_eq_some_iff.1 hshown
    cases hshown
    rfl
  · exact Page.length_of_mem_contents? hc hshown

theorem query_columns_secondPage : Pagination.Valid (some secondPage) ∧ ∃ f parts, ∃ page : Page,
    Sql.query rownumServer (firstColumn.paged (some secondPage)) = .ok f ∧
      Sql.parts rownumServer firstColumn = .ok parts ∧
      page.Reads rownumServer parts (f.sql rownumServer) ∧
      ∀ {κ : Type} (c : Contents κ), page.columns c.columns = c.columns ++ ["rn_"] := by
  obtain ⟨_, _, _, _, hquery, -, -⟩ := written_secondPage
  obtain ⟨-, _, parts, page, -, hparts, -, hreads, -, hcolumns⟩ :=
    query_columns secondPage_valid hquery
  refine ⟨secondPage_valid, _, parts, page, hquery, hparts, hreads, fun c => ?_⟩
  rw [(hcolumns c).1, if_pos]
  exact ⟨by decide, by decide, .inr (by decide)⟩

/-- The second page of a query with one column has two, where both are counted as one. -/
theorem secondPage_adds_column : ∃ bare paged parts,
    compile rownumServer (.query (firstColumn.paged none)) = .ok bare ∧
    compile rownumServer (.query (firstColumn.paged (some secondPage))) = .ok paged ∧
    Sql.parts rownumServer firstColumn = .ok parts ∧
    (firstColumn.paged (some secondPage)).arity = .count 1 ∧
    (∀ page : Page, page.Reads rownumServer parts bare.sql → page.columns ["a"] = ["a"]) ∧
    ∀ page : Page, page.Reads rownumServer parts paged.sql →
      page.columns ["a"] = ["a", "rn_"] ∧
      (page.contents? ⟨["a"], [[.int 7], [.int 8], [.int 9]]⟩ : Option (Contents Empty)) =
        some ⟨["a", "rn_"], [[.int 8, .int 2], [.int 9, .int 3]]⟩ := by
  obtain ⟨parts, body, hparts, hbody, -, hpaged, hbare⟩ := written_secondPage
  refine ⟨_, _, parts, hbare, hpaged, hparts, rfl, fun page hpage => ?_, fun page hpage => ?_⟩
  · rw [(reads_whole rownumServer parts).unique hpage]
    rfl
  -- rows are numbered up to the third, and the first one is cut
  · have hof (selection : Bool) : Page.of rownumServer selection
        (some (.number (.int 2))) (some (.number (.int 1))) = .between (some "3") "1" := by
      cases selection <;> decide +kernel
    have hreads := reads_of secondPage_valid hparts hbody
    rw [hof] at hreads
    rw [hreads.unique hpage]
    have hrows : (Page.between (some "3") "1").result?
        ([[.int 7], [.int 8], [.int 9]] : List (List (Datum Empty))) =
          some [([.int 8], some 2), ([.int 9], some 3)] := by decide +kernel
    refine ⟨rfl, ?_⟩
    rw [Page.contents?, hrows]
    rfl

end PolyQuery
