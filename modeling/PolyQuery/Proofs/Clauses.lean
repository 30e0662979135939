import PolyQuery.Proofs.Paged

/-! A query with its ordering and its page. In every style the reader takes it apart into the core, the
ordering and the page that it was put together from: `parted_finish`, `parted_counted`. -/
namespace PolyQuery
namespace Grammar
variable {d : Dialect}

/-- The tokens of an ordering, or none: no word of a clause stands outside of their brackets, and they
are not what stands for any ordering. -/
structure IsOrdering (d : Dialect) (o : List Token) : Prop where
  free : Free (Token.isClause d) o
  other : o ≠ anyOrder

theorem isOrdering_nil : IsOrdering d [] := ⟨.nil, by decide⟩

theorem isPage_isSection {t : Token} (h : t.isPage = true) : t.isSection = true :=
  (isSection_of_isPage h).2.1

theorem IsOrdering.page {o : List Token} (h : IsOrdering d o) : Free Token.isPage o := by
  have hsection := (free_of_isBreak (Scan.free_of_isClause h.free).2).1
  exact hsection.mono fun t ht => isPage_isSection ht

theorem IsOrdering.behind {o : List Token} (h : IsOrdering d o) :
    Free Token.isFrom (orderWords o) ∧ (orderWords o).head? ≠ some (.word "TOP") ∧
      Paired (orderWords o) := by
  have hfrom := (Scan.free_of_isClause h.free).1
  unfold orderWords
  split
  · exact ⟨.nil, by decide, .nil⟩
  · have hwords : Free Token.isFrom (.word "ORDER" :: .word "BY" :: o) :=
      .plain rfl (by decide +kernel) (.plain rfl (by decide +kernel) hfrom)
    refine ⟨hwords, fun hhead => ?_, hwords.paired⟩
    exact absurd (Token.word.inj (Option.some.inj hhead)) (by decide)

/-- A query up to its clauses. No clause is found inside of it, whatever ordering follows. -/
structure IsCore (d : Dialect) (c : List Token) : Prop where
  free : Free Token.isSection c
  unnumbered : d.paginationStyle = .rownum → ∀ tail, Free Token.isFrom tail →
    numbered? (c ++ tail) = none
  untopped : d.paginationStyle = .top → ∀ tail, Free Token.isFrom tail →
    tail.head? ≠ some (.word "TOP") → topped? (c ++ tail) = none
  headless : d.paginationStyle = .top → ∀ o, headed ⟨c, o, []⟩ = ⟨c, o, []⟩

theorem Selects.isCore {ts : List Token} (h : Selects d ts) (distinct : Bool) :
    IsCore d (Grammar.selection distinct [] ts) where
  free := (h.selection distinct .nil).1
  unnumbered := fun _ _ htail => numbered?_none fun _ hus => h.behind_none htail hus
  untopped := fun hd _ htail hhead => (topped?_selection h hd distinct htail hhead "").1
  headless := fun hd o => (headed_selection h hd distinct o "").1

/-- Operands between brackets begin with a bracket; where they do not, pages stand in place. -/
theorem isCore_of_opening {c : List Token} (h : Free Token.isSection c)
    (hopening : d.parenthesizesOperands = true → ∃ us, c = .opening :: us) : IsCore d c := by
  have hstyle (hd : d.parenthesizesOperands = false) : d.paginationStyle = .limitOffset := by
    have hbackend : d.backend = .sqlite := by simpa [Dialect.parenthesizesOperands] using hd
    rw [Dialect.paginationStyle, hbackend]
  have hne {s : PaginationStyle} (hs : d.paginationStyle = s) (hne : s ≠ .limitOffset) :
      ∃ us, c = .opening :: us := by
    apply hopening
    cases hd : d.parenthesizesOperands with
    | true => rfl
    | false => exact absurd (hs.symm.trans (hstyle hd)) hne
  refine ⟨h, fun hd tail _ => ?_, fun hd tail _ _ => ?_, fun hd o => ?_⟩
  · obtain ⟨us, rfl⟩ := hne hd (by decide)
    rfl
  · obtain ⟨us, rfl⟩ := hne hd (by decide)
    rfl
  · obtain ⟨us, rfl⟩ := hne hd (by decide)
    rfl

theorem sections_alone {c o : List Token} (hc : IsCore d c) (ho : IsOrdering d o) :
    sections d (c ++ orderWords o) = ⟨c, o, []⟩ := by
  have hplace := inPlace_orderWords hc.free ho.page ho.other
  obtain ⟨hfrom, hhead, _⟩ := ho.behind
  cases hd : d.paginationStyle with
  | limitOffset => rw [sections_eq_inPlace (.inl hd), hplace]
  | offsetFetch => rw [sections_eq_inPlace (.inr hd), hplace]
  | rownum => rw [sections_unnumbered hd (hc.unnumbered hd _ hfrom), hplace]
  | top => rw [sections_headed hd (hc.untopped hd _ hfrom hhead), hplace, hc.headless hd]

/-- Tokens that are taken apart into a core, an ordering and a page. They begin with the core, or with
the selection that the page is put in. -/
structure IsParted (d : Dialect) (ts c o page : List Token) : Prop where
  paired : Paired ts
  longer : c.length ≤ ts.length
  parts : sections d ts = ⟨c, o, page⟩
  first : ts.head? = some (.key .select) ∨ c <+: ts

/-- The count of rows in the head of a selection is its page. -/
theorem parted_counted {ts o : List Token} (h : Selects d ts) (hd : d.paginationStyle = .top)
    (distinct : Bool) {n : String} (hn : Token.isClause d (.word n) = false) (ho : IsOrdering d o) :
    IsParted d (selection distinct [.word "TOP", .word n] ts ++ orderWords o)
      (selection distinct [] ts) o [.word "TOP", .word n] := by
  obtain ⟨hfrom, hhead, hpaired⟩ := ho.behind
  have hnumber : Token.isFrom (.word n) = false ∧ Token.isBreak d (.word n) = false := by
    rw [Token.isClause, Bool.or_eq_false_iff] at hn
    exact hn
  have hword : Token.isSection (.word n) = false := by
    have hbreak := hnumber.2
    rw [Token.isBreak, Bool.or_eq_false_iff, Bool.or_eq_false_iff] at hbreak
    exact hbreak.1.1
  -- a number that is no clause opens no section either, so the words of the count are not read as
  -- one
  have hcount : Free (fun t => t.isSection || t.setOperator?.isSome) [.word "TOP", .word n] := by
    refine .plain rfl (by decide +kernel) (.plain rfl ?_ .nil)
    rw [hword]
    rfl
  have hcore := (h.selection distinct hcount).1
  have hplace := inPlace_orderWords hcore ho.page ho.other
  have htopped := (topped?_selection h hd distinct hfrom hhead n).2
  refine ⟨hcore.paired.append hpaired, ?_, ?_, .inl rfl⟩
  · simp only [selection, List.length_append, List.length_cons]
    omega
  · rw [sections_headed hd htopped, hplace, (headed_selection h hd distinct o n).2]

theorem numbered?_head {ts : List Token} {r : List Token × List Token} (h : numbered? ts = some r) :
    ts.head? = some (.key .select) := by
  rw [numbered?] at h
  cases hus : behind? selectFrom ts with
  | none => rw [hus] at h; cases h
  | some us =>
    rw [behind?_eq_some hus]
    rfl

end Grammar

namespace Scan
open Grammar
variable {d : Dialect}

theorem numbers_of_page {pagination : Option Pagination}
    (h : Plan.checkPagination pagination = .ok ()) :
    Numbers (pagination.bind Pagination.limit) (pagination.bind Pagination.offset) ∧
      ∀ v, pagination.bind Pagination.limit = some v → Plan.isBound v = true := by
  cases pagination with
  | none =>
    have hnone (v : Value) (hv : (none : Option Value) = some v) : False := nomatch hv
    exact ⟨⟨fun v hv => (hnone v hv).elim, fun v hv => (hnone v hv).elim⟩,
      fun v hv => (hnone v hv).elim⟩
  | some p => exact ⟨page_numbers h, (page_bounds h).1⟩

theorem isCore_paged {c o page : List Token} (hd : d.paginationStyle = .limitOffset ∨
    d.paginationStyle = .offsetFetch) (hc : IsCore d c) (ho : IsOrdering d o) (hp : IsPage page) :
    sections d (c ++ orderWords o ++ page) = ⟨c, o, page⟩ := by
  rw [sections_eq_inPlace hd]
  exact inPlace_clauses hc.free ho.page ho.other hp

/-- The text of a query with its clauses is taken apart into them, unless the page is in the head. -/
theorem parted_finish {core order body : Fragment} {c o : List Token} {ordered : Bool}
    {pagination : Option Pagination} (hc : Written d core c) (hpaired : Paired c)
    (hcore : IsCore d c) (ho : WrittenBehind d order (orderWords o)) (hordering : IsOrdering d o)
    (hordered : ordered = false → o = []) (hpage : Plan.checkPagination pagination = .ok ())
    (h : Paging.finish d core order ordered pagination false = .ok body) :
    ∃ ts, Written d body ts ∧ IsParted d ts c o (SetTree.pageOf d pagination) ∧
      (pagination = none → o = [] → ts = c) := by
  obtain ⟨hn, hbound⟩ := numbers_of_page hpage
  obtain ⟨_, _, horderPaired⟩ := hordering.behind
  have hsome (hw : Paging.isWhole (pagination.bind Pagination.limit)
      (pagination.bind Pagination.offset) = false) : pagination ≠ none := by
    rintro rfl
    cases hw
  rcases Paging.finish_ok h with ⟨rfl, hwhole⟩ | ⟨rfl, hd, hw⟩ | ⟨rfl, hd, hw⟩ | ⟨rfl, hd, hw⟩ |
    ⟨v, hv, rfl, hd, _⟩
  -- no page is written behind the ordering, and none is wanted
  · have hpageNone : SetTree.pageOf d pagination = [] := by
      rw [SetTree.pageOf]
      rcases hwhole with hw | ⟨hd, hlimit | happlied⟩
      · rw [SetTree.pageTokens, if_pos hw]
      · rw [hlimit, SetTree.pageTokens, SetTree.styledTokens, hd]
        exact ite_self _
      · cases happlied
    refine ⟨c ++ orderWords o, hc.append ho, ⟨hpaired.append horderPaired, ?_, ?_,
      .inr (List.prefix_append _ _)⟩, ?_⟩
    · rw [List.length_append]
      omega
    · rw [sections_alone hcore hordering, hpageNone]
    · rintro rfl rfl
      exact List.append_nil c
  -- the page is the last clause
  · obtain ⟨hwritten, hisPage, hpagePaired⟩ := written_limitOffset hn hc ho
    refine ⟨_, hwritten, ⟨(hpaired.append horderPaired).append hpagePaired, ?_, ?_, .inr ?_⟩, ?_⟩
    · rw [List.length_append, List.length_append]
      omega
    · rw [isCore_paged (.inl hd) hcore hordering hisPage, SetTree.pageOf, SetTree.pageTokens_of hw,
        SetTree.styledTokens, hd]
    · rw [List.append_assoc]
      exact List.prefix_append _ _
    · intro hnone
      exact absurd hnone (hsome hw)
  -- the page is the last clause, behind any ordering where there must be one
  · obtain ⟨hwritten, hpagePaired⟩ := written_offsetFetch hn hc ordered ho
    have hall : Paired (.word "OFFSET" :: (SetTree.bound d (Paging.skipped
        (pagination.bind Pagination.offset)) ++ .word "ROWS" ::
          SetTree.fetchTokens d (pagination.bind Pagination.limit))) := paired_word hpagePaired
    have hisPage := isPage_word (w := "OFFSET") (by decide +kernel)
      (SetTree.bound d (Paging.skipped (pagination.bind Pagination.offset)) ++ .word "ROWS" ::
        SetTree.fetchTokens d (pagination.bind Pagination.limit))
    have horder : (∀ page, IsPage page →
        inPlace (c ++ ordering d ordered (orderWords o) ++ page) = ⟨c, o, page⟩) ∧
          Paired (ordering d ordered (orderWords o)) := by
      unfold ordering
      split
      · next hany =>
        -- the ordering that stands for none
        rw [Bool.and_eq_true, Bool.not_eq_true'] at hany
        obtain rfl : o = [] := hordered hany.1
        have hnull : Free Token.isPage anyOrder := .enclosed (.plain rfl (.plain rfl .nil))
        refine ⟨fun page hp => ?_, .plain rfl (.plain rfl hnull.paired)⟩
        rw [List.append_assoc]
        exact inPlace_ordered hcore.free hnull hp
      · exact ⟨fun page hp => inPlace_clauses hcore.free hordering.page hordering.other hp,
          horderPaired⟩
    refine ⟨_, hwritten, ⟨(hpaired.append horder.2).append hall, ?_, ?_, .inr ?_⟩,
      fun hnone => absurd hnone (hsome hw)⟩
    · rw [List.length_append, List.length_append]
      omega
    · rw [SetTree.pageOf, SetTree.pageTokens_of hw, SetTree.styledTokens, hd,
        sections_eq_inPlace (.inr hd)]
      exact horder.1 _ hisPage
    · rw [List.append_assoc]
      exact List.prefix_append _ _
  -- the query and its ordering stand inside of the page
  · obtain ⟨ts, hwritten, htsPaired, hlength, hnumbered⟩ := written_rownum hn hc hpaired ho horderPaired
    refine ⟨ts, hwritten, ⟨htsPaired, ?_, ?_, .inl (numbered?_head hnumbered)⟩,
      fun hnone => absurd hnone (hsome hw)⟩
    · rw [List.length_append] at hlength
      omega
    · have hplace := inPlace_orderWords hcore.free hordering.page hordering.other
      rw [sections_numbered hd hnumbered, hplace, SetTree.pageOf, SetTree.pageTokens_of hw,
        SetTree.styledTokens, hd]
  -- the query stands inside of the page, its ordering behind it
  · have hwritten := written_topped hc ho (hbound v hv)
    have hw : Paging.isWhole (pagination.bind Pagination.limit)
        (pagination.bind Pagination.offset) = false := by rw [hv]; rfl
    refine ⟨_, hwritten, ⟨?_, ?_, ?_, .inl rfl⟩, fun hnone => absurd hnone (hsome hw)⟩
    · exact .plain rfl (.plain rfl (.plain rfl (.plain rfl (.plain rfl (.group hpaired
        (.plain rfl (.plain rfl horderPaired)))))))
    · simp only [List.length_cons, List.length_append]
      omega
    · rw [sections_topped hd hpaired hordering.page hordering.other, SetTree.pageOf,
        SetTree.pageTokens_of hw, SetTree.styledTokens, hd, hv, SetTree.firstTokens,
        (bound_word (hbound v hv)).2.1]

end Scan

end PolyQuery
