import PolyQuery.Proofs.Clauses

/-! A selection with its ordering and its page, read as a leaf: `reads_finish`. The leaf has the
tokens of the selection alone, and those of the clauses that were written around it. -/
namespace PolyQuery

/-- A selection without what stands before it and behind it. -/
def SelectPlan.bare (p : SelectPlan) : SelectPlan :=
  { p with orderBy := [], pagination := none, ctes := [] }

/-- The tokens of a selection alone. -/
def SetTree.selectTokens (d : Dialect) (p : SelectPlan) : List Token :=
  match Sql.select d p.bare with
  | .ok f => Scan.tokens d (f.chars d 0)
  | .error _ => []

namespace Grammar
variable {d : Dialect} {next : List Token → Option SetTree} {ts : List Token} {t : SetTree}

/-- Tokens with the first word of a query. -/
def Begins (ts : List Token) : Prop :=
  ts.head? = some .opening ∨ ts.head? = some (.key .select)

/-- Another word does not stand before a query. -/
theorem Begins.behind?_none (h : Begins ts) {x : Token} (hx : x ≠ .opening ∧ x ≠ .key .select) :
    behind? [x] ts = none := by
  cases ts with
  | nil => rfl
  | cons t ts =>
    refine behind?_ne (fun heq => ?_) _
    rcases h with hhead | hhead
    · exact hx.1 (heq.trans (Option.some.inj hhead))
    · exact hx.2 (heq.trans (Option.some.inj hhead))

theorem begins_setOperand (h : setOperand d next ts = some t) : Begins ts := by
  rw [setOperand] at h
  cases hin : inside? d ts with
  | none =>
    rw [hin] at h
    dsimp only at h
    by_cases hselect : ts.head? = some (.key .select)
    · exact .inr hselect
    · rw [if_neg hselect] at h
      cases h
  | some us =>
    rw [inside?] at hin
    cases hvs : behind? (opened d) ts with
    | none => rw [hvs] at hin; cases hin
    | some vs =>
      rw [behind?_eq_some hvs, opened]
      by_cases hd : d.parenthesizesOperands = true
      · rw [if_pos hd]
        exact .inl rfl
      · rw [if_neg hd]
        exact .inr rfl

theorem head_segments {x : Token} (h : (segments 0 ts).1.head? = some x) : ts.head? = some x := by
  cases ts with
  | nil => cases h
  | cons y ys =>
    rw [segments, if_pos rfl] at h
    cases hop : y.setOperator? with
    | some op => rw [hop] at h; cases h
    | none => rw [hop] at h; exact h

theorem begins_combination (h : combination d next ts = some t) : Begins ts := by
  rw [combination] at h
  split at h
  · cases h
  · obtain ⟨u, hu, _⟩ := Option.bind_eq_some_iff.1 h
    exact (begins_setOperand hu).imp head_segments head_segments

/-- Tokens without clauses outside of brackets that are read as operands with their operators. -/
structure IsBody (d : Dialect) (ts : List Token) (t : SetTree) : Prop where
  free : Free Token.isSection ts
  read : ∀ fuel, ts.length ≤ fuel → combination d (readQuery d fuel) ts = some t

/-- Tokens that are read as a query. -/
structure IsQuery (d : Dialect) (ts : List Token) (t : SetTree) : Prop where
  paired : Paired ts
  begins : Begins ts
  read : ∀ fuel, ts.length < fuel → readQuery d fuel ts = some t

theorem IsParted.isQuery {c o page : List Token} {u : SetTree} (h : IsParted d ts c o page)
    (hc : IsBody d c t) (ht : t.attach o page = some u) : IsQuery d ts u where
  paired := h.paired
  begins := by
    rcases h.first with hselect | ⟨us, rfl⟩
    · exact .inr hselect
    · have hbegins := begins_combination (hc.read _ (Nat.le_refl _))
      have hhead {x : Token} (hx : c.head? = some x) : (c ++ us).head? = some x := by
        rw [List.head?_append, hx]
        rfl
      exact hbegins.imp hhead hhead
  read := by
    intro fuel hfuel
    obtain ⟨fuel, rfl⟩ := Nat.exists_eq_add_one_of_ne_zero (Nat.ne_of_gt (Nat.zero_lt_of_lt hfuel))
    have hlonger := h.longer
    exact readQuery_of h.parts (hc.read fuel (by omega)) ht

theorem Selects.isBody (h : Selects d ts) (distinct : Bool) :
    IsBody d (Grammar.selection distinct [] ts) (.leaf (Grammar.selection distinct [] ts) [] []) where
  free := (h.selection distinct .nil).1
  read := fun _ _ => combination_selection h distinct

end Grammar

/-- The count of rows in the head of a selection. -/
def SetTree.countTokens : Option Value → List Token
  | some v => [.word "TOP", .word v.text]
  | none => []

namespace Scan
open Grammar
variable {d : Dialect}

theorem written_term {f : Fragment} (hf : Legible d f) (s : SortDirection) :
    ∃ ts, Written d (f ++ .text (" " ++ s.keyword)) (ts ++ [.word s.keyword]) ∧
      Free (Token.isClause d) (ts ++ [.word s.keyword]) := by
  have hbare : IsBare s.keyword := by cases s <;> decide +kernel
  have hsafe : Token.clauseWords.contains (Text.upper s.keyword) = false := by
    cases s <;> decide +kernel
  obtain ⟨ts, hwritten, hfree⟩ := Firm.spells hf
  have hword : WrittenBehind d (.text (" " ++ s.keyword)) [.word s.keyword] :=
    writtenBehind_words [s.keyword] (by simp) (List.forall_mem_singleton.2 hbare)
  exact ⟨ts, Written.append hwritten hword, hfree.append (.plain rfl (Token.isClause_safe hsafe) .nil)⟩

theorem written_terms (t : OrderTerm) (ts : List OrderTerm) (ht : OrderTerm.AllContained d (t :: ts))
    {fs : List Fragment} (h : Sql.terms d (t :: ts) = .ok fs) :
    ∃ us w, Written d (Fragment.join ", " fs) (us ++ [.word w]) ∧
      Free (Token.isClause d) (us ++ [.word w]) := by
  induction ts generalizing t fs with
  | nil =>
    obtain ⟨f, gs, hf, hgs, rfl⟩ := Sql.terms_cons_ok h
    cases hgs
    obtain ⟨us, hwritten, hfree⟩ := written_term (legible_expr t.expression ht.1 hf) t.direction
    exact ⟨us, _, hwritten, hfree⟩
  | cons t' ts ih =>
    obtain ⟨f, gs, hf, hgs, rfl⟩ := Sql.terms_cons_ok h
    obtain ⟨us, hwritten, hfree⟩ := written_term (legible_expr t.expression ht.1 hf) t.direction
    obtain ⟨vs, w, hrest, hfree'⟩ := ih t' ht.2 hgs
    obtain ⟨g, gs', _, _, rfl⟩ := Sql.terms_cons_ok hgs
    refine ⟨(us ++ [.word t.direction.keyword]) ++ .comma :: vs, w, ?_, ?_⟩
    · rw [Fragment.join_cons_cons, Fragment.append_assoc, List.append_assoc, List.cons_append]
      exact hwritten.append (Written.behindComma hrest)
    · rw [List.append_assoc, List.cons_append]
      exact hfree.append (.plain rfl rfl hfree')

/-- An ordering is written as its own tokens behind its words. -/
theorem written_ordering (ts : List OrderTerm) (ht : OrderTerm.AllContained d ts)
    {fs : List Fragment} (h : Sql.terms d ts = .ok fs) :
    WrittenBehind d (Sql.listClause " ORDER BY" fs) (orderWords (SetTree.orderTokens d ts)) ∧
      IsOrdering d (SetTree.orderTokens d ts) ∧
      ((!ts.isEmpty) = false → SetTree.orderTokens d ts = []) := by
  cases ts with
  | nil =>
    cases h
    exact ⟨writtenBehind_empty, isOrdering_nil, fun _ => rfl⟩
  | cons t ts =>
    obtain ⟨us, w, hwritten, hfree⟩ := written_terms t ts ht h
    have htokens : SetTree.orderTokens d (t :: ts) = us ++ [.word w] := by
      rw [SetTree.orderTokens, h]
      exact Spells.tokens hwritten 0
    have hne : us ++ [.word w] ≠ [] := by simp
    -- the last token of any ordering is a bracket
    have hother : us ++ [.word w] ≠ anyOrder := by
      intro heq
      have hlast := congrArg List.getLast? heq
      rw [List.getLast?_concat] at hlast
      cases hlast
    rw [htokens, orderWords, if_neg hne]
    refine ⟨?_, ⟨hfree, hother⟩, fun hempty => absurd hempty (by simp)⟩
    obtain ⟨_, _, _, _, rfl⟩ := Sql.terms_cons_ok h
    exact Written.behindWords hwritten ["ORDER", "BY"] rfl (by decide +kernel)

theorem written_head (distinct : Bool) (limit : Option Value)
    (hl : ∀ v, limit = some v → Plan.isBound v = true) {f : Fragment} {ts : List Token}
    (h : Written d f ts) :
    Written d (.text (Sql.selectHead distinct limit) ++ f)
      (selection distinct (SetTree.countTokens limit) ts) := by
  have hselect : Spells d (fun _ => "SELECT".toList) [.key .select] := spells_keyword .select
  have hdistinct : Follows d (fun _ => (if distinct then " DISTINCT" else "").toList)
      (if distinct then [.key .distinct] else []) := by
    cases distinct with
    | true =>
      have hword : Spells d (fun _ => "DISTINCT".toList) [.key .distinct] := spells_keyword .distinct
      have hblank : " DISTINCT".toList = ' ' :: "DISTINCT".toList := String.toList_ofList
      rw [if_pos rfl, if_pos rfl, hblank]
      exact hword.spaced
    | false => exact follows_nothing
  have hhead : Written d (.text ("SELECT" ++ if distinct then " DISTINCT" else ""))
      (.key .select :: if distinct then [.key .distinct] else []) := by
    refine written_text ?_
    simpa only [String.toList_append, List.cons_append, List.nil_append] using
      hselect.append hdistinct
  -- a count is put behind SELECT, and DISTINCT before it
  cases limit with
  | none =>
    have hnothing : WrittenBehind d (.text "") [] := writtenBehind_text follows_nothing
    exact (hhead.append (hnothing.append h.spaced)).texts.texts
  | some v =>
    have hcount : WrittenBehind d (.text (" TOP " ++ v.text)) [.word "TOP", .word v.text] :=
      writtenBehind_counted ["TOP"] rfl (by decide +kernel) (bound_word (hl v rfl)).1
    exact (hhead.append (hcount.append h.spaced)).texts.texts

/-- What a selection was put together from, and what it is alone. -/
theorem select_bare {p : SelectPlan} (hp : p.Contained d) {f : Fragment}
    (h : Sql.select d p = .ok f) :
    ∃ ws core orders body ts, Sql.cteList d p.ctes = .ok ws ∧
      f = Sql.withClause d (p.ctes.any Cte.recursive) ws body ∧ Selects d ts ∧ Written d core ts ∧
      Sql.terms d p.orderBy = .ok orders ∧
      Paging.finish d (.text (Sql.selectHead p.distinct (Sql.topLimit d p.pagination)) ++ core)
        (Sql.listClause " ORDER BY" orders) (!p.orderBy.isEmpty) p.pagination
        (Sql.topLimit d p.pagination).isSome = .ok body ∧
      Sql.select d p.bare =
        .ok (.text (Sql.selectHead p.distinct none) ++ core ++ Fragment.empty) := by
  obtain ⟨ws, items, source, joined, condition, groups, having, orders, body, _, hw, hi, hs, hj, hc, hg,
    hh, ho, hbody, rfl⟩ := Sql.select_ok h
  obtain ⟨ts, hselects, hwritten⟩ := written_selects hp hi hs hj hc hg hh
  refine ⟨ws, _, orders, body, ts, hw, rfl, hselects, hwritten, ho, ?_, ?_⟩
  · simpa only [Fragment.append_assoc] using hbody
  · -- alone it has the same parts, and neither a count of rows nor clauses behind them
    have hlimit : Sql.topLimit d none = none := ite_self _
    obtain ⟨_, _, _, _, _, _, _, _, _, _⟩ := p
    dsimp only [SelectPlan.bare] at *
    rw [Sql.select]
    simp only [hlimit, hi, hs, hj, hc, hg, hh, ← Fragment.append_assoc]
    rfl

theorem selectTokens_of {p : SelectPlan} {core : Fragment} {ts : List Token}
    (hwritten : Written d core ts) (h : Sql.select d p.bare =
      .ok (.text (Sql.selectHead p.distinct none) ++ core ++ Fragment.empty)) :
    SetTree.selectTokens d p = selection p.distinct [] ts := by
  have hhead := written_head (d := d) p.distinct none (fun _ hv => nomatch hv) hwritten
  have hall := hhead.append writtenBehind_empty
  rw [SetTree.selectTokens, h]
  dsimp only
  rw [Spells.tokens hall 0, List.append_nil]
  rfl

/-- A selection with its clauses is read as a leaf with them, and alone it is an operand. -/
theorem reads_finish {p : SelectPlan} {core body : Fragment} {orders : List Fragment}
    {us : List Token} (hselects : Selects d us) (hwritten : Written d core us)
    (ho : OrderTerm.AllContained d p.orderBy) (horders : Sql.terms d p.orderBy = .ok orders)
    (hpage : Plan.checkPagination p.pagination = .ok ())
    (hbody : Paging.finish d
      (.text (Sql.selectHead p.distinct (Sql.topLimit d p.pagination)) ++ core)
      (Sql.listClause " ORDER BY" orders) (!p.orderBy.isEmpty) p.pagination
      (Sql.topLimit d p.pagination).isSome = .ok body) :
    ∃ ts, Written d body ts ∧ IsQuery d ts (.leaf (selection p.distinct [] us)
        (SetTree.orderTokens d p.orderBy) (SetTree.pageOf d p.pagination)) ∧
      (p.pagination = none → p.orderBy = [] → ts = selection p.distinct [] us) := by
  obtain ⟨horder, hordering, hempty⟩ := written_ordering p.orderBy ho horders
  have hbound := (numbers_of_page hpage).2
  have hleaf := hselects.isBody p.distinct
  cases hl : Sql.topLimit d p.pagination with
  | none =>
    -- the page stands around the selection or behind it
    rw [hl] at hbody
    have hcore := written_head (d := d) p.distinct none (fun _ hv => nomatch hv) hwritten
    obtain ⟨ts, hts, hparted, hsame⟩ := parted_finish hcore hleaf.free.paired
      (hselects.isCore p.distinct) horder hordering hempty hpage hbody
    refine ⟨ts, hts, hparted.isQuery hleaf rfl, fun hnone hno => ?_⟩
    exact hsame hnone (hempty (by rw [hno]; rfl))
  | some v =>
    -- the limit stands in the head
    have hd : d.paginationStyle = .top := by
      rw [Sql.topLimit] at hl
      split at hl
      · assumption
      · cases hl
    have hv : p.pagination.bind Pagination.limit = some v := by
      rw [Sql.topLimit, if_pos hd] at hl
      exact hl
    rw [hl] at hbody
    have hcore := written_head (d := d) p.distinct (some v)
      (fun w hw => hbound w (hv.trans hw)) hwritten
    have hf : body = .text (Sql.selectHead p.distinct (some v)) ++ core ++
        Sql.listClause " ORDER BY" orders := by
      rcases Paging.finish_ok hbody with ⟨hf, _⟩ | ⟨_, hs, _⟩ | ⟨_, hs, _⟩ | ⟨_, hs, _⟩ | ⟨_, _, _, _, hs⟩
      · exact hf
      · rw [hd] at hs; cases hs
      · rw [hd] at hs; cases hs
      · rw [hd] at hs; cases hs
      · cases hs
    obtain ⟨_, hword, hclause⟩ := bound_word (d := d) (hbound v hv)
    have hpageOf : SetTree.pageOf d p.pagination = [.word "TOP", .word v.text] := by
      have hw : Paging.isWhole (p.pagination.bind Pagination.limit)
          (p.pagination.bind Pagination.offset) = false := by rw [hv]; rfl
      rw [SetTree.pageOf, SetTree.pageTokens_of hw, SetTree.styledTokens, hd, hv, SetTree.firstTokens,
        hword]
    have hparted := parted_counted hselects hd p.distinct hclause hordering
    rw [hf, hpageOf]
    refine ⟨_, hcore.append horder, hparted.isQuery hleaf rfl, fun hnone => ?_⟩
    rw [hnone] at hv
    cases hv

end Scan

end PolyQuery
