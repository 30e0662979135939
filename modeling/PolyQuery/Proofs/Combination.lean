import PolyQuery.Proofs.Leaf

/-! Combinations of queries, to any depth. Every operand is read as the query that it is, with brackets
around it, inside of a selection, or as it stands: `reads_query`. -/
namespace PolyQuery

mutual

/-- The tree of a query: its selections and set operators, each with its own ordering and page. -/
def SetTree.ofQuery (d : Dialect) : Query → SetTree
  | .select p =>
    .leaf (SetTree.selectTokens d p) (SetTree.orderTokens d p.orderBy) (SetTree.pageOf d p.pagination)
  | .combined p => SetTree.ofCombined d p

def SetTree.ofCombined (d : Dialect) : SetPlan → SetTree
  | ⟨operator, all, left, right, orderBy, pagination, _⟩ =>
    .node operator all (SetTree.ofQuery d left) (SetTree.ofQuery d right)
      (SetTree.orderTokens d orderBy) (SetTree.pageOf d pagination)

end

mutual

/-- A query whose selections and orderings keep to their places. Common table expressions stand
between brackets. -/
def Query.Contained (d : Dialect) : Query → Prop
  | .select p =>
    p.Contained d ∧ OrderTerm.AllContained d p.orderBy ∧ (Rules.paired d).cteList p.ctes
  | .combined p => SetPlan.Contained d p

def SetPlan.Contained (d : Dialect) : SetPlan → Prop
  | ⟨_, _, left, right, orderBy, _, ctes⟩ =>
    left.Contained d ∧ right.Contained d ∧ OrderTerm.AllContained d orderBy ∧
      (Rules.paired d).cteList ctes

end

theorem SetOperator.setOperator?_word (op : SetOperator) :
    (Token.key op.word).setOperator? = some op := by cases op <;> rfl

namespace Plan

/-- The page of a checked selection. -/
theorem page_of_checkSelect {p : SelectPlan} (h : checkSelect p = .ok ()) :
    checkPagination p.pagination = .ok () := by
  obtain ⟨_, _, _, _, _, _, _, _, _, _⟩ := p
  rw [checkSelect] at h
  obtain ⟨_, h⟩ := guarded_eq_ok h
  obtain ⟨_, h⟩ := guarded_eq_ok h
  obtain ⟨_, _, h⟩ := bind_eq_ok.1 h
  obtain ⟨_, _, h⟩ := bind_eq_ok.1 h
  obtain ⟨_, hpage, _⟩ := bind_eq_ok.1 h
  exact hpage

/-- The operands and the page of a checked combination. -/
theorem checkSet_ok {p : SetPlan} (h : checkSet p = .ok ()) :
    (p.left.ctes = [] ∧ checkQuery p.left = .ok ()) ∧ (p.right.ctes = [] ∧ checkQuery p.right = .ok ()) ∧
      checkPagination p.pagination = .ok () := by
  have hempty {cs : List Cte} (hcs : (!cs.isEmpty) = true → fault .cteInOperand = .ok ()) : cs = [] := by
    cases cs with
    | nil => rfl
    | cons c cs => cases hcs rfl
  obtain ⟨_, _, left, right, _, _, _⟩ := p
  rw [checkSet] at h
  obtain ⟨hl, h⟩ := guarded_eq_ok h
  obtain ⟨_, hleft, h⟩ := bind_eq_ok.1 h
  obtain ⟨hr, h⟩ := guarded_eq_ok h
  obtain ⟨_, hright, h⟩ := bind_eq_ok.1 h
  obtain ⟨_, _, h⟩ := bind_eq_ok.1 h
  obtain ⟨_, hpage, _⟩ := bind_eq_ok.1 h
  exact ⟨⟨hempty hl, hleft⟩, ⟨hempty hr, hright⟩, hpage⟩

end Plan

namespace Grammar
variable {d : Dialect} {ts us vs : List Token} {t l r : SetTree}

/-- An operand is linked with its flag: it does not begin with the word of the flag itself. -/
theorem link_operand {next : List Token → Option SetTree} (h : setOperand d next vs = some r)
    (op : SetOperator) (all : Bool) (l : SetTree) :
    link d next l (op, (if all then [.word "ALL"] else []) ++ vs) = some (.node op all l r [] []) := by
  rw [link]
  cases all with
  | true =>
    have hall : behind? [.word "ALL"] ((if true then [.word "ALL"] else []) ++ vs) = some vs :=
      behind?_append [_] vs
    rw [hall]
    dsimp only
    rw [h]
    rfl
  | false =>
    have hnone : behind? [.word "ALL"] ((if false then [.word "ALL"] else []) ++ vs) = none :=
      (begins_setOperand h).behind?_none (by decide)
    have hsame : (if false then [.word "ALL"] else []) ++ vs = vs := rfl
    rw [hnone]
    dsimp only
    rw [hsame, h]
    rfl

/-- Two operands with an operator between them. -/
theorem IsBody.link (hl : IsBody d us l)
    (hone : d.parenthesizesOperands = true → Free (fun t => t.setOperator?.isSome) us)
    (hr : IsBody d vs r) (hfree : Free (fun t => t.setOperator?.isSome) vs) (op : SetOperator)
    (all : Bool) :
    IsBody d (us ++ .key op.word :: ((if all then [.word "ALL"] else []) ++ vs))
      (.node op all l r [] []) where
  free := by
    refine hl.free.append (.plain rfl rfl ?_)
    cases all with
    | true => exact .plain rfl (by decide +kernel) hr.free
    | false => exact hr.free
  read := by
    intro fuel hfuel
    have hoperand : Free (fun t => t.setOperator?.isSome)
        ((if all then [.word "ALL"] else []) ++ vs) := by
      cases all with
      | true => exact .plain rfl rfl hfree
      | false => exact hfree
    -- with parentheses the left operand is one piece, without them it may be a row of operands
    have hlast : d.parenthesizesOperands = true → (segments 0 us).2 = [] := by
      intro hd
      rw [segments_free (hone hd)]
    simp only [List.length_append, List.length_cons] at hfuel
    have hright : setOperand d (readQuery d fuel) vs = some r := by
      rw [← combination_single hfree]
      exact hr.read fuel (by omega)
    -- the reader goes on from the tree of the left operand
    rw [combination_link hl.free.paired op.setOperator?_word hoperand hlast, hl.read fuel (by omega),
      Option.bind_some, link_operand hright]

/-- An operand that is a query of its own. -/
theorem IsQuery.opened (h : IsQuery d ts t) :
    IsBody d (Grammar.opened d ++ ts ++ [.closing]) t ∧
      Free (fun t => t.setOperator?.isSome) (Grammar.opened d ++ ts ++ [.closing]) := by
  have hfree {p : Token → Bool} (hp : p (.key .select) = false ∧ p (.mark "*") = false ∧
      p (.word "FROM") = false) : Free p (Grammar.opened d ++ ts ++ [.closing]) := by
    rw [Grammar.opened]
    split
    · exact .enclosed h.paired
    · exact .plain rfl hp.1 (.plain rfl hp.2.1 (.plain rfl hp.2.2 (.enclosed h.paired)))
  have hoperator := hfree (p := fun t => t.setOperator?.isSome) ⟨rfl, rfl, rfl⟩
  refine ⟨⟨hfree ⟨rfl, rfl, by decide +kernel⟩, fun fuel hfuel => ?_⟩, hoperator⟩
  rw [combination_single hoperator, setOperand_opened h.paired]
  simp only [List.length_append, List.length_cons, List.length_nil] at hfuel
  exact h.read fuel (by omega)

end Grammar

/-- The three ways in which an operand stands. As it is, it has no clauses, and on the right it is a
selection. -/
theorem Sql.setOperand_cases (d : Dialect) (side : Side) (q : Query) (f : Fragment) :
    (d.parenthesizesOperands = true ∧ setOperand d side q f = f.enclosed) ∨
    (d.parenthesizesOperands = false ∧
      setOperand d side q f = Fragment.text "SELECT * FROM " ++ f.enclosed) ∨
    (d.parenthesizesOperands = false ∧ setOperand d side q f = f ∧ q.orderBy = [] ∧
      q.pagination = none ∧ (side = .right → ∃ p, q = .select p)) := by
  have hplain (combined : Bool) (h : ¬((!q.orderBy.isEmpty || q.pagination.isSome ||
      (side == .right && combined)) = true)) :
      q.orderBy = [] ∧ q.pagination = none ∧ (side = .right → combined = false) := by
    simpa [or_assoc] using h
  cases hd : d.parenthesizesOperands with
  | true =>
    refine .inl ⟨rfl, ?_⟩
    unfold setOperand
    exact if_pos hd
  | false =>
    refine .inr ?_
    -- a query of its own is never combined, so only its order and page matter
    cases q with
    | select p =>
      rw [setOperand, hd, if_neg Bool.false_ne_true]
      split
      · exact .inl ⟨rfl, rfl⟩
      · next h =>
        obtain ⟨horder, hpage, _⟩ := hplain false h
        exact .inr ⟨rfl, rfl, horder, hpage, fun _ => ⟨p, rfl⟩⟩
    | combined p =>
      rw [setOperand, hd, if_neg Bool.false_ne_true]
      split
      · exact .inl ⟨rfl, rfl⟩
      · next h =>
        obtain ⟨horder, hpage, hside⟩ := hplain true h
        exact .inr ⟨rfl, rfl, horder, hpage, fun hright => absurd (hside hright) (by decide)⟩

namespace Scan
open Grammar
variable {d : Dialect}

/-- A text is read as the tree of its query. Without clauses it may be an operand as it stands, and
a selection then has no operator outside of brackets. -/
def ReadAs (d : Dialect) (q : Query) (f : Fragment) : Prop :=
  ∃ ts, Written d f ts ∧ IsQuery d ts (.ofQuery d q) ∧
    (q.pagination = none → q.orderBy = [] → IsBody d ts (.ofQuery d q) ∧
      ∀ p, q = .select p → Free (fun t => t.setOperator?.isSome) ts)

/-- A text is read in this way behind its common table expressions. -/
def ReadBehind (d : Dialect) (q : Query) (f : Fragment) : Prop :=
  ∃ ws body, Sql.cteList d q.ctes = .ok ws ∧
    f = Sql.withClause d (q.ctes.any Cte.recursive) ws body ∧ ReadAs d q body

theorem ReadBehind.readAs {q : Query} {f : Fragment} (h : ReadBehind d q f) (hctes : q.ctes = []) :
    ReadAs d q f := by
  obtain ⟨ws, body, hw, rfl, hread⟩ := h
  rw [hctes] at hw ⊢
  cases hw
  exact hread

/-- An operand is read as the tree of its query. -/
theorem ReadAs.operand {q : Query} {f : Fragment} (h : ReadAs d q f) (side : Side) :
    ∃ us, Written d (Sql.setOperand d side q f) us ∧ IsBody d us (.ofQuery d q) ∧
      (side = .right ∨ d.parenthesizesOperands = true → Free (fun t => t.setOperator?.isSome) us) ∧
      (d.parenthesizesOperands = true → ∃ vs, us = .opening :: vs) := by
  obtain ⟨ts, hwritten, hquery, hplain⟩ := h
  obtain ⟨hbody, hfree⟩ := hquery.opened
  rcases Sql.setOperand_cases d side q f with ⟨hd, heq⟩ | ⟨hd, heq⟩ | ⟨hd, heq, horder, hpage, hside⟩
  · rw [opened, if_pos hd] at hbody hfree
    rw [heq]
    exact ⟨_, (Written.enclosed hwritten).spells, hbody, fun _ => hfree, fun _ => ⟨_, rfl⟩⟩
  -- without brackets around operands it is put behind a selection of its own, or stays as it is
  · have hno : ¬ d.parenthesizesOperands = true := by rw [hd]; exact Bool.false_ne_true
    have hselected := spells_selectFrom hwritten
    rw [opened, if_neg hno, List.append_assoc] at hbody hfree
    rw [heq]
    refine ⟨_, ?_, hbody, fun _ => hfree, fun h => absurd h hno⟩
    simpa only [Written, Fragment.enclosed, Fragment.chars_append, Fragment.chars_text,
      Fragment.bindings_text, List.length_nil, Nat.add_zero, toList_opening, toList_closing,
      List.cons_append, List.nil_append] using hselected
  · have hno : ¬ d.parenthesizesOperands = true := by rw [hd]; exact Bool.false_ne_true
    obtain ⟨hbody', hselection⟩ := hplain hpage horder
    rw [heq]
    refine ⟨ts, hwritten, hbody', fun hlast => ?_, fun h => absurd h hno⟩
    rcases hlast with hright | h
    · obtain ⟨p, hp⟩ := hside hright
      exact hselection p hp
    · exact absurd h hno

/-- A set operator with its flag, before an operand. -/
theorem written_operator (op : SetOperator) (all : Bool) {f : Fragment} {ts : List Token}
    (h : Written d f ts) :
    WrittenBehind d (.text (" " ++ d.setOperatorKeyword op.keyword ++ (if all then " ALL " else " ")) ++ f)
      (.key op.word :: ((if all then [.word "ALL"] else []) ++ ts)) := by
  have hword : Written d (.text (d.setOperatorKeyword op.keyword)) [.key op.word] := by
    rw [← op.text_word]
    exact written_text (spells_keyword op.word)
  have hflagged : WrittenBehind d (.text (if all then " ALL " else " ") ++ f)
      ((if all then [.word "ALL"] else []) ++ ts) := by
    cases all with
    | true => exact h.behindWords ["ALL"] rfl (by decide +kernel)
    | false => exact h.spaced
  rw [String.append_assoc]
  exact (hword.append hflagged).texts.spaced.texts

/-- The text of a selection is read as a leaf. -/
theorem reads_select (p : SelectPlan) (hp : Query.Contained d (.select p))
    (hc : Plan.checkSelect p = .ok ()) {f : Fragment} (h : Sql.select d p = .ok f) :
    ReadBehind d (.select p) f := by
  obtain ⟨hcontained, ho, _⟩ := hp
  obtain ⟨ws, core, orders, body, us, hw, hf, hselects, hwritten, horders, hbody, hbare⟩ :=
    select_bare hcontained h
  obtain ⟨ts, hts, hquery, hsame⟩ :=
    reads_finish hselects hwritten ho horders (Plan.page_of_checkSelect hc) hbody
  refine ⟨ws, body, hw, hf, ts, hts, ?_, fun hpage horder => ?_⟩
  · rw [SetTree.ofQuery, selectTokens_of hwritten hbare]
    exact hquery
  · -- as an operand it is the leaf without clauses
    have hpage' : p.pagination = none := hpage
    have horder' : p.orderBy = [] := horder
    rw [SetTree.ofQuery, selectTokens_of hwritten hbare, hsame hpage horder, hpage', horder']
    exact ⟨hselects.isBody p.distinct, fun _ _ => (hselects.selection p.distinct .nil).2⟩

mutual

/-- The text of a query is read as its tree. -/
theorem reads_query (q : Query) (hq : q.Contained d) (hc : Plan.checkQuery q = .ok ())
    {f : Fragment} (h : Sql.query d q = .ok f) : ReadBehind d q f := by
  cases q with
  | select p => exact reads_select p hq hc h
  | combined p => exact reads_combined p hq hc h

theorem reads_combined (p : SetPlan) (hp : SetPlan.Contained d p) (hc : Plan.checkSet p = .ok ())
    {f : Fragment} (h : Sql.combined d p = .ok f) : ReadBehind d (.combined p) f := by
  obtain ⟨ws, leftText, rightText, orders, body, _, hw, _, hl, hr, ho, hbody, rfl⟩ := Sql.combined_ok h
  obtain ⟨⟨hleftCtes, hleftChecked⟩, ⟨hrightCtes, hrightChecked⟩, hpage⟩ := Plan.checkSet_ok hc
  obtain ⟨operator, all, left, right, orderBy, pagination, ctes⟩ := p
  obtain ⟨hleft, hright, hterms, _⟩ := hp
  obtain ⟨us, hus, hleftBody, hleftFree, hleftOpening⟩ :=
    ((reads_query left hleft hleftChecked hl).readAs hleftCtes).operand .left
  obtain ⟨vs, hvs, hrightBody, hrightFree, _⟩ :=
    ((reads_query right hright hrightChecked hr).readAs hrightCtes).operand .right
  -- the two operands with their operator are the core, whatever clauses stand around it
  have hcore := hleftBody.link (fun hd => hleftFree (.inr hd)) hrightBody (hrightFree (.inl rfl))
    operator all
  have hwritten := hus.append (written_operator operator all hvs)
  rw [← Fragment.append_assoc] at hwritten
  have hopening (hd : d.parenthesizesOperands = true) : ∃ ts, us ++ .key operator.word ::
      ((if all then [.word "ALL"] else []) ++ vs) = .opening :: ts := by
    obtain ⟨us', rfl⟩ := hleftOpening hd
    exact ⟨_, rfl⟩
  obtain ⟨horder, hordering, hempty⟩ := written_ordering orderBy hterms ho
  obtain ⟨ts, hts, hparted, hsame⟩ := parted_finish hwritten hcore.free.paired
    (isCore_of_opening hcore.free hopening) horder hordering hempty hpage hbody
  refine ⟨ws, body, hw, rfl, ts, hts, hparted.isQuery hcore rfl, fun hnone hno => ?_⟩
  cases (hnone : pagination = none)
  cases (hno : orderBy = [])
  rw [hsame rfl (hempty rfl)]
  exact ⟨hcore, fun _ hselect => nomatch hselect⟩

end

end Scan

end PolyQuery
