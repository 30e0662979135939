import PolyQuery.Proofs.SetTree

/-! How the reader of set operations goes over tokens. What stands in brackets is passed over, so that
a query is taken apart at the words outside of them: `inPlace_clauses`, `combination_link`. -/
namespace PolyQuery

/-- Every bracket has its partner, and no token of a class stands outside of brackets. -/
inductive Free (p : Token → Bool) : List Token → Prop
  | nil : Free p []
  | plain {t : Token} {ts : List Token} (ht : t.isBracket = false) (hp : p t = false)
    (h : Free p ts) : Free p (t :: ts)
  | group {ts us : List Token} (h : Paired ts) (h' : Free p us) :
    Free p (.opening :: ts ++ .closing :: us)

namespace Free
variable {p q : Token → Bool} {ts us : List Token}

theorem append (h : Free p ts) (h' : Free p us) : Free p (ts ++ us) := by
  induction h with
  | nil => exact h'
  | plain ht hp _ ih => exact .plain ht hp ih
  | group hts _ ih =>
    rw [List.append_assoc, List.cons_append]
    exact .group hts ih

theorem paired (h : Free p ts) : Paired ts := by
  induction h with
  | nil => exact .nil
  | plain ht _ _ ih => exact .plain ht ih
  | group hts _ ih => exact .group hts ih

theorem mono (hpq : ∀ t, q t = true → p t = true) (h : Free p ts) : Free q ts := by
  induction h with
  | nil => exact .nil
  | @plain t ts ht hp _ ih =>
    refine .plain ht ?_ ih
    cases hq : q t with
    | false => rfl
    | true => rw [hpq t hq] at hp; exact hp
  | group hts _ ih => exact .group hts ih

theorem enclosed (h : Paired ts) : Free p (.opening :: ts ++ [.closing]) := .group h .nil

theorem of_plain (h : ∀ t ∈ ts, t.isBracket = false ∧ p t = false) : Free p ts := by
  induction ts with
  | nil => exact .nil
  | cons t ts ih =>
    obtain ⟨⟨ht, hp⟩, hts⟩ := List.forall_mem_cons.1 h
    exact .plain ht hp (ih hts)

theorem tail {t : Token} (h : Free p (t :: ts)) (ht : t.isBracket = false) :
    p t = false ∧ Free p ts := by
  generalize hall : t :: ts = all at h
  cases h with
  | nil => cases hall
  | plain _ hp h => cases hall; exact ⟨hp, h⟩
  | group _ _ => cases hall; cases ht

end Free

namespace Grammar
variable {p : Token → Bool} {ts us : List Token}

theorem nest_plain {t : Token} (ht : t.isBracket = false) (k : Nat) : t.nest k = k := by
  cases t with
  | opening => cases ht
  | closing => cases ht
  | _ => rfl

/-- What goes through the tokens below a bracket one by one passes over paired ones. -/
theorem pass_inner {α : Type} {walk : Nat → List Token → List Token × α}
    (hstep : ∀ k t ts, walk (k + 1) (t :: ts) =
      (t :: (walk (t.nest (k + 1)) ts).1, (walk (t.nest (k + 1)) ts).2))
    (h : Paired ts) (k : Nat) (us : List Token) :
    walk (k + 1) (ts ++ us) = (ts ++ (walk (k + 1) us).1, (walk (k + 1) us).2) := by
  induction h generalizing k us with
  | nil => rfl
  | @plain t ts ht _ ih =>
    rw [List.cons_append, hstep, nest_plain ht, ih]
    rfl
  | @group ts vs _ _ ih ih' =>
    have hopening : Token.opening.nest (k + 1) = k + 1 + 1 := rfl
    have hclosing : Token.closing.nest (k + 1 + 1) = k + 1 := rfl
    rw [List.append_assoc, List.cons_append, List.cons_append, hstep, hopening, ih, hstep,
      hclosing, ih']
    simp

theorem cut_inner (h : Paired ts) (k : Nat) (us : List Token) :
    cut p (k + 1) (ts ++ us) = (ts ++ (cut p (k + 1) us).1, (cut p (k + 1) us).2) := by
  refine pass_inner (fun k t ts => ?_) h k us
  rw [cut, if_neg fun hk => Nat.succ_ne_zero k hk.1]

/-- Tokens without one of the class outside of brackets stand before the cut. -/
theorem cut_free (h : Free p ts) (us : List Token) :
    cut p 0 (ts ++ us) = (ts ++ (cut p 0 us).1, (cut p 0 us).2) := by
  induction h with
  | nil => rfl
  | @plain t ts ht hp _ ih =>
    rw [List.cons_append, cut, if_neg fun h => Bool.false_ne_true (hp.symm.trans h.2.2),
      nest_plain ht, ih]
    rfl
  | @group ts vs hts _ ih =>
    have hopening (vs : List Token) : cut p 0 (.opening :: vs) =
        (.opening :: (cut p 1 vs).1, (cut p 1 vs).2) := rfl
    have hclosing (vs : List Token) : cut p (0 + 1) (.closing :: vs) =
        (.closing :: (cut p 0 vs).1, (cut p 0 vs).2) := rfl
    rw [List.append_assoc, List.cons_append, List.cons_append, hopening, cut_inner hts, hclosing, ih]
    simp

theorem cut_nil : cut p 0 [] = ([], []) := rfl

theorem cut_stop {t : Token} (ht : t.isBracket = false) (hp : p t = true) :
    cut p 0 (t :: ts) = ([], t :: ts) := by rw [cut, if_pos ⟨rfl, ht, hp⟩]

theorem segments_inner (h : Paired ts) (k : Nat) (us : List Token) :
    segments (k + 1) (ts ++ us) = (ts ++ (segments (k + 1) us).1, (segments (k + 1) us).2) := by
  refine pass_inner (fun k t ts => ?_) h k us
  rw [segments, if_neg (Nat.succ_ne_zero k)]

theorem segments_group (h : Paired ts) (us : List Token) :
    segments 0 (.opening :: (ts ++ .closing :: us)) =
      (.opening :: (ts ++ .closing :: (segments 0 us).1), (segments 0 us).2) := by
  have hopening : Token.opening.nest 0 = 0 + 1 := rfl
  have hclosing : Token.closing.nest (0 + 1) = 0 := rfl
  have hinner : segments (0 + 1) (.closing :: us) =
      (.closing :: (segments 0 us).1, (segments 0 us).2) := rfl
  rw [segments, if_pos rfl]
  dsimp only [Token.setOperator?]
  rw [hopening, segments_inner h, hinner]

theorem segments_plain {t : Token} (ht : t.isBracket = false) (ho : t.setOperator? = none) :
    segments 0 (t :: ts) = (t :: (segments 0 ts).1, (segments 0 ts).2) := by
  rw [segments, if_pos rfl, ho, nest_plain ht]

theorem segments_operator {t : Token} {op : SetOperator} (ho : t.setOperator? = some op) :
    segments 0 (t :: ts) = ([], (op, (segments 0 ts).1) :: (segments 0 ts).2) := by
  rw [segments, if_pos rfl, ho]

/-- Tokens without a set operator outside of brackets are one operand. -/
theorem segments_free (h : Free (fun t => t.setOperator?.isSome) ts) :
    segments 0 ts = (ts, []) := by
  induction h with
  | nil => rfl
  | @plain t ts ht hp _ ih => rw [segments_plain ht (Option.isNone_iff_eq_none.1 (by simpa using hp)), ih]
  | @group ts vs hts _ ih =>
    rw [List.cons_append, segments_group hts, ih]

/-- A set operator outside of brackets ends the operand before it. -/
theorem segments_append (h : Paired ts) {t : Token} {op : SetOperator}
    (ho : t.setOperator? = some op) (us : List Token) :
    segments 0 (ts ++ t :: us) = ((segments 0 ts).1,
      (segments 0 ts).2 ++ (op, (segments 0 us).1) :: (segments 0 us).2) := by
  induction h with
  | nil => exact segments_operator ho
  | @plain v ts hv _ ih =>
    rw [List.cons_append]
    cases hop : v.setOperator? with
    | none => rw [segments_plain hv hop, segments_plain hv hop, ih]
    | some o => rw [segments_operator hop, segments_operator hop, ih]; rfl
  | @group ts vs hts _ _ ih =>
    have hgroup := segments_group hts (vs ++ t :: us)
    rw [List.append_assoc, List.cons_append, List.cons_append, hgroup, List.cons_append,
      segments_group hts, ih]

theorem behind?_append (xs ts : List Token) : behind? xs (xs ++ ts) = some ts := by
  induction xs with
  | nil => rfl
  | cons x xs ih => rw [List.cons_append, behind?, if_pos rfl, ih]

theorem behind?_eq_some {xs : List Token} (h : behind? xs ts = some us) : ts = xs ++ us := by
  induction xs generalizing ts with
  | nil => cases h; rfl
  | cons x xs ih =>
    cases ts with
    | nil => cases h
    | cons t ts =>
      rw [behind?] at h
      by_cases hx : x = t
      · rw [if_pos hx] at h
        rw [hx, ih h]
        rfl
      · rw [if_neg hx] at h
        cases h

theorem behind?_ne {x t : Token} (h : x ≠ t) (xs : List Token) : behind? (x :: xs) (t :: ts) = none := by
  rw [behind?, if_neg h]

section
variable {d : Dialect} {next : List Token → Option SetTree}

/-- An operand that is a query of its own is read as this query. -/
theorem setOperand_opened (h : Paired ts) :
    setOperand d next (opened d ++ ts ++ [.closing]) = next ts := by
  have hinside : inside? d (opened d ++ ts ++ [.closing]) = some ts := by
    rw [inside?, List.append_assoc, behind?_append]
    simp only [Option.bind_eq_bind, Option.bind_some, close_closing h]
    rfl
  rw [setOperand, hinside]

theorem setOperand_selection (hin : inside? d (.key .select :: ts) = none) :
    setOperand d next (.key .select :: ts) = some (.leaf (.key .select :: ts) [] []) := by
  rw [setOperand, hin]
  rfl

/-- One operand alone. -/
theorem combination_single (h : Free (fun t => t.setOperator?.isSome) ts) :
    combination d next ts = setOperand d next ts := by
  rw [combination, segments_free h, if_neg (by simp)]
  exact Option.bind_fun_some _

/-- One more operand on the right. -/
theorem combination_link (h : Paired ts) {t : Token} {op : SetOperator}
    (ho : t.setOperator? = some op) (hus : Free (fun t => t.setOperator?.isSome) us)
    (hone : d.parenthesizesOperands = true → (segments 0 ts).2 = []) :
    combination d next (ts ++ t :: us) =
      (combination d next ts).bind fun l => link d next l (op, us) := by
  have hsegments := segments_append h ho us
  rw [segments_free hus] at hsegments
  -- with one operator on a level there are never more than two operands
  have hfew : ¬(d.parenthesizesOperands = true ∧ 1 < (segments 0 (ts ++ t :: us)).2.length) := by
    rintro ⟨hd, hlength⟩
    rw [hsegments, hone hd] at hlength
    exact absurd hlength (by simp)
  have hfew' : ¬(d.parenthesizesOperands = true ∧ 1 < (segments 0 ts).2.length) := by
    rintro ⟨hd, hlength⟩
    rw [hone hd] at hlength
    exact absurd hlength (by simp)
  rw [combination, combination, if_neg hfew, if_neg hfew', hsegments]
  dsimp only
  rw [Option.bind_assoc]
  congr 1
  funext l
  rw [List.foldlM_append]
  congr 1
  funext l'
  exact Option.bind_fun_some _

end

/-- An ordering behind its words, if there is one. -/
def orderWords (order : List Token) : List Token :=
  if order = [] then [] else .word "ORDER" :: .word "BY" :: order

theorem isSection_of_isPage {t : Token} (h : t.isPage = true) :
    t.isBracket = false ∧ t.isSection = true ∧ t ≠ .word "ORDER" := by
  cases t with
  | word s =>
    refine ⟨rfl, ?_, fun hs => ?_⟩
    · rw [Token.isSection, h, Bool.or_true]
    · cases hs
      exact absurd h (by decide)
  | _ => cases h

/-- A page, or nothing. -/
def IsPage (page : List Token) : Prop := ∀ t ∈ page.head?, Token.isPage t = true

theorem isPage_nil : IsPage [] := fun _ ht => nomatch ht

theorem cut_page {order page : List Token} (ho : Free Token.isPage order) (hpage : IsPage page) :
    cut Token.isPage 0 (order ++ page) = (order, page) := by
  rw [cut_free ho]
  cases page with
  | nil => rw [cut_nil, List.append_nil]
  | cons t ts =>
    have ht := hpage t rfl
    rw [cut_stop (isSection_of_isPage ht).1 ht, List.append_nil]

theorem inPlace_ordered {core order page : List Token} (hc : Free Token.isSection core)
    (ho : Free Token.isPage order) (hpage : IsPage page) :
    inPlace (core ++ (.word "ORDER" :: .word "BY" :: (order ++ page))) =
      ⟨core, if order = anyOrder then [] else order, page⟩ := by
  have hcut : cut Token.isSection 0 (core ++ (.word "ORDER" :: .word "BY" :: (order ++ page))) =
      (core, .word "ORDER" :: .word "BY" :: (order ++ page)) := by
    rw [cut_free hc, cut_stop rfl (by decide), List.append_nil]
  have hbehind : behind? [.word "ORDER", .word "BY"]
      (.word "ORDER" :: .word "BY" :: (order ++ page)) = some (order ++ page) :=
    behind?_append [.word "ORDER", .word "BY"] _
  rw [inPlace, hcut]
  dsimp only
  rw [hbehind]
  dsimp only
  rw [cut_page ho hpage]

theorem inPlace_unordered {core page : List Token} (hc : Free Token.isSection core)
    (hpage : IsPage page) : inPlace (core ++ page) = ⟨core, [], page⟩ := by
  have hcut : cut Token.isSection 0 (core ++ page) = (core, page) ∧
      behind? [.word "ORDER", .word "BY"] page = none := by
    rw [cut_free hc]
    cases page with
    | nil => exact ⟨by rw [cut_nil, List.append_nil], rfl⟩
    | cons t ts =>
      obtain ⟨hplain, hsection, hne⟩ := isSection_of_isPage (hpage t rfl)
      exact ⟨by rw [cut_stop hplain hsection, List.append_nil], behind?_ne hne.symm _⟩
  rw [inPlace, hcut.1]
  dsimp only
  rw [hcut.2]

/-- The clauses behind a query are found. -/
theorem inPlace_clauses {core order page : List Token} (hc : Free Token.isSection core)
    (ho : Free Token.isPage order) (hany : order ≠ anyOrder) (hpage : IsPage page) :
    inPlace (core ++ orderWords order ++ page) = ⟨core, order, page⟩ := by
  rw [orderWords, List.append_assoc]
  by_cases horder : order = []
  · rw [if_pos horder, List.nil_append, inPlace_unordered hc hpage, horder]
  · have hordered := inPlace_ordered hc ho hpage
    rw [if_neg hany] at hordered
    rw [if_neg horder]
    exact hordered

/-- What stands behind `SELECT`, its modifiers and its count of rows in a selection: no word that
ends a selection, and no source that would be taken for a query put between brackets. -/
structure Selects (d : Dialect) (ts : List Token) : Prop where
  free : Free (Token.isBreak d) ts
  source : ∀ tail us, Free Token.isFrom tail →
    behind? [.mark "*", .word "FROM", .opening] (ts ++ tail) = some us →
      ∃ inside t rest, close 0 us = some (inside, t :: rest) ∧ t ≠ .word "WHERE" ∧
        (d.paginationStyle = .top → behind? [.word "AS", .word "q_"] (t :: rest) = none)

/-- A selection of all rows or of different ones, perhaps with their count. -/
def selection (distinct : Bool) (count ts : List Token) : List Token :=
  .key .select :: ((if distinct then [.key .distinct] else []) ++ (count ++ ts))

section
variable {d : Dialect} {next : List Token → Option SetTree}

theorem free_of_isBreak (h : Free (Token.isBreak d) ts) :
    Free Token.isSection ts ∧ Free (fun t => t.setOperator?.isSome) ts := by
  refine ⟨h.mono fun t ht => ?_, h.mono fun t ht => ?_⟩
  · rw [Token.isBreak, ht, Bool.true_or, Bool.true_or]
  · rw [Token.isBreak, ht, Bool.or_true, Bool.true_or]

theorem Selects.selection {count : List Token} (h : Selects d ts) (distinct : Bool)
    (hcount : Free (fun t => t.isSection || t.setOperator?.isSome) count) :
    Free Token.isSection (selection distinct count ts) ∧
      Free (fun t => t.setOperator?.isSome) (selection distinct count ts) := by
  have hsection : Free Token.isSection count :=
    hcount.mono fun t ht => by rw [ht, Bool.true_or]
  have hoperator : Free (fun t => t.setOperator?.isSome) count :=
    hcount.mono fun t ht => by rw [ht, Bool.or_true]
  obtain ⟨hs, ho⟩ := free_of_isBreak h.free
  unfold Grammar.selection
  cases distinct with
  | false => exact ⟨.plain rfl rfl (hsection.append hs), .plain rfl rfl (hoperator.append ho)⟩
  | true =>
    exact ⟨.plain rfl rfl (.plain rfl rfl (hsection.append hs)),
      .plain rfl rfl (.plain rfl rfl (hoperator.append ho))⟩

/-- A selection is no query put between brackets. -/
theorem Selects.behind_none {tail : List Token} (h : Selects d ts) (htail : Free Token.isFrom tail)
    {distinct : Bool} {us : List Token}
    (hus : behind? selectFrom (Grammar.selection distinct [] ts ++ tail) = some us) :
    ∃ inside t rest, close 0 us = some (inside, t :: rest) ∧ t ≠ .word "WHERE" := by
  unfold Grammar.selection at hus
  cases distinct with
  | true =>
    have hall := behind?_eq_some hus
    cases hall
  | false =>
    obtain ⟨inside, t, rest, hclose, ht, _⟩ := h.source tail us htail hus
    exact ⟨inside, t, rest, hclose, ht⟩

/-- A selection alone is read as a leaf. -/
theorem combination_selection (h : Selects d ts) (distinct : Bool) :
    combination d next (selection distinct [] ts) =
      some (.leaf (selection distinct [] ts) [] []) := by
  have hinside : inside? d (selection distinct [] ts) = none := by
    rw [inside?, opened]
    by_cases hd : d.parenthesizesOperands = true
    · rw [if_pos hd]
      rfl
    · rw [if_neg hd]
      cases hus : behind? selectFrom (selection distinct [] ts) with
      | none => rfl
      | some us =>
        rw [← List.append_nil (selection distinct [] ts)] at hus
        obtain ⟨inside, t, rest, hclose, _⟩ := h.behind_none .nil hus
        simp only [Option.bind_eq_bind, Option.bind_some, hclose]
        rfl
  rw [combination_single (h.selection distinct .nil).2]
  exact setOperand_selection hinside

/-- A query whose brackets are followed by other words is not numbered. -/
theorem numbered?_none (h : ∀ us, behind? selectFrom ts = some us →
    ∃ inside t rest, close 0 us = some (inside, t :: rest) ∧ t ≠ .word "WHERE") :
    numbered? ts = none := by
  rw [numbered?]
  cases hus : behind? selectFrom ts with
  | none => rfl
  | some us =>
    obtain ⟨inside, t, rest, hclose, ht⟩ := h us hus
    simp only [Option.bind_eq_bind, Option.bind_some, hclose, behind?_ne ht.symm, Option.bind_none]

theorem numbered?_upper {inside upper : List Token} (h : Paired inside) :
    numbered? (selectFrom ++ (inside ++ .closing :: .word "WHERE" :: .word "ROWNUM" :: upper)) =
      some (inside, upper) := by
  have hwords := behind?_append [.word "WHERE", .word "ROWNUM"] upper
  simp only [List.cons_append, List.nil_append] at hwords
  rw [numbered?, behind?_append]
  simp only [Option.bind_eq_bind, Option.bind_some, close_closing h, hwords]

theorem paired_selectFrom {core : List Token} (h : Paired core) {rest : List Token}
    (h' : Paired rest) : Paired (selectFrom ++ (core ++ .closing :: rest)) :=
  .plain rfl (.plain rfl (.plain rfl (.group h h')))

theorem paired_rowNumbers {core : List Token} (h : Paired core) {rest : List Token}
    (h' : Paired rest) : Paired (rowNumbers ++ (core ++ .closing :: rest)) :=
  .plain rfl (.plain rfl (.plain rfl (.plain rfl (.plain rfl (.plain rfl (.plain rfl (.plain rfl
    (.group h h'))))))))

theorem numbered?_lower {core between lower : List Token} (h : Paired core) (h' : Paired between) :
    numbered? (selectFrom ++ (rowNumbers ++ (core ++ .closing :: .word "q_" :: between) ++
      .closing :: .word "WHERE" :: .word "rn_" :: lower)) =
      match behind? [.word "WHERE", .word "ROWNUM"] between with
      | some upper => some (core, upper ++ lower)
      | none => if between.isEmpty then some (core, lower) else none := by
  have hnumbered : Paired (rowNumbers ++ (core ++ .closing :: .word "q_" :: between)) :=
    paired_rowNumbers h (.plain rfl h')
  have hclose := close_closing hnumbered (.word "WHERE" :: .word "rn_" :: lower)
  have hrows : behind? [.word "WHERE", .word "ROWNUM"] (.word "WHERE" :: .word "rn_" :: lower) =
      none := rfl
  have hlower : behind? [.word "WHERE", .word "rn_"] (.word "WHERE" :: .word "rn_" :: lower) =
      some lower := behind?_append [.word "WHERE", .word "rn_"] _
  have hbetween : behind? [.word "q_"] (.word "q_" :: between) = some between :=
    behind?_append [.word "q_"] _
  rw [numbered?, behind?_append]
  cases hupper : behind? [.word "WHERE", .word "ROWNUM"] between <;>
    simp only [Option.bind_eq_bind, Option.bind_some, hclose, hrows, hlower, behind?_append,
      close_closing h, hbetween, hupper]

theorem sections_eq_inPlace (hd : d.paginationStyle = .limitOffset ∨ d.paginationStyle = .offsetFetch) :
    sections d ts = inPlace ts := by
  rw [sections]
  rcases hd with hd | hd
  · rw [hd]
  · rw [hd]

theorem sections_numbered (hd : d.paginationStyle = .rownum) {inside page : List Token}
    (h : numbered? ts = some (inside, page)) :
    sections d ts = { inPlace inside with page := page } := by
  rw [sections, hd]
  dsimp only
  rw [h]

theorem sections_unnumbered (hd : d.paginationStyle = .rownum) (h : numbered? ts = none) :
    sections d ts = inPlace ts := by
  rw [sections, hd]
  dsimp only
  rw [h]

theorem sections_headed (hd : d.paginationStyle = .top) (h : topped? ts = none) :
    sections d ts = headed (inPlace ts) := by
  rw [sections, hd]
  dsimp only
  rw [h]

theorem inPlace_orderWords {core order : List Token} (hc : Free Token.isSection core)
    (ho : Free Token.isPage order) (hany : order ≠ anyOrder) :
    inPlace (core ++ orderWords order) = ⟨core, order, []⟩ := by
  have h := inPlace_clauses hc ho hany isPage_nil
  rwa [List.append_nil] at h

/-- The first rows of a query between brackets. -/
theorem sections_topped (hd : d.paginationStyle = .top) {core order : List Token} {n : Token}
    (hc : Paired core) (ho : Free Token.isPage order) (hany : order ≠ anyOrder) :
    sections d (.key .select :: .word "TOP" :: n :: .mark "*" :: .word "FROM" :: .opening ::
      (core ++ .closing :: .word "AS" :: .word "q_" :: orderWords order)) =
        ⟨core, order, [.word "TOP", n]⟩ := by
  -- the words around the inner query are told apart by their own tokens
  have htopped : topped? (.key .select :: .word "TOP" :: n :: .mark "*" :: .word "FROM" ::
      .opening :: (core ++ .closing :: .word "AS" :: .word "q_" :: orderWords order)) =
        some (n, core, orderWords order) := by
    have hhead (us : List Token) : behind? [.key .select, .word "TOP"]
        (.key .select :: .word "TOP" :: us) = some us := behind?_append [_, _] us
    have hfrom (us : List Token) : behind? [.mark "*", .word "FROM", .opening]
        (.mark "*" :: .word "FROM" :: .opening :: us) = some us := behind?_append [_, _, _] us
    have hname (us : List Token) : behind? [.word "AS", .word "q_"]
        (.word "AS" :: .word "q_" :: us) = some us := behind?_append [_, _] us
    rw [topped?, hhead]
    simp only [Option.bind_eq_bind, Option.bind_some, List.head?_cons, List.tail_cons, hfrom,
      close_closing hc, hname]
  have horder := inPlace_orderWords .nil ho hany
  rw [List.nil_append] at horder
  rw [sections, hd]
  dsimp only
  rw [htopped]
  dsimp only
  rw [horder]
  rfl

theorem Selects.ne_top (h : Selects d ts) (hd : d.paginationStyle = .top) (us : List Token) :
    ts ≠ .word "TOP" :: us ∧ ts ≠ .key .distinct :: .word "TOP" :: us := by
  have htop : Token.isBreak d (.word "TOP") = true := by
    have hupper : Text.upper "TOP" == "TOP" := by decide +kernel
    rw [Token.isBreak, Token.isTop, hd, hupper]
    exact Bool.or_true _
  refine ⟨fun heq => ?_, fun heq => ?_⟩
  · have hfree := h.free
    rw [heq] at hfree
    rw [(hfree.tail rfl).1] at htop
    cases htop
  · have hfree := h.free
    rw [heq] at hfree
    rw [((hfree.tail rfl).2.tail rfl).1] at htop
    cases htop

/-- The count of rows is taken out of the head of a selection. -/
theorem headed_selection (h : Selects d ts) (hd : d.paginationStyle = .top) (distinct : Bool)
    (order : List Token) (n : String) :
    headed ⟨selection distinct [] ts, order, []⟩ = ⟨selection distinct [] ts, order, []⟩ ∧
      headed ⟨selection distinct [.word "TOP", .word n] ts, order, []⟩ =
        ⟨selection distinct [] ts, order, [.word "TOP", .word n]⟩ := by
  refine ⟨?_, by cases distinct <;> rfl⟩
  rw [headed]
  split
  · next m us heq =>
    cases distinct with
    | true => cases heq
    | false => exact absurd (List.cons.inj heq).2 (h.ne_top hd _).1
  · next m us heq =>
    cases distinct with
    | true => exact absurd (List.cons.inj (List.cons.inj heq).2).2 (h.ne_top hd _).1
    | false => exact absurd (List.cons.inj heq).2 (h.ne_top hd _).2
  · rfl

/-- A selection is not the selection of the first rows of a query between brackets. -/
theorem topped?_selection (h : Selects d ts) (hd : d.paginationStyle = .top) (distinct : Bool)
    {tail : List Token} (htail : Free Token.isFrom tail) (hhead : tail.head? ≠ some (.word "TOP"))
    (n : String) :
    topped? (selection distinct [] ts ++ tail) = none ∧
      topped? (selection distinct [.word "TOP", .word n] ts ++ tail) = none := by
  cases distinct with
  | true => exact ⟨rfl, rfl⟩
  | false =>
    refine ⟨?_, ?_⟩
    · have hnone : behind? [.key .select, .word "TOP"] (selection false [] ts ++ tail) = none := by
        cases hus : behind? [.key .select, .word "TOP"] (selection false [] ts ++ tail) with
        | none => rfl
        | some us =>
          exfalso
          have hall : ts ++ tail = .word "TOP" :: us := (List.cons.inj (behind?_eq_some hus)).2
          cases ts with
          | nil => exact hhead (congrArg List.head? hall)
          | cons t ts => exact (h.ne_top hd ts).1 (congrArg (· :: ts) (List.cons.inj hall).1)
      rw [topped?, hnone]
      rfl
    · have hhead : behind? [.key .select, .word "TOP"]
          (selection false [.word "TOP", .word n] ts ++ tail) = some (.word n :: (ts ++ tail)) :=
        behind?_append [_, _] _
      rw [topped?, hhead]
      simp only [Option.bind_eq_bind, Option.bind_some, List.head?_cons, List.tail_cons]
      -- a source in brackets would have to be shown by the name that is kept for pages
      cases hus : behind? [.mark "*", .word "FROM", .opening] (ts ++ tail) with
      | none => rfl
      | some us =>
        obtain ⟨inside, t, rest, hclose, _, hname⟩ := h.source tail us htail hus
        simp only [Option.bind_some, hclose, hname hd, Option.bind_none]

theorem readQuery_of {fuel : Nat} {body order page : List Token} {t u : SetTree}
    (hs : sections d ts = ⟨body, order, page⟩)
    (hb : combination d (readQuery d fuel) body = some t) (ht : t.attach order page = some u) :
    readQuery d (fuel + 1) ts = some u := by
  rw [readQuery, hs]
  dsimp only
  rw [hb, Option.bind_some, ht]

end

end Grammar

end PolyQuery
