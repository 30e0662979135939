import PolyQuery.Proofs.Alternatives
import PolyQuery.Proofs.Calls
import PolyQuery.Proofs.Operands

/-! Conditions as operands of `AND`. A condition that is narrowed keeps its place in the text if its
brackets and quotes are closed, and is one operand there, with all that it says, if it shows no `OR`
outside of brackets. Calls on a selection accumulate such conditions to such a one:
`isConjunct_accumulated`. -/
namespace PolyQuery

namespace Expr
open Grammar
variable {d : Dialect} {e : Expr} {es : List Expr} {f g : Fragment}

/-- The place of a condition that is narrowed. -/
def conjunct : Standing := .operand .and .left

/-- The tokens of a condition as an operand of `AND`, with the brackets that it gets there; none if it
cannot be written. -/
def conjunctTokens (d : Dialect) (e : Expr) : List Token :=
  match Sql.expr d e with
  | .ok f => Scan.tokens d ((conjunct.dress e f).sql d).toList
  | .error _ => []

/-- The text of a condition keeps to its place: its brackets and quotes are closed, and it is read from
its beginning to its end as a row of operators and operands. -/
def KeepsPlace (d : Dialect) (e : Expr) : Prop := ∀ f, Sql.expr d e = .ok f →
  (Scan.Steady d fun n => f.chars d n) ∧ ∃ us, Scan.Reads d us (conjunct.dress e f)

/-- An `OR` stands outside of brackets in the text of a condition that is narrowed. -/
def ShowsOr (d : Dialect) (e : Expr) : Prop :=
  .key .or ∈ Post.start.operators (e.conjunctTokens d)

/-- Both operands of `AND` get the same brackets. -/
theorem needsParens_and (e : Expr) (side : Side) : e.needsParens .and side = conjunct.wraps e := by
  cases e with
  | binary op left right => cases op <;> cases side <;> rfl
  | _ => rfl

theorem dress_and (e : Expr) (f : Fragment) (side : Side) :
    Sql.operand .and side e f = conjunct.dress e f := by
  rw [Sql.operand, needsParens_and, Standing.dress]

theorem conjunctTokens_of_ok (h : Sql.expr d e = .ok f) :
    e.conjunctTokens d = Scan.tokens d ((conjunct.dress e f).sql d).toList := by
  rw [conjunctTokens, h]

/-- A condition that keeps its place has its own tokens wherever it stands. -/
theorem KeepsPlace.written (hk : e.KeepsPlace d) (h : Sql.expr d e = .ok f) :
    Scan.Written d (conjunct.dress e f) (e.conjunctTokens d) ∧
      Post.start.run (e.conjunctTokens d) = ⟨[], false⟩ := by
  obtain ⟨-, us, hreads⟩ := hk f h
  obtain ⟨ts, hwritten, hexposes⟩ := hreads.written
  have htokens : e.conjunctTokens d = ts := by
    rw [conjunctTokens_of_ok h, Fragment.toList_sql]
    exact Scan.Spells.tokens hwritten 0
  rw [htokens]
  exact ⟨hwritten, hexposes.run⟩

theorem dress_chain (e x : Expr) (es : List Expr) (f : Fragment) :
    conjunct.dress (chain .and e (es ++ [x])) f = f := by
  have hchain : chain .and e (es ++ [x]) = .binary .and (chain .and e es) x := List.foldl_append
  rw [hchain]
  rfl

/-- The text of several conditions is that of the first one with the others behind it. -/
theorem written_chain (he : e.KeepsPlace d) (hes : ∀ x ∈ es, x.KeepsPlace d)
    (h : Sql.expr d (chain .and e es) = .ok g) :
    Scan.Written d (conjunct.dress (chain .and e es) g)
      (e.conjunctTokens d ++ behindAnd (es.map (conjunctTokens d))) := by
  induction es using List.reverseRecOn generalizing g with
  | nil =>
    rw [List.map_nil, behindAnd, List.flatMap_nil, List.append_nil]
    exact (he.written h).1
  | append_singleton es x ih =>
    obtain ⟨hes, hx⟩ := List.forall_mem_append.1 hes
    have hchain : chain .and e (es ++ [x]) = .binary .and (chain .and e es) x := List.foldl_append
    rw [dress_chain]
    rw [hchain] at h
    obtain ⟨l, r, hl, hr, rfl⟩ := Sql.binary_ok h
    have hright := ((List.forall_mem_singleton.1 hx).written hr).1
    have hall := Scan.Written.between (ih hes hl) (Scan.spells_symbol .and) hright
    rw [dress_and, dress_and, List.map_append, behindAnd, List.flatMap_append, ← List.append_assoc]
    simpa only [BinaryOp.tokens, List.append_assoc, List.map_cons, List.map_nil, List.flatMap_cons,
      List.flatMap_nil, List.append_nil, List.cons_append, List.nil_append, behindAnd] using hall

/-! ### Conditions that calls accumulate -/

/-- A condition of two is closed if both are. -/
theorem steady_binary (op : BinaryOp) {x y : Expr} (hl : Scan.Steady d fun n => f.chars d n)
    (hr : Scan.Steady d fun n => g.chars d n) : Scan.Steady d fun n =>
      (Sql.operand op .left x f ++ .text (" " ++ op.symbol ++ " ") ++ Sql.operand op .right y g).chars d n := by
  have hclosed := Scan.closed_paired d
  have hsymbol := hclosed.text _ (hclosed.calm _ (calmText_symbol op).spaced)
  exact hclosed.append _ _ (hclosed.append _ _ (hclosed.operand op .left x hl) hsymbol)
    (hclosed.operand op .right y hr)

/-- Conditions that hold together keep their place if each of them does, and show an `OR` only where
one of them does. -/
theorem keepsPlace_and {x y : Expr} (hx : x.KeepsPlace d) (hy : y.KeepsPlace d) :
    (Expr.binary .and x y).KeepsPlace d ∧
      ((Expr.binary .and x y).ShowsOr d → x.ShowsOr d ∨ y.ShowsOr d) := by
  constructor
  · intro f hf
    obtain ⟨l, r, hl, hr, rfl⟩ := Sql.binary_ok hf
    obtain ⟨hsl, us, hul⟩ := hx l hl
    obtain ⟨hsr, vs, hvr⟩ := hy r hr
    refine ⟨steady_binary .and hsl hsr, us ++ BinaryOp.and.sign :: vs, ?_⟩
    rw [dress_and, dress_and]
    exact Scan.reads_binary .and hul hvr
  · intro hor
    cases hf : Sql.expr d (.binary .and x y) with
    | error e =>
      rw [ShowsOr, conjunctTokens, hf] at hor
      cases hor
    | ok f =>
      obtain ⟨l, r, hl, hr, -⟩ := Sql.binary_ok hf
      have hbehind : ∀ e ∈ [y], e.KeepsPlace d := List.forall_mem_singleton.2 hy
      have hall := written_chain hx hbehind hf
      have htokens : (Expr.binary .and x y).conjunctTokens d =
          x.conjunctTokens d ++ behindAnd [y.conjunctTokens d] := by
        rw [conjunctTokens_of_ok hf, Fragment.toList_sql]
        exact Scan.Spells.tokens hall 0
      have hx := (hx.written hl).2
      rw [ShowsOr, htokens, Post.operators_append, hx, List.mem_append] at hor
      refine hor.imp id fun hor => ?_
      -- the AND between the two is met, and behind it the reader is as at the start
      have hand : (Post.mk [] false).operators (behindAnd [y.conjunctTokens d]) =
          .key .and :: Post.start.operators (y.conjunctTokens d) := by
        rw [behindAnd, List.flatMap_singleton]
        rfl
      rw [hand, List.mem_cons] at hor
      exact hor.resolve_left nofun

/-- Conditions one of which must hold get brackets. -/
theorem keepsPlace_or {x y : Expr} (hx : x.KeepsPlace d) (hy : y.KeepsPlace d) :
    (Expr.binary .or x y).KeepsPlace d ∧ ¬ (Expr.binary .or x y).ShowsOr d := by
  have hreads {f : Fragment} (hf : Sql.expr d (.binary .or x y) = .ok f) :
      (Scan.Steady d fun n => f.chars d n) ∧ Scan.Reads d [] f.enclosed := by
    obtain ⟨l, r, hl, hr, rfl⟩ := Sql.binary_ok hf
    have hsteady := steady_binary (x := x) (y := y) .or (hx l hl).1 (hy r hr).1
    exact ⟨hsteady, Scan.reads_enclosed hsteady⟩
  refine ⟨fun f hf => ⟨(hreads hf).1, [], (hreads hf).2⟩, fun hor => ?_⟩
  cases hf : Sql.expr d (.binary .or x y) with
  | error e =>
    rw [ShowsOr, conjunctTokens, hf] at hor
    cases hor
  | ok f =>
    rw [ShowsOr, conjunctTokens_of_ok hf] at hor
    have hnone := (hreads hf).2.own.shown
    rw [Post.start] at hor
    exact absurd (hnone ▸ hor) List.not_mem_nil

/-- A condition that is one operand of `AND`, with all that it says. -/
def IsConjunct (d : Dialect) (e : Expr) : Prop := e.KeepsPlace d ∧ ¬ e.ShowsOr d

theorem isConjunct_chain (he : e.IsConjunct d) (hes : ∀ x ∈ es, x.IsConjunct d) :
    (chain .and e es).IsConjunct d := by
  induction es generalizing e with
  | nil => exact he
  | cons x es ih =>
    obtain ⟨hx, hes⟩ := List.forall_mem_cons.1 hes
    obtain ⟨hkeeps, hshows⟩ := keepsPlace_and he.1 hx.1
    exact ih ⟨hkeeps, fun hor => (hshows hor).elim he.2 hx.2⟩ hes

theorem isConjunct_conjunction? (hes : ∀ x ∈ es, x.IsConjunct d) :
    ∀ e ∈ conjunction? es, e.IsConjunct d := by
  cases es with
  | nil => nofun
  | cons x es =>
    obtain ⟨hx, hes⟩ := List.forall_mem_cons.1 hes
    intro e he
    cases he
    exact isConjunct_chain hx hes

theorem isConjunct_revised {before behind : Option Expr} {given : List Expr}
    (h : Revised before given behind) (hbefore : ∀ e ∈ before, e.IsConjunct d)
    (hgiven : ∀ e ∈ given, e.IsConjunct d) : ∀ e ∈ behind, e.IsConjunct d := by
  cases h with
  | narrowed =>
    refine isConjunct_conjunction? (List.forall_mem_append.2 ⟨fun e he => ?_, hgiven⟩)
    exact hbefore e (Option.mem_toList.1 he)
  | widened h =>
    have hgiven := isConjunct_conjunction? hgiven _ h
    intro e he
    cases before with
    | none =>
      cases he
      exact hgiven
    | some b =>
      cases he
      exact keepsPlace_or (hbefore b rfl).1 hgiven.1

/-- Whatever is called, conditions that are conjuncts accumulate to one. -/
theorem isConjunct_accumulated {before behind : Option Expr} {given : List Expr}
    (h : Accumulated before given behind) (hbefore : ∀ e ∈ before, e.IsConjunct d)
    (hgiven : ∀ e ∈ given, e.IsConjunct d) : ∀ e ∈ behind, e.IsConjunct d := by
  induction h with
  | nothing => exact hbefore
  | more h _ ih =>
    obtain ⟨hgiven, hothers⟩ := List.forall_mem_append.1 hgiven
    exact ih (isConjunct_revised h hbefore hgiven) hothers

/-! ### Conditions without raw text -/

/-- A condition that has no raw text outside of brackets keeps its place, and its text shows the
operators that the condition has there. -/
theorem keepsPlace_of_fits (hp : (Rules.paired d).expr e) (he : conjunct.wraps e = false → e.Fits d) :
    e.KeepsPlace d ∧ ∀ f, Sql.expr d e = .ok f →
      Post.start.operators (e.conjunctTokens d) = if conjunct.wraps e then [] else e.operators d := by
  have hreads {f : Fragment} (hf : Sql.expr d e = .ok f) : (Scan.Steady d fun n => f.chars d n) ∧
      Scan.Reads d (if conjunct.wraps e then [] else e.operators d) (conjunct.dress e f) := by
    have hsteady := (Scan.closed_paired d).of_expr e hp hf
    exact ⟨hsteady, Scan.reads_dressed conjunct hsteady fun hw => Scan.reads_expr e hp (he hw) hf⟩
  refine ⟨fun f hf => ⟨(hreads hf).1, _, (hreads hf).2⟩, fun f hf => ?_⟩
  rw [conjunctTokens_of_ok hf]
  exact (Scan.Reads.own (hreads hf).2).shown

/-- Outside of brackets no name stands around an operand, and no test for existence around an `OR`. -/
def Unveiled : Expr → Prop
  | binary _ left right => left.Unveiled ∧ right.Unveiled
  | unary op e => e.Unveiled ∧ (op.standing = .free → ∀ left right, e ≠ .binary .or left right)
  | inList e _ _ => e.Unveiled
  | inQuery e _ _ => e.Unveiled
  | named _ _ => False
  | _ => True

/-- Then an `OR` stands outside of brackets only if it is the outermost operator. -/
theorem or_of_unveiled (e : Expr) (he : e.Unveiled) (hor : .key .or ∈ e.operators d) :
    ∃ left right, e = .binary .or left right := by
  -- an operand that is an `OR` gets brackets, except under another `OR`
  have hoperand (place : Standing) (x : Expr) (hx : x.Unveiled)
      (ih : .key .or ∈ x.operators d → ∃ left right, x = .binary .or left right)
      (hplace : ∀ left right, x = .binary .or left right → place.wraps x = true) :
      .key .or ∉ if place.wraps x then [] else x.operators d := by
    intro hmem
    split at hmem
    · cases hmem
    · next hw =>
      obtain ⟨left, right, hx⟩ := ih hmem
      exact hw (hplace left right hx)
  cases e with
  | binary op left right =>
    by_cases hop : op = .or
    · exact ⟨left, right, by rw [hop]⟩
    · have hwraps (side : Side) (x : Expr) (l r : Expr) (hx : x = .binary .or l r) :
          (Standing.operand op side).wraps x = true := by
        subst hx
        cases op <;> first | exact absurd rfl hop | rfl
      have hsign : op.sign ≠ .key .or := by
        intro heq
        cases op <;> first | exact absurd rfl hop | cases heq
      rw [operators, List.mem_append, List.mem_cons] at hor
      rcases hor with hor | hor | hor
      · exact absurd hor (hoperand _ left he.1 (or_of_unveiled left he.1) (hwraps .left left))
      · exact absurd hor.symm hsign
      · exact absurd hor (hoperand _ right he.2 (or_of_unveiled right he.2) (hwraps .right right))
  | unary op x =>
    have hnone := hoperand op.standing x he.1 (or_of_unveiled x he.1) fun left right hx => by
      cases hop : op.standing with
      | free => exact absurd hx (he.2 hop left right)
      | _ => subst hx; cases op <;> first | rfl | cases hop
    have hwords {w : Keyword} (hw : w ≠ .or) : Token.key .or ≠ .key w := fun heq =>
      hw (Token.key.inj heq).symm
    have hbehind : Token.key .or ∉ [Token.key .is] := by decide
    refine absurd ?_ hnone
    cases op with
    | not => exact (List.mem_cons.1 hor).resolve_left (hwords nofun)
    | neg => exact hor
    | isNull => exact (List.mem_append.1 hor).resolve_right hbehind
    | isNotNull => exact (List.mem_append.1 hor).resolve_right hbehind
    | exists_ => exact (List.mem_cons.1 hor).resolve_left (hwords nofun)
    | notExists =>
      exact (List.mem_cons.1 ((List.mem_cons.1 hor).resolve_left (hwords nofun))).resolve_left
        (hwords nofun)
  | inList x values negated =>
    have hnone := hoperand .subject x he (or_of_unveiled x he) fun left right hx =>
      hx ▸ rfl
    rw [operators] at hor
    split at hor
    · cases List.mem_singleton.1 hor
    · split at hor
      · refine absurd ((List.mem_append.1 hor).resolve_right fun h => ?_) hnone
        cases List.mem_singleton.1 h
      · cases hor
  | inQuery x q negated =>
    have hnone := hoperand .subject x he (or_of_unveiled x he) fun left right hx =>
      hx ▸ rfl
    refine absurd ((List.mem_append.1 hor).resolve_right fun h => ?_) hnone
    cases List.mem_singleton.1 h
  | named x name => exact he.elim
  | _ => cases hor

/-- A condition without raw text and names outside of brackets is a conjunct. -/
theorem isConjunct_of_unveiled (hp : (Rules.paired d).expr e) (hf : e.Fits d) (he : e.Unveiled) :
    e.IsConjunct d := by
  obtain ⟨hkeeps, hshown⟩ := keepsPlace_of_fits hp fun _ => hf
  refine ⟨hkeeps, fun hor => ?_⟩
  cases hwritten : Sql.expr d e with
  | error fault =>
    rw [ShowsOr, conjunctTokens, hwritten] at hor
    cases hor
  | ok f =>
    rw [ShowsOr, hshown f hwritten] at hor
    split at hor
    · cases hor
    · next hw =>
      obtain ⟨left, right, rfl⟩ := or_of_unveiled e he hor
      exact hw rfl

/-- A comparison is a test. -/
theorem isTest_of_fits (hp : (Rules.paired d).expr e) (he : e.Fits d) (hw : conjunct.wraps e = false)
    (hoperators : ∀ t ∈ e.operators d, t ≠ .key .and ∧ t ≠ .key .or)
    (hf : Sql.expr d e = .ok f) : e.KeepsPlace d ∧ IsTest (e.conjunctTokens d) := by
  obtain ⟨hkeeps, hshown⟩ := keepsPlace_of_fits hp fun _ => he
  have hsame := hshown f hf
  rw [hw, if_neg Bool.false_ne_true] at hsame
  refine ⟨hkeeps, (hkeeps.written hf).2, ?_, ?_⟩
  · rw [hsame]
    exact fun hmem => (hoperators _ hmem).1 rfl
  · rw [hsame]
    exact fun hmem => (hoperators _ hmem).2 rfl

/-- Several conditions can be written only if each of them can. -/
theorem ok_of_chain (h : Sql.expr d (chain .and e es) = .ok g) :
    ∀ x ∈ e :: es, ∃ f, Sql.expr d x = .ok f := by
  induction es generalizing e with
  | nil => exact List.forall_mem_singleton.2 ⟨g, h⟩
  | cons x es ih =>
    obtain ⟨⟨_, hfirst⟩, hothers⟩ := List.forall_mem_cons.1 (ih h)
    obtain ⟨l, r, hl, hr, -⟩ := Sql.binary_ok hfirst
    exact List.forall_mem_cons.2 ⟨⟨l, hl⟩, List.forall_mem_cons.2 ⟨⟨r, hr⟩, hothers⟩⟩

theorem ok_of_conjunction (he : conjunction? es = some e) (h : Sql.expr d e = .ok g) :
    ∀ x ∈ es, ∃ f, Sql.expr d x = .ok f := by
  cases es with
  | nil => cases he
  | cons x es =>
    cases he
    exact ok_of_chain h

end Expr

end PolyQuery
