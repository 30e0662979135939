import PolyQuery.Proofs.Legible

/-! Expressions that keep to their place in a selection: `Expr.Contained`. What they hold between
brackets only has its brackets paired; what stands outside of them ends no clause. Main statement:
`legible_expr`. -/
namespace PolyQuery

/-- The names of calls and raw texts close what they open, and pages have checked bounds. -/
def Rules.paired (d : Dialect) : Rules where
  call := fun name => Scan.Steady d fun _ => name.toList
  raw := fun sql => ∀ values f, Raw.fragment sql values = .ok f →
    Scan.Steady d fun n => f.chars d n
  page := fun p => Plan.checkPagination (some p) = .ok ()

theorem Scan.closed_paired (d : Dialect) : Closed d (Rules.paired d)
    (fun s => Steady d fun _ => s.toList) (fun f => Steady d fun n => f.chars d n) :=
  closed_steady_of (fun _ h => h) (fun _ values f h hf => h values f hf) (fun _ h => h)

namespace Expr

mutual

/-- The names of calls outside of brackets hold no word of a clause, raw texts outside of brackets hold
none, and a window that stands there has no ordering. Operands in parentheses, arguments, lists,
the windows of calls and queries stand between brackets. -/
def Contained (d : Dialect) : Expr → Prop
  | column _ _ _ => True
  | star _ => True
  | literal _ _ => True
  | binary op left right =>
    (left.needsParens op .left = true ∧ (Rules.paired d).expr left ∨ Contained d left) ∧
      (right.needsParens op .right = true ∧ (Rules.paired d).expr right ∨ Contained d right)
  | unary op e =>
    (op ≠ .exists_ ∧ op ≠ .notExists ∧ e.precedence ≠ atomicPrecedence ∧
      (Rules.paired d).expr e) ∨ Contained d e
  | inList e values _ => values = [] ∨
    (e.precedence ≠ atomicPrecedence ∧ (Rules.paired d).expr e ∨ Contained d e) ∧
      (Rules.paired d).exprs values
  | inQuery e q _ =>
    (e.precedence ≠ atomicPrecedence ∧ (Rules.paired d).expr e ∨ Contained d e) ∧
      (Rules.paired d).query q
  | call name arguments _ windowed => Scan.Legible d (.text name) ∧ (Rules.paired d).exprs arguments ∧
      (Rules.paired d).optionalWindow windowed
  | window ⟨partitionBy, orderBy, frame⟩ => AllContained d partitionBy ∧ orderBy = [] ∧
      ∀ f, frame = some f → Scan.Legible d (.text (Sql.frameText f))
  | subquery q => (Rules.paired d).query q
  | cases branches otherwise => BranchesContained d branches ∧ OptionalContained d otherwise
  | named e _ => Contained d e
  | raw sql values => ∀ f, Raw.fragment sql values = .ok f → Scan.Legible d f

def BranchesContained (d : Dialect) : List Branch → Prop
  | [] => True
  | ⟨condition, result⟩ :: rest =>
    Contained d condition ∧ Contained d result ∧ BranchesContained d rest

def OptionalContained (d : Dialect) : Option Expr → Prop
  | none => True
  | some e => Contained d e

def AllContained (d : Dialect) : List Expr → Prop
  | [] => True
  | e :: es => Contained d e ∧ AllContained d es

end

end Expr

namespace Scan
variable {d : Dialect}

theorem legible_operand {e : Expr} {op : BinaryOp} {side : Side} {f : Fragment}
    (h : e.needsParens op side = true ∧ (Steady d fun n => f.chars d n) ∨ Legible d f) :
    Legible d (Sql.operand op side e f) := by
  rw [Sql.operand]
  rcases h with ⟨hparens, hsteady⟩ | hlegible
  · rw [if_pos hparens]
    exact hsteady.legible_enclosed.legible
  · by_cases hparens : e.needsParens op side = true
    · rw [if_pos hparens]
      exact hlegible.enclosed.legible
    · rw [if_neg hparens]
      exact hlegible

theorem legible_predicateOperand {e : Expr} {f : Fragment}
    (h : e.precedence ≠ atomicPrecedence ∧ (Steady d fun n => f.chars d n) ∨ Legible d f) :
    Legible d (Sql.predicateOperand e f) := by
  rw [Sql.predicateOperand]
  rcases h with ⟨hatomic, hsteady⟩ | hlegible
  · rw [if_neg hatomic]
    exact hsteady.legible_enclosed.legible
  · by_cases hatomic : e.precedence = atomicPrecedence
    · rw [if_pos hatomic]
      exact hlegible
    · rw [if_neg hatomic]
      exact hlegible.enclosed.legible

theorem legible_binary {op : BinaryOp} {f g : Fragment} (hf : Legible d f) (hg : Legible d g) :
    Legible d (f ++ .text (" " ++ op.symbol ++ " ") ++ g) := by
  obtain ⟨ts, hwritten, hts⟩ := hg.spaced
  have hsymbol := (written_text (d := d) (spells_symbol op)).append hwritten
  have hright : LegibleBehind d (.text (" " ++ op.symbol ++ " ") ++ g) := by
    rw [String.append_assoc]
    exact ⟨_, hsymbol.texts.spaced.texts, (free_operator op).append hts⟩
  rw [Fragment.append_assoc]
  exact hf.append hright

theorem legible_negated {f : Fragment} (hf : Legible d f) : Legible d (.text "-" ++ f) := by
  have hsign : "-".toList = ['-'] := String.toList_ofList
  have hall := Firm.negated hf
  simpa only [Legible, Fragment.chars_append, Fragment.chars_text, Fragment.bindings_text,
    List.length_nil, Nat.add_zero, hsign, List.cons_append, List.nil_append] using hall

/-- What follows the operand of a membership test. -/
theorem legibleBehind_membership (negated : Bool) {f : Fragment}
    (hf : Steady d fun n => f.chars d n) :
    LegibleBehind d (.text (" " ++ Sql.membershipKeyword negated ++ " ") ++ f.enclosed) := by
  have hlegible := hf.legible_enclosed.legible
  cases negated with
  | false => exact hlegible.behindWords ["IN"] rfl (by decide +kernel)
  | true => exact hlegible.behindWords ["NOT", "IN"] rfl (by decide +kernel)

theorem legible_constant (s : String) (hs : s = "1 = 1" ∨ s = "1 = 0") : Legible d (.text s) := by
  have hdigit (w : String) (hw : w.toList.all Dialect.isNameChar = true) (hne : w.toList ≠ []) :
      Spells d (fun _ => w.toList) [.ofWord d w] := by
    refine ⟨[], .word w.toList.reverse, trivial, ?_, fun _ => run_nameChars hw hne⟩
    rw [Pending.flush, List.reverse_reverse, String.ofList_toList]
    rfl
  have hno (w : String) : ∀ s, Token.ofWord d w = .mark s → s = "*" := by
    intro s hs
    unfold Token.ofWord at hs
    split at hs <;> cases hs
  have hone := hdigit "1" (by decide +kernel) (by decide +kernel)
  have hfree (w : String) (hw : Token.clauseWords.contains (Text.upper w) = false) :
      Free (Token.isClause d) [.ofWord d "1", .mark "=", .ofWord d w] :=
    .plain (Token.isBracket_ofWord d _) (Token.isClause_ofWord d (by decide +kernel)) (.plain rfl rfl
      (.plain (Token.isBracket_ofWord d w) (Token.isClause_ofWord d hw) .nil))
  -- blanks between the three words leave their tokens as they are
  have hall (w : String) (hw : Spells d (fun _ => w.toList) [.ofWord d w]) :
      Spells d (fun _ => ("1" ++ " " ++ "=" ++ " " ++ w).toList)
        [.ofWord d "1", .mark "=", .ofWord d w] := by
    have hequal : Spells d (fun _ => "=".toList) [.mark "="] := spells_symbol .equal
    have hspells := hone.append ((hequal.append hw.spaced).spaced)
    simpa only [String.toList_append, toList_blank, List.append_assoc, List.cons_append,
      List.nil_append] using hspells
  rcases hs with rfl | rfl
  · exact legible_tokens (hall "1" hone) (hno _) (hfree "1" (by decide +kernel))
  · have hzero := hdigit "0" (by decide +kernel) (by decide +kernel)
    exact legible_tokens (hall "0" hzero) (hno _) (hfree "0" (by decide +kernel))

theorem legible_membership (negated : Bool) {test : Fragment} (ht : Legible d test)
    {values : List Fragment} (hv : ∀ f ∈ values, Steady d fun n => f.chars d n) :
    Legible d (Sql.membership d negated test values) := by
  have htests : ∀ f ∈ (Sql.chunks (d.maxInList.getD values.length) values.length values).map
      (fun part => test ++ Fragment.text (" " ++ Sql.membershipKeyword negated ++ " (") ++
        Fragment.join ", " part ++ Fragment.text ")"), Legible d f := by
    intro f hf
    obtain ⟨part, hpart, rfl⟩ := List.mem_map.1 hf
    have hlist : Steady d fun n => (Fragment.join ", " part).chars d n :=
      Steady.join (calmText_ofList rfl) fun f hf => hv f (Closed.mem_of_mem_chunks hpart hf)
    have hall := ht.append (legibleBehind_membership negated hlist)
    have hopen : " (".toList = [' ', '('] := String.toList_ofList
    simpa only [Legible, Fragment.enclosed, Fragment.chars_append, Fragment.chars_text,
      Fragment.bindings_append, Fragment.bindings_text, List.append_nil, List.length_append,
      List.length_nil, Nat.add_zero, Nat.zero_add, String.toList_append, toList_blank,
      toList_opening, toList_closing, hopen, List.append_assoc, List.cons_append,
      List.nil_append] using hall
  -- one part is the whole test; several parts stand between brackets, with a word between them
  unfold Sql.membership
  dsimp only
  split
  · next t heq => exact htests t (by rw [heq]; exact List.mem_singleton_self t)
  · next ts _ =>
    by_cases hts : (Sql.chunks (d.maxInList.getD values.length) values.length values).map
        (fun part => test ++ Fragment.text (" " ++ Sql.membershipKeyword negated ++ " (") ++
          Fragment.join ", " part ++ Fragment.text ")") = []
    · rw [hts]
      have hempty : Steady d fun n => Fragment.empty.chars d n := steady_calm rfl
      exact hempty.legible_enclosed.legible
    · cases negated with
      | false =>
        have hword (f : Fragment) (hf : Legible d f) : LegibleBehind d (.text " OR " ++ f) :=
          hf.behindWords ["OR"] rfl (by decide +kernel)
        exact (Legible.joined hts hword htests).enclosed.legible
      | true =>
        have hword (f : Fragment) (hf : Legible d f) : LegibleBehind d (.text " AND " ++ f) :=
          hf.behindWords ["AND"] rfl (by decide +kernel)
        exact (Legible.joined hts hword htests).enclosed.legible

theorem legible_windowedCall {called : Fragment} (h : Legible d called) {framed : Option Fragment}
    (ho : ∀ f, framed = some f → Steady d fun n => f.chars d n) :
    Legible d (Sql.windowedCall called framed) := by
  cases framed with
  | none => exact h
  | some f =>
    have hover := (ho f rfl).legible_enclosed.legible
    have hbehind : LegibleBehind d (.text " OVER " ++ f.enclosed) :=
      hover.behindWords ["OVER"] rfl (by decide +kernel)
    rw [Sql.windowedCall, Fragment.append_assoc]
    exact h.append hbehind

/-- The parts of a window without an ordering. -/
theorem legible_window {partitions : List Fragment} (hp : ∀ f ∈ partitions, Legible d f)
    {frame : Option Frame} (hf : ∀ f, frame = some f → Legible d (.text (Sql.frameText f))) :
    Legible d (Fragment.join " " (Sql.windowParts partitions [] frame)) := by
  have hparts : ∀ f ∈ Sql.windowParts partitions [] frame, Legible d f := by
    have hpartition : ∀ f ∈ (if partitions.isEmpty then [] else
        [Sql.clause "PARTITION BY" (Fragment.join ", " partitions)]), Legible d f := by
      cases partitions with
      | nil => exact List.forall_mem_nil _
      | cons g gs =>
        have hlist := Legible.list (List.cons_ne_nil g gs) hp
        have hby := hlist.behindWords ["BY"] rfl (by decide +kernel)
        have hword : Legible d (.text "PARTITION") := legible_word (by decide +kernel)
        have hall := hword.append hby
        -- the two words are read one by one, and the second one stands before the list
        have htext : ("PARTITION BY" ++ " " : String) =
            "PARTITION" ++ (String.join (["BY"].map (" " ++ ·)) ++ " ") := rfl
        refine List.forall_mem_singleton.2 ?_
        rw [Sql.clause, htext]
        exact hall.texts
    unfold Sql.windowParts
    refine List.forall_mem_append.2 ⟨List.forall_mem_append.2 ⟨hpartition, List.forall_mem_nil _⟩, ?_⟩
    cases frame with
    | none => exact List.forall_mem_nil _
    | some f => exact List.forall_mem_singleton.2 (hf f rfl)
  by_cases hempty : Sql.windowParts partitions [] frame = []
  · rw [hempty]
    exact legibleBehind_empty.legible
  · exact Legible.joined hempty (fun _ h => h.spaced) hparts

theorem legible_unary {op : UnaryOp} {e : Expr} {f : Fragment}
    (h : op ≠ .exists_ ∧ op ≠ .notExists ∧ e.precedence ≠ atomicPrecedence ∧
      (Steady d fun n => f.chars d n) ∨ Legible d f) : Legible d (Sql.unary op e f) := by
  have hoperand : Legible d (Sql.predicateOperand e f) := by
    rcases h with ⟨_, _, hatomic, hsteady⟩ | hlegible
    · exact legible_predicateOperand (.inl ⟨hatomic, hsteady⟩)
    · exact legible_predicateOperand (.inr hlegible)
  -- a query behind EXISTS is never put in brackets of its own, so it has to be read as it is
  have hinside : op = .exists_ ∨ op = .notExists → Legible d f := by
    intro hop
    rcases h with ⟨hexists, hnot, _⟩ | hlegible
    · rcases hop with hop | hop
      · exact absurd hop hexists
      · exact absurd hop hnot
    · exact hlegible
  cases op with
  | not => exact hoperand.behindWord (w := "NOT") (by decide +kernel)
  | neg => exact legible_negated hoperand
  | isNull => exact hoperand.append (legibleBehind_words ["IS", "NULL"] rfl (by decide +kernel))
  | isNotNull =>
    exact hoperand.append (legibleBehind_words ["IS", "NOT", "NULL"] rfl (by decide +kernel))
  | exists_ => exact (hinside (.inl rfl)).behindWord (w := "EXISTS") (by decide +kernel)
  | notExists =>
    have hword := (hinside (.inr rfl)).behindWords ["EXISTS"] rfl (by decide +kernel)
    have hall := (legible_word (d := d) (w := "NOT") (by decide +kernel)).append hword
    have hexists : "NOT EXISTS " = "NOT" ++ (String.join (["EXISTS"].map (" " ++ ·)) ++ " ") := rfl
    rw [Sql.unary, hexists]
    exact hall.texts

theorem legible_optionalClause {s : String} (ws : List String)
    (hs : s = String.join (ws.map (" " ++ ·))) (h : ∀ w ∈ ws, IsSafe w) {x : Option Fragment}
    (hx : ∀ f, x = some f → Legible d f) : LegibleBehind d (Sql.optionalClause s x) := by
  cases x with
  | none => exact legibleBehind_empty
  | some f => exact (hx f rfl).clause ws hs h

mutual

/-- The text of a contained expression may stand in a clause. -/
theorem legible_expr (e : Expr) (hc : e.Contained d) {f : Fragment} (h : Sql.expr d e = .ok f) :
    Legible d f := by
  have hpaired := closed_paired d
  cases e with
  | column table name shown => cases h; exact legible_qualified table (some name)
  | star table => cases h; exact legible_qualified table none
  | literal value hint => cases h; exact legible_bind _
  | binary op left right =>
    obtain ⟨l, r, hl, hr, rfl⟩ := Sql.binary_ok h
    obtain ⟨hleft, hright⟩ := hc
    -- an operand that is put between brackets need only be paired inside of them
    have hleft' := legible_operand (hleft.imp
      (fun hp => ⟨hp.1, hpaired.of_expr left hp.2 hl⟩) fun hp => legible_expr left hp hl)
    have hright' := legible_operand (hright.imp
      (fun hp => ⟨hp.1, hpaired.of_expr right hp.2 hr⟩) fun hp => legible_expr right hp hr)
    exact legible_binary hleft' hright'
  | unary op e =>
    obtain ⟨g, hg, rfl⟩ := Sql.unary_ok h
    exact legible_unary (hc.imp
      (fun hp => ⟨hp.1, hp.2.1, hp.2.2.1, hpaired.of_expr e hp.2.2.2 hg⟩)
      fun hp => legible_expr e hp hg)
  | inList e values negated =>
    rcases Sql.inList_ok h with ⟨_, rfl⟩ | ⟨hne, g, gs, hg, hgs, rfl⟩
    · apply legible_constant
      cases negated with
      | true => exact .inl rfl
      | false => exact .inr rfl
    · rcases hc with hnil | ⟨he, hvalues⟩
      · exact absurd hnil hne
      · have htest := legible_predicateOperand (he.imp
          (fun hp => ⟨hp.1, hpaired.of_expr e hp.2 hg⟩) fun hp => legible_expr e hp hg)
        exact legible_membership negated htest (hpaired.of_exprs values hvalues hgs)
  | inQuery e q negated =>
    obtain ⟨g, body, hg, hb, rfl⟩ := Sql.inQuery_ok h
    obtain ⟨he, hq⟩ := hc
    have htest := legible_predicateOperand (he.imp
      (fun hp => ⟨hp.1, hpaired.of_expr e hp.2 hg⟩) fun hp => legible_expr e hp hg)
    rw [Fragment.append_assoc]
    exact htest.append (legibleBehind_membership negated (hpaired.of_query q hq hb))
  | call name arguments distinct windowed =>
    obtain ⟨fs, framed, _, hfs, hover, rfl⟩ := Sql.call_ok h
    obtain ⟨hname, hargs, hwindow⟩ := hc
    rw [← Sql.length_exprs hfs]
    have hcall := legible_call hname distinct (hpaired.of_exprs arguments hargs hfs)
    exact legible_windowedCall hcall (hpaired.of_optionalWindow windowed hwindow hover)
  | window w =>
    obtain ⟨partitions, orders, hp, ho, rfl⟩ := Sql.window_ok h
    obtain ⟨partitionBy, orderBy, frame⟩ := w
    obtain ⟨hpartitions, rfl, hframe⟩ := hc
    cases ho
    exact legible_window (legible_exprs partitionBy hpartitions hp) hframe
  | subquery q =>
    obtain ⟨g, hg, rfl⟩ := Sql.subquery_ok h
    have hinside : Steady d fun n => g.chars d n := hpaired.of_query q hc hg
    exact hinside.legible_enclosed.legible
  | cases bs otherwise =>
    obtain ⟨gs, last, hgs, hlast, rfl⟩ := Sql.cases_ok h
    obtain ⟨hbranches, hotherwise⟩ := hc
    have hcase : Legible d (.text "CASE") := legible_word (by decide +kernel)
    have helse := legible_optionalClause (d := d) ["ELSE"] rfl (by decide +kernel)
      (legible_optional otherwise hotherwise hlast)
    have hend : LegibleBehind d (.text " END") :=
      legibleBehind_words ["END"] rfl (by decide +kernel)
    exact ((hcase.append (legible_branches bs hbranches hgs)).append helse).append hend
  | named e name =>
    rw [Sql.expr] at h
    exact legible_expr e hc h
  | raw sql parameters => exact hc f h

theorem legible_exprs (es : List Expr) (hc : Expr.AllContained d es) {fs : List Fragment}
    (h : Sql.exprs d es = .ok fs) : ∀ f ∈ fs, Legible d f := by
  cases es with
  | nil =>
    cases h
    exact List.forall_mem_nil _
  | cons e es =>
    obtain ⟨g, gs, hg, hgs, rfl⟩ := Sql.exprs_cons_ok h
    obtain ⟨hfirst, hrest⟩ := hc
    exact List.forall_mem_cons.2 ⟨legible_expr e hfirst hg, legible_exprs es hrest hgs⟩

theorem legible_optional (o : Option Expr) (hc : Expr.OptionalContained d o) {x : Option Fragment}
    (h : Sql.optional d o = .ok x) : ∀ f, x = some f → Legible d f := by
  cases o with
  | none =>
    cases h
    exact fun f hf => nomatch hf
  | some e =>
    obtain ⟨g, hg, rfl⟩ := Sql.optional_some_ok h
    intro f hf
    cases hf
    exact legible_expr e hc hg

theorem legible_branches (bs : List Branch) (hc : Expr.BranchesContained d bs) {f : Fragment}
    (h : Sql.branches d bs = .ok f) : LegibleBehind d f := by
  cases bs with
  | nil =>
    cases h
    exact legibleBehind_empty
  | cons b bs =>
    obtain ⟨c, r, gs, hcond, hres, hgs, rfl⟩ := Sql.branches_cons_ok h
    obtain ⟨condition, result⟩ := b
    obtain ⟨hc₁, hc₂, hrest⟩ := hc
    have hwhen := (legible_expr condition hc₁ hcond).clause ["WHEN"] rfl (by decide +kernel)
    have hthen := (legible_expr result hc₂ hres).clause ["THEN"] rfl (by decide +kernel)
    exact (hwhen.append hthen).append (legible_branches bs hrest hgs)

end

end Scan

end PolyQuery
