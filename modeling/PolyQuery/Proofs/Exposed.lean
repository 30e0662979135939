import PolyQuery.Proofs.Contained
import PolyQuery.Proofs.Series
import PolyQuery.Proofs.Unbracketed

/-! Operators of an expression that its text shows outside of brackets. Main statement: `reads_expr`,
the text of an expression is one operand, with exactly the operators that `Expr.operators` lists. -/
namespace PolyQuery

/-- The token that an operator is known by. -/
def BinaryOp.sign : BinaryOp → Token
  | .equal => .mark "="
  | .notEqual => .mark "<>"
  | .less => .mark "<"
  | .lessEqual => .mark "<="
  | .greater => .mark ">"
  | .greaterEqual => .mark ">="
  | .like => .key .like
  | .notLike => .key .like
  | .and => .key .and
  | .or => .key .or
  | .add => .mark "+"
  | .sub => .mark "-"
  | .mul => .mark "*"
  | .div => .mark "/"
  | .mod => .mark "%"

/-- An operator binds in text as it does in a tree. -/
theorem BinaryOp.strength_sign (op : BinaryOp) (join : Nat) :
    op.sign.strength join = op.precedence := by
  cases op <;> rfl

namespace Token

/-- A token that is an operator in expressions. -/
def Binds (t : Token) : Prop :=
  (∃ op : BinaryOp, t = op.sign) ∨ t ∈ [key .not, key .is, key .in_, key .exists_]

/-- An operator of expressions separates no arguments, and no call is joined by it. -/
theorem Binds.ne {t : Token} (h : t.Binds) : t ≠ comma ∧ t ≠ mark "|" ∧ t ≠ key .distinct := by
  rcases h with ⟨op, rfl⟩ | h
  · cases op <;> decide
  · simp only [List.mem_cons, List.not_mem_nil, or_false] at h
    rcases h with rfl | rfl | rfl | rfl <;> decide

theorem Binds.strength_pos {t : Token} (h : t.Binds) (join : Nat) : 0 < t.strength join := by
  rcases h with ⟨op, rfl⟩ | h
  · cases op <;> exact Nat.succ_pos _
  · simp only [List.mem_cons, List.not_mem_nil, or_false] at h
    rcases h with rfl | rfl | rfl | rfl <;> exact Nat.succ_pos _

end Token

/-- A plain name that is no keyword. -/
def Dialect.IsWord (d : Dialect) (name : String) : Prop :=
  Dialect.isPlainName name.toList = true ∧ Token.ofWord d name = .word name

namespace Expr

/-- The operators that stand outside of brackets in the text of an expression. -/
def operators (d : Dialect) : Expr → List Token
  | binary op left right =>
    (if (Standing.operand op .left).wraps left then [] else left.operators d) ++
      op.sign :: (if (Standing.operand op .right).wraps right then [] else right.operators d)
  | unary op e =>
    let inner := if op.standing.wraps e then [] else e.operators d
    match op with
    | .not => .key .not :: inner
    | .neg => inner
    | .isNull => inner ++ [.key .is]
    | .isNotNull => inner ++ [.key .is]
    | .exists_ => .key .exists_ :: inner
    | .notExists => .key .not :: .key .exists_ :: inner
  | inList e values _ =>
    if values = [] then [.mark "="]
    else if Sql.listCount d values = 1 then
      (if Standing.subject.wraps e then [] else e.operators d) ++ [.key .in_]
    else []
  | inQuery e _ _ => (if Standing.subject.wraps e then [] else e.operators d) ++ [.key .in_]
  | named e _ => e.operators d
  | _ => []

mutual

/-- Outside of brackets there is no raw text and no window by itself, and functions that the dialect
does not know by name have plain ones. -/
def Fits (d : Dialect) : Expr → Prop
  | binary op left right =>
    ((Standing.operand op .left).wraps left = false → Fits d left) ∧
      ((Standing.operand op .right).wraps right = false → Fits d right)
  | unary op e => op.standing.wraps e = false → Fits d e
  | inList e values _ => values ≠ [] → Standing.subject.wraps e = false → Fits d e
  | inQuery e _ _ => Standing.subject.wraps e = false → Fits d e
  | call name _ _ _ => d.functionForm? name = none → d.IsWord name
  | cases branches otherwise => BranchesFit d branches ∧ OptionalFits d otherwise
  | named e _ => Fits d e
  | window _ => False
  | raw _ _ => False
  | _ => True

def BranchesFit (d : Dialect) : List Branch → Prop
  | [] => True
  | ⟨condition, result⟩ :: rest => Fits d condition ∧ Fits d result ∧ BranchesFit d rest

def OptionalFits (d : Dialect) : Option Expr → Prop
  | none => True
  | some e => Fits d e

end

/-- Only operators are listed. -/
theorem binds_of_mem {d : Dialect} (e : Expr) {t : Token} (h : t ∈ e.operators d) : t.Binds := by
  -- an operand in brackets shows none of its operators
  have hinner (b : Bool) (e : Expr) (ih : t ∈ e.operators d → t.Binds)
      (h : t ∈ if b then [] else e.operators d) : t.Binds := by
    cases b with
    | true => cases h
    | false => exact ih h
  cases e with
  | binary op left right =>
    rcases List.mem_append.1 h with h | h
    · exact hinner _ left (binds_of_mem left) h
    · rcases List.mem_cons.1 h with rfl | h
      · exact .inl ⟨op, rfl⟩
      · exact hinner _ right (binds_of_mem right) h
  | unary op e =>
    have hoperand := hinner (op.standing.wraps e) e (binds_of_mem e)
    cases op with
    | not => exact (List.mem_cons.1 h).elim (fun h => .inr (by simp [h])) hoperand
    | neg => exact hoperand h
    | exists_ => exact (List.mem_cons.1 h).elim (fun h => .inr (by simp [h])) hoperand
    | notExists =>
      rcases List.mem_cons.1 h with h | h
      · exact .inr (by simp [h])
      · exact (List.mem_cons.1 h).elim (fun h => .inr (by simp [h])) hoperand
    | _ => exact (List.mem_append.1 h).elim hoperand fun h => .inr (by simp [List.mem_singleton.1 h])
  | inList e values negated =>
    rw [operators] at h
    split at h
    · exact .inl ⟨.equal, List.mem_singleton.1 h⟩
    · split at h
      · rcases List.mem_append.1 h with h | h
        · exact hinner _ e (binds_of_mem e) h
        · exact .inr (by simp [List.mem_singleton.1 h])
      · cases h
  | inQuery e q negated =>
    rcases List.mem_append.1 h with h | h
    · exact hinner _ e (binds_of_mem e) h
    · exact .inr (by simp [List.mem_singleton.1 h])
  | named e name => exact binds_of_mem e h
  | _ => cases h

end Expr

/-! ### Tokens of an operand -/

/-- Tokens that stand inside of a case distinction. -/
structure Inside (due : Bool) (ts : List Token) (due' : Bool) : Prop where
  within : ∀ os, (Post.mk (.cases :: os) due).run ts = ⟨.cases :: os, due'⟩
  hidden : ∀ os, (Post.mk (.cases :: os) due).operators ts = []

/-- Tokens that may also stand outside of all brackets, where they show some operators. -/
structure Exposes (due : Bool) (us ts : List Token) (due' : Bool) : Prop extends Inside due ts due' where
  run : (Post.mk [] due).run ts = ⟨[], due'⟩
  shown : (Post.mk [] due).operators ts = us

variable {b b' c : Bool} {ts us vs ws : List Token}

theorem Inside.append (h : Inside b ts b') (h' : Inside b' us c) : Inside b (ts ++ us) c where
  within os := by rw [Post.run_append, h.within, h'.within]
  hidden os := by rw [Post.operators_append, h.hidden, h.within, h'.hidden, List.append_nil]

namespace Exposes

theorem append (h : Exposes b us ts b') (h' : Exposes b' vs ws c) : Exposes b (us ++ vs) (ts ++ ws) c where
  toInside := h.toInside.append h'.toInside
  run := by rw [Post.run_append, h.run, h'.run]
  shown := by rw [Post.operators_append, h.shown, h.run, h'.shown]

theorem nil : Exposes b [] [] b := ⟨⟨fun _ => rfl, fun _ => rfl⟩, rfl, rfl⟩

theorem word (w : String) : Exposes b [] [.word w] false := ⟨⟨fun _ => rfl, fun _ => rfl⟩, rfl, rfl⟩

theorem name (s : String) : Exposes b [] [.name s] false := ⟨⟨fun _ => rfl, fun _ => rfl⟩, rfl, rfl⟩

theorem hole : Exposes b [] [.hole] false := ⟨⟨fun _ => rfl, fun _ => rfl⟩, rfl, rfl⟩

theorem dot : Exposes b [] [.dot] true := ⟨⟨fun _ => rfl, fun _ => rfl⟩, rfl, rfl⟩

theorem star : Exposes true [] [.mark "*"] false := ⟨⟨fun _ => rfl, fun _ => rfl⟩, rfl, rfl⟩

/-- A sign before an operand is a part of it, and so are two signs that the scanner joins. -/
theorem signed {s : String} (hs : s = "-" ∨ s = "--") : Exposes true [] [.mark s] true := by
  rcases hs with rfl | rfl <;> exact ⟨⟨fun _ => rfl, fun _ => rfl⟩, rfl, rfl⟩

theorem operator (op : BinaryOp) : Exposes false [op.sign] op.tokens true := by
  cases op <;> exact ⟨⟨fun _ => rfl, fun _ => rfl⟩, rfl, rfl⟩

theorem negation : Exposes true [.key .not] [.key .not] true :=
  ⟨⟨fun _ => rfl, fun _ => rfl⟩, rfl, rfl⟩

theorem existence : Exposes true [.key .exists_] [.key .exists_] true :=
  ⟨⟨fun _ => rfl, fun _ => rfl⟩, rfl, rfl⟩

/-- Between brackets only brackets count. -/
theorem inBrackets (h : Paired ts) (os : List Opener) (due : Bool) :
    (∃ due', (Post.mk (.bracket :: os) due).run ts = ⟨.bracket :: os, due'⟩) ∧
      (Post.mk (.bracket :: os) due).operators ts = [] := by
  induction h generalizing os due with
  | nil => exact ⟨⟨due, rfl⟩, rfl⟩
  | @plain t ts ht _ ih =>
    have hafter : (Post.mk (.bracket :: os) due).after t = ⟨.bracket :: os, t.leavesDue due⟩ := by
      cases t <;> first | rfl | cases ht
    rw [Post.run_cons, Post.operators, hafter]
    exact ih os _
  | @group ts us _ _ ih ih' =>
    -- one bracket deeper, and behind the group back where it began
    obtain ⟨⟨due', hrun⟩, hinner⟩ := ih (.bracket :: os) true
    obtain ⟨hrest, hnone⟩ := ih' os false
    have hclose : (Post.mk (.bracket :: .bracket :: os) due').after .closing =
        ⟨.bracket :: os, false⟩ := rfl
    have hopen : (Post.mk (.bracket :: os) due).after .opening =
        ⟨.bracket :: .bracket :: os, true⟩ := rfl
    rw [List.cons_append, Post.run_cons, Post.operators, hopen, Post.run_append, hrun,
      Post.run_cons, hclose, Post.operators_append, hrun, hinner]
    exact ⟨hrest, hnone⟩

theorem enclosed (h : Paired ts) : Exposes b [] (.opening :: ts ++ [.closing]) false := by
  have hall (os : List Opener) (hos : Opener.of? os .opening = some .bracket) :
      (Post.mk os b).run (.opening :: ts ++ [.closing]) = ⟨os, false⟩ ∧
        (Post.mk os b).operators (.opening :: ts ++ [.closing]) = [] := by
    obtain ⟨⟨due', hrun⟩, hinner⟩ := inBrackets h os true
    have hopen : (Post.mk os b).after .opening = ⟨.bracket :: os, true⟩ := by
      rw [Post.after, hos]
    have hmeets : (Post.mk os b).meets .opening = false := Bool.and_false _
    rw [List.cons_append, Post.run_cons, hopen, Post.run_append, hrun, Post.operators, hmeets, hopen,
      Post.operators_append, hinner, hrun]
    exact ⟨rfl, rfl⟩
  exact ⟨⟨fun os => (hall _ rfl).1, fun os => (hall _ rfl).2⟩, (hall [] rfl).1, (hall [] rfl).2⟩

/-- A case distinction is one operand. -/
theorem cased (h : Inside true ts b') : Exposes true [] (.key .case_ :: ts ++ [.key .end_]) false := by
  have hall (os : List Opener) (hos : Opener.of? os (.key .case_) = some .cases) :
      (Post.mk os true).run (.key .case_ :: ts ++ [.key .end_]) = ⟨os, false⟩ ∧
        (Post.mk os true).operators (.key .case_ :: ts ++ [.key .end_]) = [] := by
    have hopen : (Post.mk os true).after (.key .case_) = ⟨.cases :: os, true⟩ := by
      rw [Post.after, hos]
    have hmeets : (Post.mk os true).meets (.key .case_) = false := Bool.and_false _
    rw [List.cons_append, Post.run_cons, hopen, Post.run_append, h.within, Post.operators, hmeets,
      hopen, Post.operators_append, h.hidden, h.within]
    exact ⟨rfl, rfl⟩
  exact ⟨⟨fun os => (hall _ rfl).1, fun os => (hall _ rfl).2⟩, (hall [] rfl).1, (hall [] rfl).2⟩

/-- A dotted name is one operand. -/
theorem path {d : Dialect} (parts : List (Option String)) (hne : parts ≠ []) :
    Exposes true [] (Tree.pathTokens d parts) false := by
  have hpart (p : Option String) : Exposes true [] [Tree.partToken d p] false := by
    cases p with
    | none => exact star
    | some s =>
      rw [Tree.partToken]
      split
      · exact name s
      · exact word s
  induction parts with
  | nil => exact absurd rfl hne
  | cons p ps ih =>
    cases ps with
    | nil => exact hpart p
    | cons q ps => exact ((hpart p).append dot).append (ih (List.cons_ne_nil _ _))

end Exposes

/-! ### Texts of operands -/

namespace Scan
variable {d : Dialect} {f g : Fragment}

/-- A text that is one operand with certain operators, alone or behind a minus sign, whatever is bound
before it. -/
def Reads (d : Dialect) (us : List Token) (f : Fragment) : Prop :=
  ∀ p, p = .nothing ∨ p = .mark '-' → ∃ ts q, q.Settled ∧ Exposes true us (ts ++ q.flush d) false ∧
    ∀ n, run d p (f.chars d n) = (ts, q)

/-- A text that makes a longer operand of the one before it. -/
def ReadsBehind (d : Dialect) (us : List Token) (f : Fragment) : Prop :=
  ∃ ts, WrittenBehind d f ts ∧ Exposes false us ts false

theorem Reads.written (h : Reads d us f) : ∃ ts, Written d f ts ∧ Exposes true us ts false := by
  obtain ⟨ts, q, hq, hexposes, hrun⟩ := h .nothing (.inl rfl)
  exact ⟨_, ⟨ts, q, hq, rfl, hrun⟩, hexposes⟩

theorem reads_of_behind (h : WrittenBehind d f ts) (hts : Exposes true us ts false) :
    Reads d us f := by
  rintro p (rfl | rfl)
  · obtain ⟨vs, q, hq, heq, hrun⟩ := h .nothing trivial
    exact ⟨vs, q, hq, heq ▸ hts, hrun⟩
  · obtain ⟨vs, q, hq, heq, hrun⟩ := h (.mark '-') trivial
    exact ⟨vs, q, hq, heq ▸ (Exposes.signed (.inl rfl)).append hts, hrun⟩

/-- A text that begins with no sign is scanned behind one as it is alone. -/
theorem reads_of_written {t : Token} (h : Written d f (t :: ts)) (ht : ∀ s, t = .mark s → s = "*")
    (hts : Exposes true us (t :: ts) false) : Reads d us f := by
  have hfirst := Spells.first h ht
  obtain ⟨vs, q, hq, heq, hrun⟩ := h
  rintro p (rfl | rfl)
  · exact ⟨vs, q, hq, heq ▸ hts, hrun⟩
  · refine ⟨.mark "-" :: vs, q, hq, ?_, fun n => ?_⟩
    · rw [List.cons_append, heq]
      exact (Exposes.signed (.inl rfl)).append hts
    · obtain ⟨c, cs, hg, hc⟩ := hfirst n
      have hn := hrun n
      dsimp only at hg hn
      rw [hg] at hn ⊢
      rw [run_minus hc, hn]

theorem Reads.append (hf : Reads d us f) (hg : ReadsBehind d vs g) : Reads d (us ++ vs) (f ++ g) := by
  obtain ⟨ws, hws, hexposes⟩ := hg
  intro p hp
  obtain ⟨ts, q, hq, hts, hrun⟩ := hf p hp
  obtain ⟨ss, r, hr, heq, hrun'⟩ := Follows.shift hws f.bindings.length q hq
  refine ⟨ts ++ ss, r, hr, ?_, fun n => ?_⟩
  · rw [List.append_assoc, heq, ← List.append_assoc]
    exact hts.append hexposes
  · rw [Fragment.chars_append]
    exact run_append_of (hrun n) (hrun' n)

/-- A second sign joins the first one. -/
theorem Reads.negated (h : Reads d us f) : Reads d us (.text "-" ++ f) := by
  have hminus : begin d '-' = ([], .mark '-') := begin_sign rfl rfl rfl rfl
  have hsign : "-".toList = ['-'] := String.toList_ofList
  have hchars (n : Nat) : (Fragment.text "-" ++ f).chars d n = '-' :: f.chars d n := by
    rw [Fragment.chars_append, Fragment.chars_text, hsign]
    rfl
  rintro p (rfl | rfl)
  -- alone it is the sign that the operand stands behind, behind a sign it ends a pair of them
  · obtain ⟨ts, q, hq, hts, hrun⟩ := h (.mark '-') (.inr rfl)
    refine ⟨ts, q, hq, hts, fun n => ?_⟩
    have hstep : step d .nothing '-' = ([], .mark '-') := hminus
    rw [hchars, run, hstep, hrun]
    rfl
  · obtain ⟨ts, q, hq, hts, hrun⟩ := h .nothing (.inl rfl)
    refine ⟨.mark "--" :: ts, q, hq, (Exposes.signed (.inr rfl)).append hts, fun n => ?_⟩
    have hstep : step d (.mark '-') '-' = ([.mark "--"], .nothing) := rfl
    rw [hchars, run, hstep, hrun]
    rfl

theorem Reads.texts {s t : String} (h : Reads d us (.text s ++ (.text t ++ f))) :
    Reads d us (.text (s ++ t) ++ f) := by
  simpa only [Reads, chars_texts] using h

/-- Between brackets anything may stand that is steady. -/
theorem reads_enclosed (h : Steady d fun n => f.chars d n) : Reads d [] f.enclosed := by
  obtain ⟨hspells, hpaired⟩ := h.spells
  exact reads_of_behind (Written.enclosed hspells) (.enclosed hpaired)

/-- An operator between two operands. -/
theorem reads_binary (op : BinaryOp) (hf : Reads d us f) (hg : Reads d vs g) :
    Reads d (us ++ op.sign :: vs) (f ++ .text (" " ++ op.symbol ++ " ") ++ g) := by
  obtain ⟨ts, hwritten, hts⟩ := hg.written
  have hright := (written_text (d := d) (spells_symbol op)).append hwritten.spaced
  have hbehind : ReadsBehind d (op.sign :: vs) (.text (" " ++ op.symbol ++ " ") ++ g) := by
    rw [String.append_assoc]
    exact ⟨_, hright.texts.spaced.texts, (Exposes.operator op).append hts⟩
  rw [Fragment.append_assoc]
  exact hf.append hbehind

/-- Keywords before an operand. -/
theorem Reads.behindKeyword {w : Keyword} (hw : Exposes true us [.key w] true) (hf : Reads d vs f) :
    Reads d (us ++ vs) (.text (w.text d ++ " ") ++ f) := by
  obtain ⟨ts, hwritten, hts⟩ := hf.written
  exact reads_of_written (Written.behindText (spells_keyword w) hwritten) nofun (hw.append hts)

/-- Keywords behind an operand. -/
theorem readsBehind_words (ws : List Keyword) {s : String}
    (hs : s = String.join (ws.map fun w => " " ++ w.text d))
    (h : Exposes false us (ws.map Token.key) false) : ReadsBehind d us (.text s) :=
  ⟨_, writtenBehind_text (hs ▸ follows_words ws), h⟩

theorem reads_unary {op : UnaryOp} {e : Expr} (h : Reads d
      (if op.standing.wraps e then [] else e.operators d) (op.standing.dress e f)) :
    Reads d ((Expr.unary op e).operators d) (Sql.unary op e f) := by
  -- NOT and EXISTS stand before the operand, IS NULL behind it, and a sign is part of it
  cases op with
  | not =>
    rw [Sql.unary, Sql.predicateOperand_eq]
    exact h.behindKeyword .negation
  | neg =>
    rw [Sql.unary, Sql.predicateOperand_eq]
    exact h.negated
  | isNull =>
    rw [Sql.unary, Sql.predicateOperand_eq]
    exact h.append (readsBehind_words [.is, .null] rfl ⟨⟨fun _ => rfl, fun _ => rfl⟩, rfl, rfl⟩)
  | isNotNull =>
    rw [Sql.unary, Sql.predicateOperand_eq]
    exact h.append
      (readsBehind_words [.is, .not, .null] rfl ⟨⟨fun _ => rfl, fun _ => rfl⟩, rfl, rfl⟩)
  | exists_ => exact h.behindKeyword .existence
  | notExists =>
    have hexists := h.behindKeyword .existence
    have hall := hexists.behindKeyword .negation
    exact hall.texts

theorem reads_dressed (place : Standing) {e : Expr} (hs : Steady d fun n => f.chars d n)
    (h : place.wraps e = false → Reads d (e.operators d) f) :
    Reads d (if place.wraps e then [] else e.operators d) (place.dress e f) := by
  rw [Standing.dress]
  cases hw : place.wraps e with
  | true => exact reads_enclosed hs
  | false => exact h hw

theorem reads_qualified (table last : Option String) :
    Reads d [] (.text (Sql.qualified d table (partText d last))) := by
  obtain ⟨parts, hparts⟩ := qualified_path table last
  obtain ⟨hwritten, hne⟩ := written_qualified (d := d) table last
  rw [hparts] at hwritten hne
  have hpath : Exposes true [] (Tree.pathTokens d parts) false := .path parts hne
  match parts, hne with
  | [p], _ => exact reads_of_written hwritten (partToken_sign p) hpath
  | p :: q :: ps, _ => exact reads_of_written hwritten (partToken_sign p) hpath

/-- A list or a query behind the operand of a membership test. -/
theorem readsBehind_member (negated : Bool) (h : Steady d fun n => f.chars d n) :
    ReadsBehind d [.key .in_]
      (.text (" " ++ Sql.membershipKeyword negated ++ " ") ++ f.enclosed) := by
  obtain ⟨hspells, hpaired⟩ := h.spells
  have hbrackets : Written d f.enclosed _ := Follows.spells (Written.enclosed hspells)
  have hwords (ws : List Keyword) (hws : Exposes false [.key .in_] (ws.map Token.key) true) :
      ReadsBehind d [.key .in_]
        (.text (String.join (ws.map fun w => " " ++ w.text d) ++ " ") ++ f.enclosed) :=
    ⟨_, ((writtenBehind_text (follows_words ws)).append hbrackets.spaced).texts,
      hws.append (.enclosed hpaired)⟩
  cases negated with
  | false => exact hwords [.in_] ⟨⟨fun _ => rfl, fun _ => rfl⟩, rfl, rfl⟩
  | true => exact hwords [.not, .in_] ⟨⟨fun _ => rfl, fun _ => rfl⟩, rfl, rfl⟩

theorem reads_digit {w : String} (hw : w = "0" ∨ w = "1") : Reads d [] (.text w) := by
  have hnone : Keyword.ofWord? d w = none := by
    rcases Keyword.text_cases d with htext | ⟨_, htext⟩
    · rw [Keyword.ofWord?, htext]
      rcases hw with rfl | rfl <;> decide +kernel
    · rw [Keyword.ofWord?, htext]
      rcases hw with rfl | rfl <;> decide +kernel
  have hchars : w.toList.all Dialect.isNameChar = true ∧ w.toList ≠ [] := by
    rcases hw with rfl | rfl <;> decide +kernel
  have hspells : Spells d (fun _ => w.toList) [.word w] := by
    refine ⟨[], .word w.toList.reverse, trivial, ?_, fun _ => run_nameChars hchars.1 hchars.2⟩
    rw [Pending.flush, List.reverse_reverse, String.ofList_toList, Token.ofWord, hnone]
    rfl
  exact reads_of_written (written_text hspells) (fun _ h => by cases h) (.word w)

/-- The constant that stands for a test of an empty list. -/
theorem reads_constant (negated : Bool) :
    Reads d [.mark "="] (.text (if negated then d.truePredicate else d.falsePredicate)) := by
  have hone : Reads d [] (.text "1") := reads_digit (.inr rfl)
  have hcompared {w : String} (hw : w = "0" ∨ w = "1") :
      Reads d [.mark "="] (.text ("1" ++ (" " ++ "=" ++ " ") ++ w)) := by
    have hall : Reads d [.mark "="] (.text "1" ++ .text (" " ++ "=" ++ " ") ++ .text w) :=
      reads_binary .equal hone (reads_digit hw)
    simpa only [Reads, Fragment.chars_append, Fragment.chars_text, String.toList_append] using hall
  cases negated with
  | false => exact hcompared (.inl rfl)
  | true => exact hcompared (.inr rfl)

/-- A bracket at the end of a text opens what is enclosed behind it. -/
theorem chars_opened (s : String) (f : Fragment) (n : Nat) :
    (Fragment.text (s ++ "(") ++ f ++ Fragment.text ")").chars d n =
      (Fragment.text s ++ f.enclosed).chars d n := by
  simp [Fragment.enclosed, Fragment.chars_append, Fragment.chars_text]

/-- One of the lists of a membership test. -/
theorem readsBehind_list (negated : Bool) (h : Steady d fun n => f.chars d n) :
    ReadsBehind d [.key .in_]
        (.text (" " ++ Sql.membershipKeyword negated ++ " (") ++ f ++ .text ")") ∧
      Steady d fun n =>
        (Fragment.text (" " ++ Sql.membershipKeyword negated ++ " (") ++ f ++ .text ")").chars d n := by
  have hopen : " " ++ Sql.membershipKeyword negated ++ " (" =
      " " ++ Sql.membershipKeyword negated ++ " " ++ "(" := by
    have hblank : " (" = " " ++ "(" := rfl
    rw [hblank, String.append_assoc, String.append_assoc, String.append_assoc]
  have hword : CalmText (" " ++ Sql.membershipKeyword negated ++ " ") :=
    (calmText_membershipKeyword negated).spaced
  rw [hopen]
  constructor
  · simpa only [ReadsBehind, WrittenBehind, chars_opened] using readsBehind_member negated h
  · simpa only [String.append_empty] using
      (Steady.calmText hword).around (t := "") (steady_calm rfl) h

/-- No list and several lists stand between brackets. -/
theorem joinTests_eq (negated : Bool) {tests : List Fragment} (h : tests.length ≠ 1) :
    Sql.joinTests negated tests =
      (Fragment.join (if negated then " AND " else " OR ") tests).enclosed := by
  cases tests with
  | nil => rfl
  | cons t ts =>
    cases ts with
    | nil => exact absurd rfl h
    | cons => rfl

/-- One list makes the test a predicate, several ones stand between brackets. -/
theorem reads_membership (negated : Bool) (h : Reads d us f) (hs : Steady d fun n => f.chars d n)
    {es : List Expr} {fs : List Fragment} (hlength : fs.length = es.length)
    (hfs : ∀ g ∈ fs, Steady d fun n => g.chars d n) :
    Reads d (if Sql.listCount d es = 1 then us ++ [.key .in_] else [])
      (Sql.membership d negated f fs) := by
  have hlists : ∀ g ∈ Sql.memberLists d negated fs,
      ReadsBehind d [.key .in_] g ∧ Steady d fun n => g.chars d n := by
    intro g hg
    obtain ⟨part, hpart, rfl⟩ := List.mem_map.1 hg
    refine readsBehind_list negated (Steady.join (calmText_ofList rfl) fun f hf => ?_)
    exact hfs f (Closed.mem_of_mem_chunks hpart hf)
  -- the number of lists is all that the operators of the test depend on
  rw [Sql.membership_eq, ← Sql.length_memberLists (d := d) negated hlength]
  generalize Sql.memberLists d negated fs = lists at hlists
  have hbetween : CalmText (if negated then " AND " else " OR ") := by
    cases negated <;> exact calmText_ofList rfl
  split
  · next hone =>
    obtain ⟨g, rfl⟩ := List.length_eq_one_iff.1 hone
    exact h.append (hlists g List.mem_cons_self).1
  · next hone =>
    rw [joinTests_eq negated (by rwa [List.length_map])]
    refine reads_enclosed (Steady.join hbetween fun t ht => ?_)
    obtain ⟨g, hg, rfl⟩ := List.mem_map.1 ht
    exact hs.fragment (hlists g hg).2

end Scan

end PolyQuery
