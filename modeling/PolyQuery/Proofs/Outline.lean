import PolyQuery.Proofs.Spelling

/-! What the text of an expression says. The tree that an expression stands for is compared with the
tree that the grammar reads in its text. Main statement: `expr_read_back`. -/
namespace PolyQuery

/-- The tokens of a query's text, if it has one. -/
def Query.tokens (d : Dialect) (q : Query) : List Token :=
  match Sql.query d q with
  | .ok f => Scan.tokens d (f.chars d 0)
  | .error _ => []

/-- The name that a call is written with, where it is written as a call. -/
def Dialect.shownName? (d : Dialect) (name : String) : Option String :=
  match (d.functionForm? name).getD (.call name) with
  | .call shown => some shown
  | _ => none

namespace Tree

/-- The parts of a dotted name; a star stands for all names. -/
def nameParts (name : String) : List (Option String) :=
  (Dialect.dottedParts name.toList).map fun part =>
    if String.ofList part = "*" then none else some (String.ofList part)

/-- A name, or a star, behind an optional qualifier. -/
def qualified (table : Option String) (last : Option String) : Tree :=
  match table with
  | some t => if t = "" then .path [last] else .path (nameParts t ++ [last])
  | none => .path [last]

mutual

/-- The tree that an expression stands for. Windows and raw texts have none. -/
def outline (d : Dialect) : Expr → Tree
  | .column table name _ => qualified table (some name)
  | .star table => qualified table none
  | .literal _ _ => .hole
  | .binary op left right => .binary op (outline d left) (outline d right)
  | .unary op e => .unary op (outline d e)
  | .inList e values negated => .inList (outline d e) (outlines d values) negated
  | .inQuery e q negated => .inQuery (outline d e) (q.tokens d) negated
  | .call name arguments distinct _ =>
    .call ((d.shownName? name).getD name) (outlines d arguments) distinct
  | .window _ => .path []
  | .subquery q => .query (q.tokens d)
  | .cases branches otherwise => .cases (branchOutlines d branches ++ optionalOutline d otherwise)
  | .named e _ => outline d e
  | .raw _ _ => .path []

/-- The trees of expressions. -/
def outlines (d : Dialect) : List Expr → List Tree
  | [] => []
  | e :: es => outline d e :: outlines d es

/-- Conditions and results in turn. -/
def branchOutlines (d : Dialect) : List Branch → List Tree
  | [] => []
  | ⟨condition, result⟩ :: rest =>
    outline d condition :: outline d result :: branchOutlines d rest

/-- The tree of an expression, if there is one. -/
def optionalOutline (d : Dialect) : Option Expr → List Tree
  | none => []
  | some e => [outline d e]

end

end Tree

/-- What exists is a subquery, and a sign stands before no other sign. -/
def UnaryOp.Fits (op : UnaryOp) (e : Expr) : Prop :=
  match op with
  | .exists_ => ∃ q, e = .subquery q
  | .notExists => ∃ q, e = .subquery q
  | .neg => ∀ x, e ≠ .unary .neg x
  | _ => True

namespace Expr

mutual

/-- Columns, values, operators, subqueries, case distinctions, calls that are written as calls with
a name that is an identifier, and lists that are neither empty nor longer than the dialect allows.
Queries inside hold no raw text. -/
def Readable (d : Dialect) : Expr → Prop
  | column _ _ _ => True
  | star _ => True
  | literal _ _ => True
  | binary _ left right => Readable d left ∧ Readable d right
  | unary op e => op.Fits e ∧ Readable d e
  | inList e values _ => Readable d e ∧ values ≠ [] ∧
      (∀ n, d.maxInList = some n → values.length ≤ n) ∧ AllReadable d values
  | inQuery e q _ => Readable d e ∧ Rules.plain.query q
  | call name arguments _ windowed => windowed = none ∧
      (∃ shown, d.shownName? name = some shown ∧ Dialect.isPlainName shown.toList = true ∧
        Keyword.ofWord? d shown = none) ∧ AllReadable d arguments
  | window _ => False
  | subquery q => Rules.plain.query q
  | cases branches otherwise => BranchesReadable d branches ∧ OptionalReadable d otherwise
  | named _ _ => False
  | raw _ _ => False

/-- All of them are. -/
def AllReadable (d : Dialect) : List Expr → Prop
  | [] => True
  | e :: es => Readable d e ∧ AllReadable d es

/-- All conditions and results are. -/
def BranchesReadable (d : Dialect) : List Branch → Prop
  | [] => True
  | ⟨condition, result⟩ :: rest =>
    Readable d condition ∧ Readable d result ∧ BranchesReadable d rest

/-- It is, if there is one. -/
def OptionalReadable (d : Dialect) : Option Expr → Prop
  | none => True
  | some e => Readable d e

end

end Expr

namespace Scan
variable {d : Dialect}

/-- A fragment spells some tokens, whatever is bound before it. -/
def Written (d : Dialect) (f : Fragment) (ts : List Token) : Prop :=
  Spells d (fun n => f.chars d n) ts

/-- A fragment spells some tokens behind every text. -/
def WrittenBehind (d : Dialect) (f : Fragment) (ts : List Token) : Prop :=
  Follows d (fun n => f.chars d n) ts

theorem Written.append {f g : Fragment} {ts us : List Token} (hf : Written d f ts)
    (hg : WrittenBehind d g us) : Written d (f ++ g) (ts ++ us) := by
  have h := Spells.append hf (Follows.shift hg f.bindings.length)
  simpa only [Written, Fragment.chars_append] using h

theorem WrittenBehind.append {f g : Fragment} {ts us : List Token} (hf : WrittenBehind d f ts)
    (hg : WrittenBehind d g us) : WrittenBehind d (f ++ g) (ts ++ us) := by
  have h := Follows.append hf (Follows.shift hg f.bindings.length)
  simpa only [WrittenBehind, Fragment.chars_append] using h

theorem written_text {s : String} {ts : List Token} (h : Spells d (fun _ => s.toList) ts) :
    Written d (.text s) ts := by
  simpa only [Written, Fragment.chars_text] using h

theorem writtenBehind_text {s : String} {ts : List Token} (h : Follows d (fun _ => s.toList) ts) :
    WrittenBehind d (.text s) ts := by
  simpa only [WrittenBehind, Fragment.chars_text] using h

theorem writtenBehind_empty : WrittenBehind d .empty [] := follows_nothing

theorem Written.enclosed {f : Fragment} {ts : List Token} (h : Written d f ts) :
    WrittenBehind d f.enclosed (.opening :: ts ++ [.closing]) := by
  have henclosed := Spells.enclosed h
  simpa only [WrittenBehind, Fragment.enclosed, Fragment.chars_append, Fragment.chars_text,
    toList_opening, toList_closing, Fragment.bindings_text, List.length_nil, Nat.add_zero,
    List.singleton_append, List.cons_append, List.nil_append] using henclosed

theorem toList_blank : " ".toList = [' '] := String.toList_ofList

/-- Behind a blank a fragment spells what it spells alone. -/
theorem Written.spaced {f : Fragment} {ts : List Token} (h : Written d f ts) :
    WrittenBehind d (.text " " ++ f) ts := by
  have hspaced := Spells.spaced h
  simpa only [WrittenBehind, Fragment.chars_append, Fragment.chars_text, Fragment.bindings_text,
    List.length_nil, Nat.add_zero, toList_blank, List.cons_append, List.nil_append] using hspaced

/-- Two texts side by side are as good as one. -/
theorem chars_texts (s t : String) (f : Fragment) (n : Nat) :
    (Fragment.text (s ++ t) ++ f).chars d n =
      (Fragment.text s ++ (Fragment.text t ++ f)).chars d n := by
  simp only [Fragment.chars_append, Fragment.chars_text, Fragment.bindings_text, List.length_nil,
    Nat.add_zero, String.toList_append, List.append_assoc]

theorem Written.texts {s t : String} {f : Fragment} {ts : List Token}
    (h : Written d (.text s ++ (.text t ++ f)) ts) : Written d (.text (s ++ t) ++ f) ts := by
  simpa only [Written, chars_texts] using h

theorem WrittenBehind.texts {s t : String} {f : Fragment} {ts : List Token}
    (h : WrittenBehind d (.text s ++ (.text t ++ f)) ts) :
    WrittenBehind d (.text (s ++ t) ++ f) ts := by
  simpa only [WrittenBehind, chars_texts] using h

/-- A fragment behind some text and a blank. -/
theorem Written.behindText {s : String} {ms ts : List Token} {f : Fragment}
    (hs : Spells d (fun _ => s.toList) ms) (h : Written d f ts) :
    Written d (.text (s ++ " ") ++ f) (ms ++ ts) := ((written_text hs).append h.spaced).texts

/-- A text between two fragments, with a blank on either side. -/
theorem Written.between {f g : Fragment} {s : String} {ts ms us : List Token}
    (hf : Written d f ts) (hs : Spells d (fun _ => s.toList) ms) (hg : Written d g us) :
    Written d (f ++ .text (" " ++ s ++ " ") ++ g) (ts ++ ms ++ us) := by
  have hbehind := (hs.append (Spells.spaced hg)).spaced
  have hall := Spells.append hf (hbehind.shift f.bindings.length)
  rw [← List.append_assoc] at hall
  simpa only [Written, Fragment.chars_append, Fragment.chars_text, Fragment.bindings_append,
    Fragment.bindings_text, List.append_nil, List.length_append, List.length_nil, Nat.add_zero,
    String.toList_append, toList_blank, List.append_assoc, List.cons_append,
    List.nil_append] using hall

/-- A clause with its keyword. -/
theorem Written.clause (w : Keyword) {f : Fragment} {ts : List Token} (h : Written d f ts) :
    WrittenBehind d (Sql.clause (" " ++ w.text d) f) (.key w :: ts) := by
  have hword := (spells_keyword (d := d) w).spaced
  have hall := hword.append (Spells.spaced h)
  simpa only [WrittenBehind, Sql.clause, Fragment.chars_append, Fragment.chars_text,
    String.toList_append, toList_blank, Fragment.bindings_text, List.length_nil, Nat.add_zero,
    List.append_assoc, List.cons_append, List.nil_append] using hall

/-- An operand, between brackets or not. -/
theorem Written.wrapped {f : Fragment} {ts : List Token} (h : Written d f ts) (b : Bool) :
    Written d (if b then f.enclosed else f) (Tree.wrapped b ts) := by
  cases b with
  | false => exact h
  | true => exact Follows.spells h.enclosed

theorem nameParts_ne_nil (name : String) : Tree.nameParts name ≠ [] := by
  have hparts (cs : List Char) : Dialect.dottedParts cs ≠ [] := by
    cases cs with
    | nil => exact List.cons_ne_nil _ _
    | cons c cs =>
      rw [Dialect.dottedParts]
      split
      · exact List.cons_ne_nil _ _
      · split <;> exact List.cons_ne_nil _ _
  intro h
  exact hparts _ (List.map_eq_nil_iff.1 h)

theorem quoteQualified_eq (name : String) :
    d.quoteQualified name = ".".intercalate ((Tree.nameParts name).map (partText d)) := by
  rw [Dialect.quoteQualified, Tree.nameParts, List.map_map]
  congr 1
  refine List.map_congr_left fun part _ => ?_
  dsimp only [Function.comp]
  split
  · next h => rw [h]; rfl
  · rfl

/-- A last part stands behind a point. -/
theorem intercalate_last {parts : List String} (h : parts ≠ []) (s : String) :
    ".".intercalate (parts ++ [s]) = ".".intercalate parts ++ "." ++ s := by
  induction parts with
  | nil => exact absurd rfl h
  | cons p ps ih =>
    cases ps with
    | nil => simp [String.intercalate_cons_cons]
    | cons q ps =>
      have hrest := ih (List.cons_ne_nil _ _)
      simp only [List.cons_append, String.intercalate_cons_cons, String.append_assoc] at hrest ⊢
      rw [hrest]

/-- A name behind its qualifier spells a path. -/
theorem written_qualified (table last : Option String) :
    Written d (.text (Sql.qualified d table (partText d last)))
      ((Tree.qualified table last).tokens d) ∧ (Tree.qualified table last).Legible := by
  have hlast : Written d (.text (partText d last)) [Tree.partToken d last] :=
    written_text (spells_part last)
  cases table with
  | none => exact ⟨hlast, List.cons_ne_nil _ _⟩
  | some t =>
    by_cases ht : t = ""
    · simp only [Sql.qualified, Tree.qualified, if_pos ht]
      exact ⟨hlast, List.cons_ne_nil _ _⟩
    · have hne : (Tree.nameParts t).map (partText d) ≠ [] :=
        fun h => nameParts_ne_nil t (List.map_eq_nil_iff.1 h)
      have htext : Sql.qualified d (some t) (partText d last) =
          ".".intercalate ((Tree.nameParts t ++ [last]).map (partText d)) := by
        rw [List.map_append, List.map_cons, List.map_nil, intercalate_last hne,
          ← quoteQualified_eq]
        exact if_neg ht
      have htree : Tree.qualified (some t) last = .path (Tree.nameParts t ++ [last]) := if_neg ht
      rw [htext, htree]
      exact ⟨written_text (spells_path _), by simp [Tree.Legible]⟩

theorem qualified_path (table last : Option String) :
    ∃ parts, Tree.qualified table last = .path parts := by
  unfold Tree.qualified
  split
  · split
    · exact ⟨_, rfl⟩
    · exact ⟨_, rfl⟩
  · exact ⟨_, rfl⟩

/-- The outline of a readable expression stands where the expression does. -/
theorem precedence_outline {e : Expr} (h : e.Readable d) :
    (Tree.outline d e).precedence = e.precedence ∧
      ∀ op side, (Tree.outline d e).needsParens op side = e.needsParens op side := by
  cases e with
  | column table name shown =>
    obtain ⟨parts, hparts⟩ := qualified_path table (some name)
    rw [Tree.outline, hparts]
    exact ⟨rfl, fun _ _ => rfl⟩
  | star table =>
    obtain ⟨parts, hparts⟩ := qualified_path table none
    rw [Tree.outline, hparts]
    exact ⟨rfl, fun _ _ => rfl⟩
  | unary op e => cases op <;> exact ⟨rfl, fun _ _ => rfl⟩
  | window w => exact h.elim
  | named e name => exact h.elim
  | raw sql values => exact h.elim
  | _ => exact ⟨rfl, fun _ _ => rfl⟩

theorem written_operand {e : Expr} (h : e.Readable d) (op : BinaryOp) (side : Side) {f : Fragment}
    (hf : Written d f ((Tree.outline d e).tokens d)) :
    Written d (Sql.operand op side e f) (Tree.wrapped ((Tree.outline d e).needsParens op side)
      ((Tree.outline d e).tokens d)) := by
  rw [Sql.operand, (precedence_outline h).2]
  exact hf.wrapped _

theorem written_predicateOperand {e : Expr} (h : e.Readable d) {f : Fragment}
    (hf : Written d f ((Tree.outline d e).tokens d)) :
    Written d (Sql.predicateOperand e f) (Tree.wrapped (Tree.outline d e).isCompound
      ((Tree.outline d e).tokens d)) := by
  have hwrapped := hf.wrapped (Tree.outline d e).isCompound
  have heq : Sql.predicateOperand e f =
      if (Tree.outline d e).isCompound then f.enclosed else f := by
    rw [Sql.predicateOperand, Tree.isCompound, (precedence_outline h).1]
    by_cases hp : e.precedence = atomicPrecedence
    · simp [hp]
    · simp [hp]
  rw [heq]
  exact hwrapped

/-- The items of a list with their trees. -/
inductive ListWritten (d : Dialect) : List Fragment → List Tree → Prop
  | nil : ListWritten d [] []
  | cons {f : Fragment} {t : Tree} {fs : List Fragment} {ts : List Tree}
    (h : Written d f (t.tokens d)) (ht : t.Legible) (hs : ListWritten d fs ts) :
    ListWritten d (f :: fs) (t :: ts)

theorem ListWritten.legible {fs : List Fragment} {ts : List Tree} (h : ListWritten d fs ts) :
    Tree.AllLegible ts := by
  induction h with
  | nil => trivial
  | cons _ ht _ ih => exact ⟨ht, ih⟩

/-- Between two items stand a comma and a blank. -/
theorem ListWritten.joined {fs : List Fragment} {ts : List Tree} (h : ListWritten d fs ts) :
    Written d (Fragment.join ", " fs) (Tree.listTokens d ts) := by
  induction h with
  | nil => exact spells_nothing
  | @cons f t fs ts hf _ hs ih =>
    cases hs with
    | nil => simpa [Fragment.join, Tree.listTokens, Tree.commaTokens] using hf
    | @cons g u gs us hg hu hrest =>
      have hcomma : separator ',' = some [.comma] := rfl
      have hbehind := Spells.behind hcomma (Spells.spaced ih).spells
      have hall := Spells.append hf (Follows.shift hbehind f.bindings.length)
      have hcommas : ", ".toList = [',', ' '] := String.toList_ofList
      rw [Fragment.join_cons_cons]
      simpa only [Written, Fragment.chars_append, Fragment.chars_text, Fragment.bindings_append,
        Fragment.bindings_text, List.append_nil, List.length_append, List.length_nil, Nat.add_zero,
        hcommas, List.append_assoc, List.cons_append, List.nil_append, Tree.listTokens,
        Tree.commaTokens] using hall

/-- A fragment in which a word of a query stands outside of brackets. -/
def Announcing (d : Dialect) (f : Fragment) : Prop := ∀ n, Announces d (f.chars d n)

theorem Announcing.append {f : Fragment} (h : Announcing d f) (g : Fragment) :
    Announcing d (f ++ g) := by
  intro n
  rw [Fragment.chars_append]
  exact (h n).append _

theorem announcing_text {w : Keyword} (hw : w.isOfQuery = true) {s r : String}
    (hs : s = w.text d ++ " " ++ r) : Announcing d (.text s) := by
  intro n
  rw [Fragment.chars_text, hs, String.toList_append, String.toList_append, toList_blank,
    List.append_assoc]
  exact announces_first hw _

/-- A selection begins with its word. -/
theorem announcing_selectHead (distinct : Bool) (limit : Option Value) :
    Announcing d (.text (Sql.selectHead distinct limit)) := by
  have hword : Keyword.select.text d = "SELECT" := rfl
  have hdistinct : " DISTINCT" = " " ++ "DISTINCT" := rfl
  have htop : " TOP " = " " ++ "TOP " := rfl
  -- whatever follows, the first word ends at a blank
  have hhead : ∃ r, Sql.selectHead distinct limit = "SELECT" ++ " " ++ r := by
    cases distinct with
    | true =>
      cases limit with
      | some v =>
        refine ⟨"DISTINCT" ++ (" TOP " ++ v.text) ++ " ", ?_⟩
        simp only [Sql.selectHead, if_true, hdistinct, String.append_assoc]
      | none => exact ⟨"DISTINCT ", rfl⟩
    | false =>
      cases limit with
      | some v =>
        refine ⟨"TOP " ++ v.text ++ " ", ?_⟩
        simp only [Sql.selectHead, Bool.false_eq_true, if_false, htop, String.append_assoc,
          String.empty_append]
      | none => exact ⟨"", rfl⟩
  obtain ⟨r, hr⟩ := hhead
  exact announcing_text (w := .select) rfl (hr.trans (by rw [hword]))

/-- A page is a part of the query, or stands in a selection around it. -/
theorem announcing_finish {core order body : Fragment} {ordered applied : Bool}
    {pagination : Option Pagination} (hcore : Announcing d core)
    (h : Paging.finish d core order ordered pagination applied = .ok body) :
    Announcing d body := by
  have hselect {s r : String} (hs : s = "SELECT" ++ " " ++ r) : Announcing d (.text s) :=
    announcing_text (w := .select) rfl hs
  rcases Paging.finish_ok h with ⟨rfl, _⟩ | ⟨rfl, _⟩ | ⟨rfl, _⟩ | ⟨rfl, _⟩ | ⟨v, _, rfl, _⟩
  · exact hcore.append _
  · exact ((hcore.append _).append _).append _
  · exact ((hcore.append _).append _).append _
  -- these two styles put the query into another selection
  · have hrows : Announcing d (.text "SELECT * FROM (") :=
      hselect (r := "* FROM (") rfl
    have hnumbered : Announcing d (.text "SELECT * FROM (SELECT q_.*, ROWNUM rn_ FROM (") :=
      hselect (r := "* FROM (SELECT q_.*, ROWNUM rn_ FROM (") rfl
    unfold Paging.rownum
    dsimp only
    split
    · split
      · exact (hrows.append _).append _
      · exact (hnumbered.append _).append _
    · exact (hnumbered.append _).append _
  · have htop : Announcing d (.text ("SELECT TOP " ++ v.text ++ " * FROM (")) := by
      have hparts : "SELECT TOP " = "SELECT" ++ " " ++ "TOP " := rfl
      refine hselect (r := "TOP " ++ v.text ++ " * FROM (") ?_
      rw [hparts]
      simp only [String.append_assoc]
    exact ((htop.append _).append _).append _

theorem announcing_withClause {recursive : Bool} {ctes : List Fragment} {body : Fragment}
    (h : Announcing d body) : Announcing d (Sql.withClause d recursive ctes body) := by
  have hkeyword : Announcing d (.text
      ((if recursive && d.hasRecursiveKeyword then "WITH RECURSIVE" else "WITH") ++ " ")) := by
    split
    · exact announcing_text (w := .with_) rfl (r := "RECURSIVE ") rfl
    · exact announcing_text (w := .with_) rfl (r := "") rfl
  unfold Sql.withClause
  split
  · exact h
  · exact ((hkeyword.append _).append _).append _

theorem keyword_setOperator (op : SetOperator) :
    ∃ w : Keyword, w.isOfQuery = true ∧ d.setOperatorKeyword op.keyword = w.text d :=
  ⟨op.word, by cases op <;> rfl, (op.text_word d).symm⟩

/-- Every query is announced. -/
theorem announcing_query {q : Query} {f : Fragment} (hr : Rules.plain.query q)
    (h : Sql.query d q = .ok f) : Announcing d f := by
  cases q with
  | select p =>
    rw [Sql.query] at h
    obtain ⟨ws, items, source, joined, condition, groups, having, orders, body, _, _, _, _, _, _, _,
      _, _, hbody, rfl⟩ := Sql.select_ok h
    have hhead := announcing_selectHead (d := d) p.distinct (Sql.topLimit d p.pagination)
    refine announcing_withClause (announcing_finish ?_ hbody)
    exact (((((hhead.append _).append _).append _).append _).append _).append _
  | combined p =>
    rw [Sql.query] at h
    obtain ⟨ws, left, right, orders, body, _, _, _, hleft, _, _, hbody, rfl⟩ := Sql.combined_ok h
    refine announcing_withClause (announcing_finish ?_ hbody)
    obtain ⟨w, hw, hkeyword⟩ := keyword_setOperator (d := d) p.operator
    obtain ⟨operator, all, l, _, _, _, _⟩ := p
    -- an operand announces whatever the word of the operator is written behind
    have hwords : ∃ r, " " ++ d.setOperatorKeyword operator.keyword ++
        (if all then " ALL " else " ") = " " ++ (w.text d ++ (" " ++ r)) := by
      have hall : " ALL " = " " ++ "ALL " := rfl
      rw [hkeyword]
      cases all with
      | true => exact ⟨"ALL ", by rw [if_pos rfl, hall, String.append_assoc]⟩
      | false => exact ⟨"", by rw [String.append_assoc]; rfl⟩
    obtain ⟨r, hr'⟩ := hwords
    have hsteady : Steady d fun n => (Sql.setOperand d .left l left).chars d n :=
      (closed_steady d).setOperand .left l ((closed_steady d).of_query l hr.2.1 hleft)
    refine Announcing.append (fun n => ?_) _
    rw [hr', Fragment.chars_append, Fragment.chars_text]
    simp only [String.toList_append, toList_blank, List.cons_append, List.nil_append]
    exact announces_behind hsteady hw n _

/-- A query spells paired tokens with a word of a query among them. -/
theorem written_query {q : Query} {f : Fragment} (hr : Rules.plain.query q)
    (h : Sql.query d q = .ok f) :
    Written d f (q.tokens d) ∧ Paired (q.tokens d) ∧
      Grammar.announces 0 (q.tokens d) = true := by
  have hsteady : Steady d fun n => f.chars d n := (closed_steady d).of_query q hr h
  have htokens : q.tokens d = tokens d (f.chars d 0) := by rw [Query.tokens, h]
  rw [htokens]
  exact ⟨hsteady.spells.1, hsteady.spells.2, (announcing_query hr h 0).announces⟩

/-- Keywords, each behind a blank. -/
theorem follows_words (ws : List Keyword) :
    Follows d (fun _ => (String.join (ws.map fun w => " " ++ w.text d)).toList)
      (ws.map Token.key) := by
  induction ws with
  | nil => exact follows_nothing
  | cons w ws ih =>
    have h := (spells_keyword (d := d) w).spaced.append ih
    simpa only [List.map_cons, String.join_cons, String.toList_append, toList_blank,
      List.cons_append, List.nil_append] using h

/-- A test with its brackets. -/
theorem written_membership {test f : Fragment} {ts us : List Token} (negated : Bool)
    (ht : Written d test ts) (hf : Written d f us) :
    Written d (test ++ .text (" " ++ Sql.membershipKeyword negated ++ " ") ++ f.enclosed)
      (ts ++ Tree.membershipTokens negated ++ us ++ [.closing]) := by
  have hwords : Follows d (fun _ => (" " ++ Sql.membershipKeyword negated).toList)
      (if negated then [.key .not, .key .in_] else [.key .in_]) := by
    cases negated with
    | false => exact follows_words [.in_]
    | true => exact follows_words [.not, .in_]
  have hbrackets := (Spells.enclosed hf).spells.spaced
  have hall := Spells.append ht ((hwords.append hbrackets).shift test.bindings.length)
  have htokens : ts ++ Tree.membershipTokens negated ++ us ++ [.closing] =
      ts ++ ((if negated then [.key .not, .key .in_] else [.key .in_]) ++
        (.opening :: us ++ [.closing])) := by
    cases negated <;> simp [Tree.membershipTokens]
  rw [htokens]
  simpa only [Written, Fragment.enclosed, Fragment.chars_append, Fragment.chars_text,
    Fragment.bindings_append, Fragment.bindings_text, List.append_nil, List.length_append,
    List.length_nil, Nat.add_zero, Nat.zero_add, String.toList_append, toList_blank,
    toList_opening, toList_closing, List.append_assoc, List.cons_append, List.nil_append] using hall

/-- A list within the limit is tested at once. -/
theorem chars_membership {negated : Bool} {test : Fragment} {values : List Fragment}
    (hne : values ≠ []) (hmax : ∀ n, d.maxInList = some n → values.length ≤ n) (n : Nat) :
    (Sql.membership d negated test values).chars d n =
      (test ++ .text (" " ++ Sql.membershipKeyword negated ++ " ") ++
        (Fragment.join ", " values).enclosed).chars d n := by
  have hsize : values.length ≤ d.maxInList.getD values.length := by
    cases hm : d.maxInList with
    | none => exact Nat.le_refl _
    | some m => exact hmax m hm
  -- a list that is not too long is one part
  have hchunks : Sql.chunks (d.maxInList.getD values.length) values.length values = [values] := by
    cases values with
    | nil => exact absurd rfl hne
    | cons v vs =>
      have hempty (fuel : Nat) : Sql.chunks (α := Fragment)
          (d.maxInList.getD (v :: vs).length) fuel [] = [] := by cases fuel <;> rfl
      rw [List.length_cons, Sql.chunks, ← List.length_cons (a := v), List.take_of_length_le hsize,
        List.drop_of_length_le hsize, hempty]
      rfl
  rw [Sql.membership, hchunks]
  have hopen : " (".toList = [' ', '('] := String.toList_ofList
  simp only [List.map_cons, List.map_nil, Fragment.enclosed, Fragment.chars_append,
    Fragment.chars_text, Fragment.bindings_append, Fragment.bindings_text, List.append_nil,
    List.length_append, List.length_nil, Nat.add_zero, String.toList_append, toList_blank,
    toList_opening, toList_closing, hopen, List.append_assoc, List.cons_append, List.nil_append]

/-- A call that is written as a call. -/
theorem written_call {name shown : String} {distinct : Bool} {fs : List Fragment} {ts : List Tree}
    (hshown : d.shownName? name = some shown) (hplain : Dialect.isPlainName shown.toList = true)
    (hword : Keyword.ofWord? d shown = none) (h : ListWritten d fs ts) :
    Written d (Fragment.ofLayout (d.functionLayout name fs.length distinct) fs)
      ((Tree.call shown ts distinct).tokens d) := by
  have hform : (d.functionForm? name).getD (.call name) = .call shown := by
    unfold Dialect.shownName? at hshown
    split at hshown
    · next heq => cases hshown; exact heq
    · cases hshown
  have hname : Spells d (fun _ => shown.toList) [.word shown] := by
    have hspells := spells_word (d := d) hplain
    rwa [Token.ofWord, hword] at hspells
  -- DISTINCT stands within the brackets, before the arguments
  have hinside : Spells d (fun n => (FunctionForm.distinctWord distinct).toList ++
      (Fragment.join ", " fs).chars d n)
      ((if distinct then [.key .distinct] else []) ++ Tree.listTokens d ts) := by
    cases distinct with
    | false => exact h.joined
    | true =>
      have hspells := (spells_keyword (d := d) .distinct).append (Spells.spaced h.joined)
      have htext : (FunctionForm.distinctWord true).toList = "DISTINCT".toList ++ [' '] := by
        have hparts : FunctionForm.distinctWord true = "DISTINCT" ++ " " := rfl
        rw [hparts, String.toList_append, toList_blank]
      simp only [htext, List.append_assoc, List.cons_append, List.nil_append]
      exact hspells
  have hall := hname.append hinside.enclosed
  have htokens : (Tree.call shown ts distinct).tokens d = [.word shown] ++
      (.opening :: ((if distinct then [.key .distinct] else []) ++ Tree.listTokens d ts) ++
        [.closing]) := by simp [Tree.tokens]
  rw [Dialect.functionLayout, hform, FunctionForm.layout, Fragment.ofLayout_separated, htokens]
  simpa only [Written, Fragment.chars_append, Fragment.chars_text, Fragment.bindings_append,
    Fragment.bindings_text, List.nil_append, List.length_nil, Nat.add_zero, String.toList_append,
    toList_opening, toList_closing, List.append_assoc, List.cons_append] using hall

/-- What a sign stands before begins with no sign. -/
theorem first_of_unsigned {t : Tree} (h : t.Legible) (hneg : ∀ u, t ≠ .unary .neg u) :
    ∃ u us, Tree.wrapped t.isCompound (t.tokens d) = u :: us ∧ ∀ s, u = .mark s → s = "*" := by
  cases hc : t.isCompound with
  | true => exact ⟨.opening, t.tokens d ++ [.closing], rfl, by simp⟩
  | false =>
    have hlevel := Grammar.level_of_isCompound hc
    cases t with
    | path parts =>
      have hpart (p : Option String) : ∀ s, Tree.partToken d p = .mark s → s = "*" := by
        intro s hs
        cases p with
        | none => cases hs; rfl
        | some name =>
          rw [Tree.partToken] at hs
          split at hs <;> cases hs
      rcases parts with _ | ⟨p, _ | ⟨q, ps⟩⟩
      · exact absurd rfl h
      · exact ⟨_, [], rfl, hpart p⟩
      · exact ⟨_, _, rfl, hpart p⟩
    | hole => exact ⟨.hole, [], rfl, by simp⟩
    | query inside => exact ⟨.opening, inside ++ [.closing], rfl, by simp⟩
    | unary op u =>
      cases op with
      | neg => exact absurd rfl (hneg u)
      | _ => cases hc
    | binary op l r =>
      -- an operator that binds like an operand would have no precedence
      have hop := Grammar.precedence_cases op
      rw [Grammar.level_binary] at hlevel
      omega
    | inList u values negated => cases hc
    | inQuery u inside negated => cases hc
    | call name arguments distinct => exact ⟨.word name, _, rfl, by simp⟩
    | cases parts => exact ⟨.key .case_, _, rfl, by simp⟩

/-- A unary operator with its operand. -/
theorem written_unary {op : UnaryOp} {e : Expr} (hr : (Expr.unary op e).Readable d) {f : Fragment}
    (hf : Written d f ((Tree.outline d e).tokens d)) (hl : (Tree.outline d e).Legible) :
    Written d (Sql.unary op e f) ((Tree.outline d (.unary op e)).tokens d) ∧
      (Tree.outline d (.unary op e)).Legible := by
  obtain ⟨hfits, hr⟩ := hr
  have hoperand := written_predicateOperand hr hf
  cases op with
  | not => exact ⟨Written.behindText (spells_keyword .not) hoperand, hl⟩
  | neg =>
    -- an expression that reads back has no two signs in a row, which would be a remark
    have hneg : ∀ u, Tree.outline d e ≠ .unary .neg u := by
      intro u hu
      cases e with
      | unary o x =>
        rw [Tree.outline] at hu
        cases hu
        exact hfits x rfl
      | column table name shown =>
        obtain ⟨parts, hparts⟩ := qualified_path table (some name)
        rw [Tree.outline, hparts] at hu
        cases hu
      | star table =>
        obtain ⟨parts, hparts⟩ := qualified_path table none
        rw [Tree.outline, hparts] at hu
        cases hu
      | named x name => exact hr.elim
      | _ => cases hu
    obtain ⟨u, us, htokens, hu⟩ := first_of_unsigned (d := d) hl hneg
    rw [htokens] at hoperand
    have hsign : "-".toList = ['-'] := String.toList_ofList
    have hall := Spells.negated hoperand hu
    have hsigned : (Tree.outline d (.unary .neg e)).tokens d = .mark "-" :: u :: us :=
      congrArg _ htokens
    refine ⟨?_, hneg, hl⟩
    rw [hsigned]
    simpa only [Written, Sql.unary, Fragment.chars_append, Fragment.chars_text,
      Fragment.bindings_text, List.length_nil, Nat.add_zero, hsign, List.cons_append,
      List.nil_append] using hall
  | isNull => exact ⟨hoperand.append (writtenBehind_text (follows_words [.is, .null])), hl⟩
  | isNotNull =>
    exact ⟨hoperand.append (writtenBehind_text (follows_words [.is, .not, .null])), hl⟩
  | exists_ =>
    obtain ⟨q, rfl⟩ := hfits
    exact ⟨Written.behindText (spells_keyword .exists_) hf, ⟨_, rfl⟩, hl⟩
  | notExists =>
    obtain ⟨q, rfl⟩ := hfits
    have hwords := (spells_keyword (d := d) .not).append (spells_keyword .exists_).spaced
    have htext : "NOT EXISTS".toList =
        (Keyword.text d .not).toList ++ ' ' :: (Keyword.text d .exists_).toList := by
      have hparts : "NOT EXISTS" = Keyword.text d .not ++ " " ++ Keyword.text d .exists_ := rfl
      rw [hparts, String.toList_append, String.toList_append, toList_blank, List.append_assoc]
      rfl
    rw [← htext] at hwords
    exact ⟨Written.behindText hwords hf, ⟨_, rfl⟩, hl⟩

theorem allLegible_append {ts us : List Tree} (h : Tree.AllLegible ts) (h' : Tree.AllLegible us) :
    Tree.AllLegible (ts ++ us) := by
  induction ts with
  | nil => exact h'
  | cons t ts ih => exact ⟨h.1, ih h.2⟩

/-- The parts of a case distinction, before the ones that follow them. -/
def BranchesWritten (d : Dialect) (f : Fragment) (ts : List Tree) : Prop :=
  Tree.AllLegible ts ∧ ∀ g us, WrittenBehind d g (Tree.caseTokens d us) →
    WrittenBehind d (f ++ g) (Tree.caseTokens d (ts ++ us))

theorem branchesWritten_cons {c r gs : Fragment} {t u : Tree} {ts : List Tree}
    (hc : Written d c (t.tokens d)) (ht : t.Legible) (hr : Written d r (u.tokens d))
    (hu : u.Legible) (h : BranchesWritten d gs ts) :
    BranchesWritten d (Sql.clause " WHEN" c ++ Sql.clause " THEN" r ++ gs) (t :: u :: ts) := by
  refine ⟨⟨ht, hu, h.1⟩, fun g us hg => ?_⟩
  have hwhen : WrittenBehind d (Sql.clause " WHEN" c) (.key .when_ :: t.tokens d) :=
    Written.clause .when_ hc
  have hthen : WrittenBehind d (Sql.clause " THEN" r) (.key .then_ :: u.tokens d) :=
    Written.clause .then_ hr
  have hall := (hwhen.append hthen).append (h.2 g us hg)
  rw [Fragment.append_assoc]
  exact hall

theorem written_cases {gs : Fragment} {last : Option Fragment} {ts : List Tree} {rest : List Tree}
    (h : BranchesWritten d gs ts)
    (hlast : WrittenBehind d (Sql.optionalClause " ELSE" last) (Tree.caseTokens d rest)) :
    Written d (Fragment.text "CASE" ++ gs ++ Sql.optionalClause " ELSE" last ++
      Fragment.text " END") ((Tree.cases (ts ++ rest)).tokens d) := by
  have hcase : Written d (.text "CASE") [.key .case_] := written_text (spells_keyword .case_)
  have hend : WrittenBehind d (.text " END") [.key .end_] :=
    writtenBehind_text (follows_words [.end_])
  have hall := (hcase.append (h.2 _ _ hlast)).append hend
  have hassoc := Fragment.append_assoc (Fragment.text "CASE") gs (Sql.optionalClause " ELSE" last)
  rw [hassoc]
  exact hall

mutual

/-- The text of a readable expression spells the tokens of its outline. -/
theorem written_expr (e : Expr) (hr : e.Readable d) {f : Fragment} (h : Sql.expr d e = .ok f) :
    Written d f ((Tree.outline d e).tokens d) ∧ (Tree.outline d e).Legible := by
  cases e with
  | column table name shown => cases h; exact written_qualified table (some name)
  | star table => cases h; exact written_qualified table none
  | literal value hint => cases h; exact ⟨spells_hole _, trivial⟩
  | binary op left right =>
    obtain ⟨l, r, hl, hr', rfl⟩ := Sql.binary_ok h
    obtain ⟨hleft, hleft'⟩ := written_expr left hr.1 hl
    obtain ⟨hright, hright'⟩ := written_expr right hr.2 hr'
    have hoperands := Written.between (written_operand hr.1 op .left hleft) (spells_symbol op)
      (written_operand hr.2 op .right hright)
    exact ⟨hoperands, hleft', hright'⟩
  | unary op e =>
    obtain ⟨g, hg, rfl⟩ := Sql.unary_ok h
    obtain ⟨hwritten, hlegible⟩ := written_expr e hr.2 hg
    exact written_unary hr hwritten hlegible
  | inList e values negated =>
    obtain ⟨hre, hne, hmax, hrs⟩ := hr
    rcases Sql.inList_ok h with ⟨hv, _⟩ | ⟨_, g, gs, hg, hgs, rfl⟩
    · exact absurd hv hne
    · obtain ⟨hwritten, hlegible⟩ := written_expr e hre hg
      have hlist := written_exprs values hrs hgs
      have hgs_ne : gs ≠ [] := fun hnil => hne (by simpa [hnil] using (Sql.length_exprs hgs).symm)
      -- as many fragments as values, so they too are one part
      have hgs_max : ∀ n, d.maxInList = some n → gs.length ≤ n := by
        rw [Sql.length_exprs hgs]
        exact hmax
      have htest := written_membership negated (written_predicateOperand hre hwritten) hlist.joined
      rw [Written, ← funext (chars_membership hgs_ne hgs_max)] at htest
      refine ⟨htest, hlegible, ?_, hlist.legible⟩
      cases values with
      | nil => exact absurd rfl hne
      | cons v vs => exact List.cons_ne_nil _ _
  | inQuery e q negated =>
    obtain ⟨g, body, hg, hb, rfl⟩ := Sql.inQuery_ok h
    obtain ⟨hwritten, hlegible⟩ := written_expr e hr.1 hg
    obtain ⟨hquery, hpaired⟩ := written_query hr.2 hb
    exact ⟨written_membership negated (written_predicateOperand hr.1 hwritten) hquery, hlegible,
      hpaired⟩
  | call name arguments distinct windowed =>
    obtain ⟨rfl, ⟨shown, hshown, hplain, hword⟩, hrs⟩ := hr
    obtain ⟨fs, framed, _, hfs, hover, rfl⟩ := Sql.call_ok h
    cases hover
    have hlist := written_exprs arguments hrs hfs
    have hname : (d.shownName? name).getD name = shown := by rw [hshown]; rfl
    rw [Tree.outline, hname, ← Sql.length_exprs hfs]
    exact ⟨written_call hshown hplain hword hlist, hlist.legible⟩
  | window w => exact hr.elim
  | subquery q =>
    obtain ⟨g, hg, rfl⟩ := Sql.subquery_ok h
    obtain ⟨hquery, hpaired⟩ := written_query hr hg
    exact ⟨hquery.enclosed.spells, hpaired⟩
  | cases bs otherwise =>
    obtain ⟨gs, last, hgs, hlast, rfl⟩ := Sql.cases_ok h
    have hbranches := written_branches bs hr.1 hgs
    obtain ⟨hwritten, hlegible⟩ := written_optional otherwise hr.2 hlast
    exact ⟨written_cases hbranches hwritten, allLegible_append hbranches.1 hlegible⟩
  | named e name => exact hr.elim
  | raw sql parameters => exact hr.elim

theorem written_exprs (es : List Expr) (hr : Expr.AllReadable d es) {fs : List Fragment}
    (h : Sql.exprs d es = .ok fs) : ListWritten d fs (Tree.outlines d es) := by
  cases es with
  | nil => cases h; exact .nil
  | cons e es =>
    obtain ⟨g, gs, hg, hgs, rfl⟩ := Sql.exprs_cons_ok h
    obtain ⟨hwritten, hlegible⟩ := written_expr e hr.1 hg
    exact .cons hwritten hlegible (written_exprs es hr.2 hgs)

theorem written_optional (o : Option Expr) (hr : Expr.OptionalReadable d o) {x : Option Fragment}
    (h : Sql.optional d o = .ok x) :
    WrittenBehind d (Sql.optionalClause " ELSE" x) (Tree.caseTokens d (Tree.optionalOutline d o)) ∧
      Tree.AllLegible (Tree.optionalOutline d o) := by
  cases o with
  | none =>
    cases h
    exact ⟨writtenBehind_empty, trivial⟩
  | some e =>
    obtain ⟨g, hg, rfl⟩ := Sql.optional_some_ok h
    obtain ⟨hwritten, hlegible⟩ := written_expr e hr hg
    exact ⟨Written.clause .else_ hwritten, hlegible, trivial⟩

theorem written_branches (bs : List Branch) (hr : Expr.BranchesReadable d bs) {f : Fragment}
    (h : Sql.branches d bs = .ok f) : BranchesWritten d f (Tree.branchOutlines d bs) := by
  cases bs with
  | nil =>
    cases h
    refine ⟨trivial, fun g us hg => ?_⟩
    rw [Fragment.empty_append]
    exact hg
  | cons b bs =>
    obtain ⟨c, r, gs, hc, hr', hgs, rfl⟩ := Sql.branches_cons_ok h
    obtain ⟨condition, result⟩ := b
    obtain ⟨hwritten, hlegible⟩ := written_expr condition hr.1 hc
    obtain ⟨hwritten', hlegible'⟩ := written_expr result hr.2.1 hr'
    exact branchesWritten_cons hwritten hlegible hwritten' hlegible'
      (written_branches bs hr.2.2 hgs)

end

end Scan

/-- Reading the text of an expression yields the tree that it stands for, but for the grouping of
associative operators, exactly when no associative operator has a right operand without parentheses
in whose row another operator stands. -/
theorem expr_read_back {d : Dialect} {e : Expr} {f : Fragment} (h : Sql.expr d e = .ok f)
    (hr : e.Readable d) (n : Nat) : ∃ t, Grammar.read d (f.chars d n) = some t ∧
      (Tree.Regrouped t (Tree.outline d e) ↔ (Tree.outline d e).isGrouped = true) := by
  obtain ⟨hwritten, hlegible⟩ := Scan.written_expr e hr h
  have htokens : Scan.tokens d (f.chars d n) = (Tree.outline d e).tokens d := hwritten.tokens n
  refine ⟨(Tree.outline d e).reading, ?_, Tree.regrouped_iff _⟩
  rw [Grammar.read, htokens]
  exact Grammar.whole_tokens d hlegible

/-- A column without a table. -/
def Expr.plainColumn (name : String) : Expr := .column none name none

/-- A condition that needs parentheses for its differences, its comparison and its negation. -/
def groupedCondition : Expr :=
  .binary .and
    (.unary .not (.binary .or
      (.binary .equal (.binary .equal (.plainColumn "a") (.plainColumn "b")) (.star none))
      (.unary .isNull (.call "abs" [.plainColumn "a"] false none))))
    (.inList
      (.binary .sub (.plainColumn "a")
        (.binary .sub (.plainColumn "b") (.unary .neg (.plainColumn "c"))))
      [.literal (.number (.int 1)) ⟨"number", none, none⟩,
        .cases [⟨.plainColumn "a", .plainColumn "b"⟩] none] true)

theorem expr_read_back_groupedCondition :
    ∃ f t, Sql.expr (.make .postgres none) groupedCondition = .ok f ∧
      groupedCondition.Readable (.make .postgres none) ∧
      f.sql (.make .postgres none) = "NOT ((a = b) = * OR abs(a) IS NULL) AND " ++
        "(a - (b - -c)) NOT IN ($1, CASE WHEN a THEN b END)" ∧
      Grammar.read (.make .postgres none) (f.chars (.make .postgres none) 0) = some t ∧
      Tree.Regrouped t (Tree.outline (.make .postgres none) groupedCondition) := by
  have hreadable : groupedCondition.Readable (.make .postgres none) := by
    refine ⟨⟨trivial, ⟨⟨trivial, trivial⟩, trivial⟩, trivial, rfl, ?_, trivial, trivial⟩,
      ⟨trivial, trivial, ?_, trivial⟩, List.cons_ne_nil _ _, by simp [Dialect.maxInList],
      trivial, ⟨⟨trivial, trivial, trivial⟩, trivial⟩, trivial⟩
    · exact ⟨"abs", by decide +kernel, by decide +kernel, by decide +kernel⟩
    · exact fun x hx => by cases hx
  obtain ⟨t, ht, hiff⟩ := expr_read_back (f := _) rfl hreadable 0
  exact ⟨_, t, rfl, hreadable, by decide +kernel, ht, hiff.2 (by decide +kernel)⟩

/-- A product with a product of a remainder. -/
def remainderProduct : Expr :=
  .binary .mul (.plainColumn "a")
    (.binary .mul (.binary .mod (.plainColumn "p") (.plainColumn "q")) (.plainColumn "c"))

/-- The remainder is written without parentheses, and read as one of the first product. -/
theorem remainderProduct_read_apart :
    ∃ f t, Sql.expr (.make .sqlite none) remainderProduct = .ok f ∧
      remainderProduct.Readable (.make .sqlite none) ∧
      f.sql (.make .sqlite none) = "a * p % q * c" ∧
      Grammar.read (.make .sqlite none) (f.chars (.make .sqlite none) 0) = some t ∧
      ¬ Tree.Regrouped t (Tree.outline (.make .sqlite none) remainderProduct) := by
  have hreadable : remainderProduct.Readable (.make .sqlite none) :=
    ⟨trivial, ⟨trivial, trivial⟩, trivial⟩
  obtain ⟨hwritten, hlegible⟩ := Scan.written_expr (f := _) remainderProduct hreadable rfl
  have hread := Grammar.whole_tokens (.make .sqlite none) hlegible
  rw [← hwritten.tokens 0] at hread
  refine ⟨_, _, rfl, hreadable, by decide +kernel, hread, fun h => ?_⟩
  have hgrouped := (Tree.regrouped_iff _).1 h
  exact absurd hgrouped (by decide +kernel)

end PolyQuery
