import PolyQuery.Proofs.Grammar
import PolyQuery.Proofs.Steady

/-! Trees as tokens, and tokens as trees again. Every operand is written between parentheses where
it needs them, and the grammar reads a row of operators from the left. Main statement: `whole_tokens`,
which gives the tree that the tokens of a tree are read as. -/
namespace PolyQuery

/-- The tokens of an operator between two operands. -/
def BinaryOp.tokens : BinaryOp → List Token
  | .equal => [.mark "="]
  | .notEqual => [.mark "<>"]
  | .less => [.mark "<"]
  | .lessEqual => [.mark "<="]
  | .greater => [.mark ">"]
  | .greaterEqual => [.mark ">="]
  | .like => [.key .like]
  | .notLike => [.key .not, .key .like]
  | .and => [.key .and]
  | .or => [.key .or]
  | .add => [.mark "+"]
  | .sub => [.mark "-"]
  | .mul => [.mark "*"]
  | .div => [.mark "/"]
  | .mod => [.mark "%"]

namespace Tree

/-- Tokens, perhaps between brackets. -/
def wrapped (b : Bool) (ts : List Token) : List Token :=
  if b then .opening :: ts ++ [.closing] else ts

/-- A part of a dotted name, bare where it needs no quotes. -/
def partToken (d : Dialect) : Option String → Token
  | none => .mark "*"
  | some s => if d.needsQuotes s then .name s else .word s

/-- A dotted name. -/
def pathTokens (d : Dialect) : List (Option String) → List Token
  | [] => []
  | [p] => [partToken d p]
  | p :: q :: ps => partToken d p :: .dot :: pathTokens d (q :: ps)

/-- Whether the operand of a predicate stands between parentheses. -/
def isCompound (t : Tree) : Bool := t.precedence != atomicPrecedence

/-- A membership test behind its operand, up to the opening bracket. -/
def membershipTokens (negated : Bool) : List Token :=
  if negated then [.key .not, .key .in_, .opening] else [.key .in_, .opening]

mutual

/-- The tokens of a tree. -/
def tokens (d : Dialect) : Tree → List Token
  | path parts => pathTokens d parts
  | hole => [.hole]
  | query inside => .opening :: inside ++ [.closing]
  | unary .not t => .key .not :: wrapped t.isCompound (tokens d t)
  | unary .neg t => .mark "-" :: wrapped t.isCompound (tokens d t)
  | unary .isNull t => wrapped t.isCompound (tokens d t) ++ [.key .is, .key .null]
  | unary .isNotNull t => wrapped t.isCompound (tokens d t) ++ [.key .is, .key .not, .key .null]
  | unary .exists_ t => .key .exists_ :: tokens d t
  | unary .notExists t => .key .not :: .key .exists_ :: tokens d t
  | binary op l r => wrapped (l.needsParens op .left) (tokens d l) ++ op.tokens ++
      wrapped (r.needsParens op .right) (tokens d r)
  | inList t values negated =>
    wrapped t.isCompound (tokens d t) ++ membershipTokens negated ++ listTokens d values ++
      [.closing]
  | inQuery t inside negated =>
    wrapped t.isCompound (tokens d t) ++ membershipTokens negated ++ inside ++ [.closing]
  | call name arguments distinct =>
    .word name :: .opening :: (if distinct then [.key .distinct] else []) ++
      listTokens d arguments ++ [.closing]
  | cases parts => .key .case_ :: caseTokens d parts ++ [.key .end_]

/-- Trees with commas between them. -/
def listTokens (d : Dialect) : List Tree → List Token
  | [] => []
  | t :: ts => tokens d t ++ commaTokens d ts

/-- Trees, each behind a comma. -/
def commaTokens (d : Dialect) : List Tree → List Token
  | [] => []
  | t :: ts => .comma :: tokens d t ++ commaTokens d ts

/-- The parts of a case distinction. -/
def caseTokens (d : Dialect) : List Tree → List Token
  | [] => []
  | [t] => .key .else_ :: tokens d t
  | t :: u :: ts =>
    .key .when_ :: tokens d t ++ .key .then_ :: tokens d u ++ caseTokens d ts

end

mutual

/-- Paths have parts, queries are announced by a word of their own, what exists is a query, a sign
stands before no other sign, and lists to be in have values. -/
def Legible : Tree → Prop
  | path parts => parts ≠ []
  | hole => True
  | query inside => Paired inside ∧ Grammar.announces 0 inside = true
  | unary .exists_ t => (∃ inside, t = query inside) ∧ Legible t
  | unary .notExists t => (∃ inside, t = query inside) ∧ Legible t
  | unary .neg t => (∀ u, t ≠ unary .neg u) ∧ Legible t
  | unary _ t => Legible t
  | binary _ l r => Legible l ∧ Legible r
  | inList t values _ => Legible t ∧ values ≠ [] ∧ AllLegible values
  | inQuery t inside _ => Legible t ∧ Paired inside ∧ Grammar.announces 0 inside = true
  | call _ arguments _ => AllLegible arguments
  | cases parts => AllLegible parts

/-- All of them are. -/
def AllLegible : List Tree → Prop
  | [] => True
  | t :: ts => Legible t ∧ AllLegible ts

end

/-- The level at which the grammar reads a tree. -/
def level : Tree → Nat
  | unary .neg _ => 7
  | t => if t.precedence = atomicPrecedence then 8 else t.precedence

end Tree

namespace Grammar

theorem close_paired {us : List Token} (h : Paired us) (k : Nat) (vs : List Token) :
    close k (us ++ vs) = (close k vs).map fun p => (us ++ p.1, p.2) := by
  induction h generalizing k vs with
  | nil => simp
  | @plain t ts ht _ ih =>
    -- a token that is no bracket leaves the depth as it is
    have hstep : close k (t :: (ts ++ vs)) = (close k (ts ++ vs)).map fun p => (t :: p.1, p.2) := by
      cases t with
      | opening => cases ht
      | closing => cases ht
      | _ => cases k <;> rfl
    rw [List.cons_append, hstep, ih, Option.map_map]
    rfl
  | @group ts us _ _ ih ih' =>
    have hinner := ih (k + 1) (.closing :: (us ++ vs))
    have hclosing : close (k + 1) (.closing :: (us ++ vs)) =
        (close k (us ++ vs)).map fun p => (.closing :: p.1, p.2) := rfl
    have hopening : close k (.opening :: (ts ++ .closing :: (us ++ vs))) =
        (close (k + 1) (ts ++ .closing :: (us ++ vs))).map fun p => (.opening :: p.1, p.2) := by
      cases k <;> rfl
    rw [List.append_assoc, List.cons_append, List.cons_append, hopening, hinner, hclosing, ih',
      Option.map_map, Option.map_map, Option.map_map]
    congr 1
    funext p
    simp

/-- Paired brackets do not hide the closing one. -/
theorem close_closing {us : List Token} (h : Paired us) (rest : List Token) :
    close 0 (us ++ .closing :: rest) = some (us, rest) := by
  rw [close_paired h, close, Option.map_some, List.append_nil]

theorem announces_inner {us : List Token} (h : Paired us) (k : Nat) (vs : List Token) :
    announces (k + 1) (us ++ vs) = announces (k + 1) vs := by
  induction h generalizing k vs with
  | nil => rfl
  | @plain t ts ht _ ih =>
    rw [List.cons_append, ← ih k vs]
    cases t with
    | opening => cases ht
    | closing => cases ht
    | _ => rfl
  | @group ts us _ _ ih ih' =>
    rw [List.append_assoc, List.cons_append, List.cons_append]
    calc announces (k + 2) (ts ++ .closing :: (us ++ vs))
        = announces (k + 2) (.closing :: (us ++ vs)) := ih (k + 1) _
      _ = announces (k + 1) vs := ih' k vs

theorem announces_paired {us : List Token} (h : Paired us) (vs : List Token) :
    announces 0 (us ++ vs) = (announces 0 us || announces 0 vs) := by
  induction h generalizing vs with
  | nil => rfl
  | @plain t ts ht _ ih =>
    cases t with
    | opening => cases ht
    | closing => cases ht
    | key w => simp only [List.cons_append, announces, ih, Bool.or_assoc]
    | _ => exact ih vs
  | @group ts us hts _ _ ih' =>
    have hgroup (ws : List Token) : announces 0 (.opening :: (ts ++ .closing :: ws)) =
        announces 0 ws := announces_inner hts 0 _
    simp only [List.cons_append, List.append_assoc]
    rw [hgroup, hgroup, ih']

/-- Paired brackets, and no word of a query outside of them. -/
def Quiet (ts : List Token) : Prop := Paired ts ∧ announces 0 ts = false

theorem quiet_nil : Quiet [] := ⟨.nil, rfl⟩

theorem Quiet.append {ts us : List Token} (h : Quiet ts) (h' : Quiet us) : Quiet (ts ++ us) := by
  refine ⟨h.1.append h'.1, ?_⟩
  rw [announces_paired h.1, h.2, h'.2, Bool.or_self]

theorem Quiet.cons {t : Token} {ts : List Token} (ht : Quiet [t]) (h : Quiet ts) :
    Quiet (t :: ts) := ht.append h

/-- Between brackets anything may stand. -/
theorem quiet_enclosed {ts : List Token} (h : Paired ts) :
    Quiet (.opening :: ts ++ [.closing]) := ⟨h.enclosed, announces_inner h 0 _⟩

theorem quiet_wrapped {ts : List Token} (h : Quiet ts) (b : Bool) : Quiet (Tree.wrapped b ts) := by
  cases b with
  | false => exact h
  | true => exact quiet_enclosed h.1

theorem quiet_key {w : Keyword} (h : w.isOfQuery = false) : Quiet [.key w] :=
  ⟨.plain rfl .nil, by rw [announces, h]; rfl⟩

theorem quiet_word (s : String) : Quiet [.word s] := ⟨.plain rfl .nil, rfl⟩

theorem quiet_mark (s : String) : Quiet [.mark s] := ⟨.plain rfl .nil, rfl⟩

theorem quiet_operator (op : BinaryOp) : Quiet op.tokens := by
  cases op with
  | notLike => exact (quiet_key rfl).cons (quiet_key rfl)
  | like => exact quiet_key rfl
  | and => exact quiet_key rfl
  | or => exact quiet_key rfl
  | _ => exact quiet_mark _

theorem quiet_path (d : Dialect) (parts : List (Option String)) :
    Quiet (Tree.pathTokens d parts) := by
  have hpart (p : Option String) : Quiet [Tree.partToken d p] := by
    cases p with
    | none => exact quiet_mark "*"
    | some s =>
      rw [Tree.partToken]
      split
      · exact ⟨.plain rfl .nil, rfl⟩
      · exact quiet_word s
  induction parts with
  | nil => exact quiet_nil
  | cons p ps ih =>
    cases ps with
    | nil => exact hpart p
    | cons q ps => exact (hpart p).cons (Quiet.cons ⟨.plain rfl .nil, rfl⟩ ih)

theorem quiet_isNull : Quiet [.key .is, .key .null] := (quiet_key rfl).cons (quiet_key rfl)

theorem quiet_isNotNull : Quiet [.key .is, .key .not, .key .null] :=
  (quiet_key rfl).cons ((quiet_key rfl).cons (quiet_key rfl))

/-- A membership test is quiet as soon as what it tests is, whatever its brackets hold. -/
theorem quiet_membership {ts us : List Token} (h : Quiet ts) (negated : Bool) (h' : Paired us) :
    Quiet (ts ++ Tree.membershipTokens negated ++ us ++ [.closing]) := by
  have hbrackets := quiet_enclosed h'
  rw [List.append_assoc, List.append_assoc]
  refine h.append ?_
  cases negated with
  | false => exact (quiet_key rfl).cons hbrackets
  | true => exact (quiet_key rfl).cons ((quiet_key rfl).cons hbrackets)

mutual

/-- An expression does not look like a query. -/
theorem quiet_tokens (d : Dialect) (t : Tree) (h : t.Legible) : Quiet (t.tokens d) := by
  match t, h with
  | .path parts, _ => exact quiet_path d parts
  | .hole, _ => exact ⟨.plain rfl .nil, rfl⟩
  | .query inside, h => exact quiet_enclosed h.1
  | .unary .not t, h => exact (quiet_key rfl).cons (quiet_wrapped (quiet_tokens d t h) _)
  | .unary .neg t, h => exact (quiet_mark "-").cons (quiet_wrapped (quiet_tokens d t h.2) _)
  | .unary .isNull t, h => exact (quiet_wrapped (quiet_tokens d t h) _).append quiet_isNull
  | .unary .isNotNull t, h => exact (quiet_wrapped (quiet_tokens d t h) _).append quiet_isNotNull
  | .unary .exists_ t, h => exact (quiet_key rfl).cons (quiet_tokens d t h.2)
  | .unary .notExists t, h =>
    exact (quiet_key rfl).cons ((quiet_key rfl).cons (quiet_tokens d t h.2))
  | .binary op l r, h =>
    have hl := quiet_wrapped (quiet_tokens d l h.1) (l.needsParens op .left)
    have hr := quiet_wrapped (quiet_tokens d r h.2) (r.needsParens op .right)
    exact (hl.append (quiet_operator op)).append hr
  | .inList t values negated, h =>
    have ht := quiet_wrapped (quiet_tokens d t h.1) t.isCompound
    exact quiet_membership ht negated (quiet_listTokens d values h.2.2).1
  | .inQuery t inside negated, h =>
    exact quiet_membership (quiet_wrapped (quiet_tokens d t h.1) t.isCompound) negated h.2.1
  | .call name arguments distinct, h =>
    -- a word for distinct arguments closes no bracket and ends no part
    have hdistinct : Quiet (if distinct then [.key .distinct] else []) := by
      cases distinct with
      | false => exact quiet_nil
      | true => exact quiet_key rfl
    have hinside := hdistinct.append (quiet_listTokens d arguments h)
    have hall := (quiet_word name).cons (quiet_enclosed hinside.1)
    simpa [Tree.tokens] using hall
  | .cases parts, h =>
    exact ((quiet_key rfl).cons (quiet_caseTokens d parts h)).append (quiet_key rfl)

theorem quiet_listTokens (d : Dialect) (ts : List Tree) (h : Tree.AllLegible ts) :
    Quiet (Tree.listTokens d ts) := by
  match ts, h with
  | [], _ => exact quiet_nil
  | t :: ts, h => exact (quiet_tokens d t h.1).append (quiet_commaTokens d ts h.2)

theorem quiet_commaTokens (d : Dialect) (ts : List Tree) (h : Tree.AllLegible ts) :
    Quiet (Tree.commaTokens d ts) := by
  match ts, h with
  | [], _ => exact quiet_nil
  | t :: ts, h =>
    have hcomma : Quiet [.comma] := ⟨.plain rfl .nil, rfl⟩
    exact (hcomma.cons (quiet_tokens d t h.1)).append (quiet_commaTokens d ts h.2)

theorem quiet_caseTokens (d : Dialect) (ts : List Tree) (h : Tree.AllLegible ts) :
    Quiet (Tree.caseTokens d ts) := by
  match ts, h with
  | [], _ => exact quiet_nil
  | [t], h => exact (quiet_key rfl).cons (quiet_tokens d t h.1)
  | t :: u :: ts, h =>
    have ht : Quiet (.key .when_ :: t.tokens d) := (quiet_key rfl).cons (quiet_tokens d t h.1)
    have hu : Quiet (.key .then_ :: u.tokens d) := (quiet_key rfl).cons (quiet_tokens d u h.2.1)
    have hrest := quiet_caseTokens d ts h.2.2
    exact (ht.append hu).append hrest

end

/-- The level of the operator that some tokens begin with. What carries a name on binds tightest. -/
def tightness : List Token → Nat
  | .key .is :: _ => 4
  | .key .in_ :: _ => 4
  | .key .not :: _ => 4
  | .dot :: _ => 9
  | .opening :: _ => 9
  | ts =>
    match infix? ts with
    | some (op, _) => op.precedence
    | none => 0

/-- The tightest level at which an expression can begin with the first token. -/
def front : List Token → Nat
  | .key .distinct :: _ => 0
  | .key .not :: .key .exists_ :: _ => 4
  | .key .not :: _ => 3
  | .key .exists_ :: _ => 4
  | .mark "-" :: _ => 7
  | _ => 8

/-- A level of binary operators that group to the left. -/
def IsChained (n : Nat) : Prop := n = 1 ∨ n = 2 ∨ n = 5 ∨ n = 6

/-- The grammar reads a tree off the front of some tokens, if it may take enough steps. -/
def Reads (n : Nat) (ts : List Token) (t : Tree) (rest : List Token) : Prop :=
  rest.length ≤ ts.length ∧ ∀ f, enough n ts ≤ f → level f n ts = some (t, rest)

/-- With a tree before them, the grammar hangs operators of a level off the front of some tokens. -/
def Chains (n : Nat) (t : Tree) (ts : List Token) (u : Tree) (rest : List Token) : Prop :=
  rest.length ≤ ts.length ∧
    ∀ f m, enough (n + 1) ts ≤ f → ts.length < m → chain (level f) n m t ts = some (u, rest)

theorem infix?_tokens (op : BinaryOp) (ts : List Token) :
    infix? (op.tokens ++ ts) = some (op, ts) := by cases op <;> rfl

theorem tightness_tokens (op : BinaryOp) (ts : List Token) :
    tightness (op.tokens ++ ts) = op.precedence := by cases op <;> rfl

theorem length_operator (op : BinaryOp) : 0 < op.tokens.length := by cases op <;> decide

theorem precedence_of_infix? {ts us : List Token} {op : BinaryOp} (h : infix? ts = some (op, us)) :
    op.precedence = tightness ts := by
  unfold infix? at h
  split at h <;> first | cases h; rfl | cases h

theorem reads_chain {n : Nat} {ts us rest : List Token} {t u : Tree} (hn : IsChained n)
    (h : Reads (n + 1) ts t us) (h' : Chains n t us u rest) : Reads n ts u rest := by
  refine ⟨Nat.le_trans h'.1 h.1, fun f hf => ?_⟩
  obtain ⟨hlen, hread⟩ := h
  have hbound : enough (n + 1) us + 1 ≤ f ∧ enough (n + 1) ts + 1 ≤ f := by
    unfold enough at *
    unfold IsChained at hn
    omega
  obtain ⟨g, rfl⟩ : ∃ g, f = g + 1 := ⟨f - 1, by omega⟩
  have hlevel : level (g + 1) n ts =
      (level g (n + 1) ts).bind fun p => chain (level g) n (p.2.length + 1) p.1 p.2 := by
    rcases hn with rfl | rfl | rfl | rfl <;> rfl
  rw [hlevel, hread g (by omega)]
  exact h'.2 g _ (by omega) (Nat.lt_succ_self _)

theorem chains_stop {n : Nat} {ts : List Token} (t : Tree) (h : tightness ts < n) :
    Chains n t ts t ts := by
  refine ⟨Nat.le_refl _, fun f m _ hm => ?_⟩
  obtain ⟨m, rfl⟩ : ∃ k, m = k + 1 := ⟨m - 1, by omega⟩
  rw [chain]
  cases hi : infix? ts with
  | none => rfl
  | some p =>
    have hp := precedence_of_infix? hi
    exact if_neg (by omega)

theorem chains_step {n : Nat} {op : BinaryOp} {us vs rest : List Token} {t u v : Tree}
    (hop : op.precedence = n) (h : Reads (n + 1) us u vs)
    (h' : Chains n (.binary op t u) vs v rest) : Chains n t (op.tokens ++ us) v rest := by
  have hlen := length_operator op
  have happend : (op.tokens ++ us).length = op.tokens.length + us.length := List.length_append
  obtain ⟨hus, hread⟩ := h
  obtain ⟨hvs, hchain⟩ := h'
  refine ⟨by omega, fun f m hf hm => ?_⟩
  obtain ⟨m, rfl⟩ : ∃ k, m = k + 1 := ⟨m - 1, by omega⟩
  have hbound : enough (n + 1) us ≤ f ∧ enough (n + 1) vs ≤ f := by
    unfold enough at *
    omega
  rw [chain, infix?_tokens]
  dsimp only
  rw [if_pos hop, hread f hbound.1]
  exact hchain f m hbound.2 (by omega)

theorem negation_passes (next : Nat → Reader) {ts : List Token} (h : 4 ≤ front ts) :
    negation next ts = next 4 ts := by
  unfold negation
  split
  · rfl
  · next us hus =>
    have hthree : front (.key .not :: us) = 3 := by
      cases us with
      | nil => rfl
      | cons t ts =>
        cases t with
        | key w =>
          cases w with
          | exists_ => exact absurd rfl (hus ts)
          | _ => rfl
        | _ => rfl
    omega
  · rfl

theorem predicate_passes (next : Nat → Reader) {ts : List Token} (h : 5 ≤ front ts) :
    predicate next ts = (next 5 ts).bind fun p => predicateTail next p.1 p.2 := by
  unfold predicate
  split
  · simp [front] at h
  · simp [front] at h
  · rfl

theorem signed_passes (next : Nat → Reader) {ts : List Token} (h : 8 ≤ front ts) :
    signed next ts = next 8 ts := by
  unfold signed
  split
  · simp [front] at h
  · rfl

theorem predicateTail_stops (next : Nat → Reader) (t : Tree) {ts : List Token}
    (h : tightness ts < 4) : predicateTail next t ts = some (t, ts) := by
  unfold predicateTail
  split
  · simp [tightness] at h
  · simp [tightness] at h
  · simp [tightness] at h
  · simp [tightness] at h
  · split
    · next op us hi =>
      have hp := precedence_of_infix? hi
      exact if_neg (by unfold predicatePrecedence; omega)
    · rfl

/-- What stands alone at a level stands alone at every looser one. -/
theorem reads_climb {m n : Nat} {ts rest : List Token} {t : Tree} (h : Reads m ts t rest)
    (hpos : 1 ≤ n) (hnm : n ≤ m) (hm : m ≤ 8) (hfront : m ≤ front ts) (hrest : tightness rest < n) :
    Reads n ts t rest := by
  obtain ⟨k, hk⟩ : ∃ k, m = n + k := ⟨m - n, by omega⟩
  induction k generalizing n with
  | zero =>
    have : n = m := by omega
    exact this ▸ h
  | succ k ih =>
    have hup : Reads (n + 1) ts t rest := ih (by omega) (by omega) (by omega) (by omega)
    by_cases hchained : IsChained n
    · exact reads_chain hchained hup (chains_stop t hrest)
    -- the other levels look at the first token before they look at the one that follows
    · have hn : n = 3 ∨ n = 4 ∨ n = 7 := by
        unfold IsChained at hchained
        omega
      refine ⟨hup.1, fun f hf => ?_⟩
      have hbound : enough (n + 1) ts + 1 ≤ f := by
        unfold enough at *
        omega
      obtain ⟨g, rfl⟩ : ∃ g, f = g + 1 := ⟨f - 1, by omega⟩
      have hread := hup.2 g (by omega)
      rcases hn with rfl | rfl | rfl
      · rw [level, negation_passes _ (by omega), hread]
      · rw [level, predicate_passes _ (by omega), hread]
        exact predicateTail_stops _ t hrest
      · rw [level, signed_passes _ (by omega), hread]

/-- An expression in parentheses. -/
theorem reads_enclosed {ts : List Token} {t : Tree} (hq : Quiet ts) (h : Reads 1 ts t [])
    (rest : List Token) : Reads 8 (.opening :: ts ++ .closing :: rest) t rest := by
  have hlen : (Token.opening :: ts ++ .closing :: rest).length = ts.length + rest.length + 2 := by
    simp only [List.cons_append, List.length_cons, List.length_append]
    omega
  refine ⟨by omega, fun f hf => ?_⟩
  have hbound : enough 1 ts + 1 ≤ f := by
    unfold enough at *
    omega
  obtain ⟨g, rfl⟩ : ∃ g, f = g + 1 := ⟨f - 1, by omega⟩
  have hwhole : whole (level g) ts = some t := by
    rw [whole, h.2 g (by omega)]
  change bracketed (level g) (ts ++ .closing :: rest) = _
  rw [bracketed, close_closing hq.1, Option.bind_some, hq.2, hwhole]
  rfl

/-- A query in brackets. -/
theorem reads_query {inside : List Token} (h : Paired inside) (h' : announces 0 inside = true)
    (rest : List Token) :
    Reads 8 (.opening :: inside ++ .closing :: rest) (.query inside) rest := by
  have hlen : (Token.opening :: inside ++ .closing :: rest).length =
      inside.length + rest.length + 2 := by
    simp only [List.cons_append, List.length_cons, List.length_append]
    omega
  refine ⟨by omega, fun f hf => ?_⟩
  obtain ⟨g, rfl⟩ : ∃ g, f = g + 1 := ⟨f - 1, by unfold enough at hf; omega⟩
  change bracketed (level g) (inside ++ .closing :: rest) = _
  rw [bracketed, close_closing h, Option.bind_some, h']
  rfl

theorem reads_not {ts rest : List Token} {t : Tree} (h : Reads 3 ts t rest) (hfront : 5 ≤ front ts) :
    Reads 3 (.key .not :: ts) (.unary .not t) rest := by
  refine ⟨Nat.le_succ_of_le h.1, fun f hf => ?_⟩
  have hbound : enough 3 ts + 1 ≤ f := by
    unfold enough at *
    rw [List.length_cons] at hf
    omega
  obtain ⟨g, rfl⟩ : ∃ g, f = g + 1 := ⟨f - 1, by omega⟩
  have hstep : level (g + 1) 3 (.key .not :: ts) =
      (level g 3 ts).map fun p => (.unary .not p.1, p.2) := by
    rw [level]
    unfold negation
    split
    · next heq => cases heq; simp [front] at hfront
    · next heq => cases heq; rfl
    · next hne => exact absurd rfl (hne ts)
  rw [hstep, h.2 g (by omega)]
  rfl

theorem reads_neg {ts rest : List Token} {t : Tree} (h : Reads 7 ts t rest) :
    Reads 7 (.mark "-" :: ts) (.unary .neg t) rest := by
  refine ⟨Nat.le_succ_of_le h.1, fun f hf => ?_⟩
  have hbound : enough 7 ts + 1 ≤ f := by
    unfold enough at *
    rw [List.length_cons] at hf
    omega
  obtain ⟨g, rfl⟩ : ∃ g, f = g + 1 := ⟨f - 1, by omega⟩
  change (level g 7 ts).map (fun p => (Tree.unary .neg p.1, p.2)) = _
  rw [h.2 g (by omega)]
  rfl

theorem reads_exists {ts rest : List Token} {t : Tree} (h : Reads 8 ts t rest) :
    Reads 4 (.key .exists_ :: ts) (.unary .exists_ t) rest ∧
      Reads 4 (.key .not :: .key .exists_ :: ts) (.unary .notExists t) rest := by
  have hbound (k f : Nat) (hf : 10 * (ts.length + k) + (9 - 4) ≤ f) (hk : 0 < k) :
      enough 8 ts + 1 ≤ f := by
    unfold enough
    omega
  refine ⟨⟨Nat.le_succ_of_le h.1, fun f hf => ?_⟩, Nat.le_succ_of_le (Nat.le_succ_of_le h.1),
    fun f hf => ?_⟩
  · have hle := hbound 1 f hf Nat.one_pos
    obtain ⟨g, rfl⟩ : ∃ g, f = g + 1 := ⟨f - 1, by omega⟩
    change (level g 8 ts).map (fun p => (Tree.unary .exists_ p.1, p.2)) = _
    rw [h.2 g (by omega)]
    rfl
  · have hle := hbound 2 f hf Nat.two_pos
    obtain ⟨g, rfl⟩ : ∃ g, f = g + 1 := ⟨f - 1, by omega⟩
    change (level g 8 ts).map (fun p => (Tree.unary .notExists p.1, p.2)) = _
    rw [h.2 g (by omega)]
    rfl

/-- A predicate begins with an operand, and what follows says what it is. -/
theorem reads_predicate {ts us rest : List Token} {t u : Tree} (h : Reads 5 ts t us)
    (hfront : 5 ≤ front ts) (hlen : rest.length ≤ us.length)
    (htail : ∀ f, enough 5 us ≤ f → predicateTail (level f) t us = some (u, rest)) :
    Reads 4 ts u rest := by
  refine ⟨Nat.le_trans hlen h.1, fun f hf => ?_⟩
  have hbound : enough 5 ts + 1 ≤ f ∧ enough 5 us + 1 ≤ f := by
    have hus := h.1
    unfold enough at *
    omega
  obtain ⟨g, rfl⟩ : ∃ g, f = g + 1 := ⟨f - 1, by omega⟩
  rw [level, predicate_passes _ hfront, h.2 g (by omega)]
  exact htail g (by omega)

/-- A comparison takes the operand behind it. -/
theorem comparison_tail {op : BinaryOp} {us rest : List Token} (t : Tree) {u : Tree}
    (hop : op.precedence = 4) (h : Reads 5 us u rest) (f : Nat)
    (hf : enough 5 (op.tokens ++ us) ≤ f) :
    predicateTail (level f) t (op.tokens ++ us) = some (.binary op t u, rest) := by
  have hbound : enough 5 us ≤ f := by
    have happend : (op.tokens ++ us).length = op.tokens.length + us.length := List.length_append
    unfold enough at *
    omega
  have hread := h.2 f hbound
  cases op <;> cases hop
  all_goals
    change (level f 5 us).map (fun p => (Tree.binary _ t p.1, p.2)) = _
    rw [hread]
    rfl

/-- The grammar reads the tokens of a tree at every level that the tree may stand at. -/
def Stands (d : Dialect) (t : Tree) : Prop :=
  ∀ n rest, 1 ≤ n → n ≤ t.level → tightness rest < n →
    Reads n (t.tokens d ++ rest) t.reading rest

theorem path_tokens (d : Dialect) {parts : List (Option String)} (h : parts ≠ [])
    {rest : List Token} (hrest : tightness rest < 9) :
    path (Tree.pathTokens d parts ++ rest) = some (parts, rest) := by
  have hpart (p : Option String) : part? (Tree.partToken d p) = some p := by
    cases p with
    | none => rfl
    | some s => rw [Tree.partToken]; split <;> rfl
  induction parts with
  | nil => exact absurd rfl h
  | cons p ps ih =>
    cases ps with
    | nil =>
      -- a part that is not followed by a point ends the path
      have hlast : path (Tree.partToken d p :: rest) =
          (part? (Tree.partToken d p)).map fun p => ([p], rest) := by
        cases rest with
        | nil => rfl
        | cons t ts =>
          cases t with
          | dot => exact absurd hrest (Nat.lt_irrefl 9)
          | _ => rfl
      rw [Tree.pathTokens, List.singleton_append, hlast, hpart]
      rfl
    | cons q ps =>
      have hmore := ih (List.cons_ne_nil _ _)
      change (part? (Tree.partToken d p)).bind (fun p =>
        (path (Tree.pathTokens d (q :: ps) ++ rest)).map fun ps => (p :: ps.1, ps.2)) = _
      rw [hpart, hmore]
      rfl

theorem reads_path (d : Dialect) {parts : List (Option String)} (h : parts ≠ [])
    {rest : List Token} (hrest : tightness rest < 9) :
    Reads 8 (Tree.pathTokens d parts ++ rest) (.path parts) rest := by
  refine ⟨by rw [List.length_append]; omega, fun f hf => ?_⟩
  obtain ⟨g, rfl⟩ : ∃ g, f = g + 1 := ⟨f - 1, by unfold enough at hf; omega⟩
  have hoperand (next : Nat → Reader) : operand next (Tree.pathTokens d parts ++ rest) =
      (path (Tree.pathTokens d parts ++ rest)).map fun p => (.path p.1, p.2) := by
    -- a word is a path unless a bracket follows, which would make it a call
    have hname (s : String) (ts : List Token) (hts : ∀ us, ts ≠ .opening :: us) :
        operand next (.word s :: ts) =
          (path (.word s :: ts)).map fun p => (.path p.1, p.2) := by
      cases ts with
      | nil => rfl
      | cons t ts =>
        cases t with
        | opening => exact absurd rfl (hts ts)
        | _ => rfl
    have hcases (p : Option String) (ts : List Token) (hts : ∀ us, ts ≠ .opening :: us) :
        operand next (Tree.partToken d p :: ts) =
          (path (Tree.partToken d p :: ts)).map fun p => (.path p.1, p.2) := by
      cases p with
      | none => rfl
      | some s =>
        rw [Tree.partToken]
        split
        · rfl
        · exact hname s ts hts
    match parts with
    | [] => exact absurd rfl h
    | [p] =>
      refine hcases p rest fun us hus => ?_
      rw [hus] at hrest
      exact absurd hrest (Nat.lt_irrefl 9)
    | p :: q :: ps => exact hcases p _ fun us hus => by cases hus
  change operand (level g) _ = _
  rw [hoperand, path_tokens d h hrest]
  rfl

theorem length_tokens (d : Dialect) {t : Tree} (h : t.Legible) : 0 < (t.tokens d).length := by
  match t, h with
  | .path [], h => exact absurd rfl h
  | .path [p], _ => exact Nat.one_pos
  | .path (p :: q :: ps), _ => exact Nat.succ_pos _
  | .hole, _ => exact Nat.one_pos
  | .query inside, _ => exact Nat.succ_pos _
  | .unary .not t, _ => exact Nat.succ_pos _
  | .unary .neg t, _ => exact Nat.succ_pos _
  | .unary .isNull t, _ => simp [Tree.tokens]
  | .unary .isNotNull t, _ => simp [Tree.tokens]
  | .unary .exists_ t, _ => exact Nat.succ_pos _
  | .unary .notExists t, _ => exact Nat.succ_pos _
  | .binary op l r, _ =>
    have hop := length_operator op
    simp only [Tree.tokens, List.length_append]
    omega
  | .inList t values negated, _ =>
    simp only [Tree.tokens, List.length_append, List.length_singleton]
    omega
  | .inQuery t inside negated, _ =>
    simp only [Tree.tokens, List.length_append, List.length_singleton]
    omega
  | .call name arguments distinct, _ => exact Nat.succ_pos _
  | .cases parts, _ => exact Nat.succ_pos _

section
variable {d : Dialect} {ts : List Tree}

theorem behindCommas_tokens (h : ∀ t ∈ ts, Stands d t) (hlevel : ∀ t ∈ ts, 1 ≤ t.level) {f m : Nat}
    (hf : 10 * (Tree.commaTokens d ts).length + 8 ≤ f)
    (hm : (Tree.commaTokens d ts).length ≤ m) :
    behindCommas (level f) m (Tree.commaTokens d ts) = some (Tree.readings ts) := by
  induction ts generalizing m with
  | nil => cases m <;> rfl
  | cons t ts ih =>
    obtain ⟨ht, hts⟩ := List.forall_mem_cons.1 h
    obtain ⟨hone, hlevels⟩ := List.forall_mem_cons.1 hlevel
    have hlen : (Tree.commaTokens d (t :: ts)).length =
        (t.tokens d ++ Tree.commaTokens d ts).length + 1 := by simp [Tree.commaTokens]
    have hsum : (t.tokens d ++ Tree.commaTokens d ts).length =
        (t.tokens d).length + (Tree.commaTokens d ts).length := List.length_append
    have hzero : tightness (Tree.commaTokens d ts) < 1 := by cases ts <;> exact Nat.one_pos
    obtain ⟨k, rfl⟩ : ∃ k, m = k + 1 := ⟨m - 1, by omega⟩
    have hread := (ht 1 _ (Nat.le_refl 1) hone hzero).2 f (by unfold enough; omega)
    have hrest := ih hts hlevels (m := k) (by omega) (by omega)
    change (level f 1 (t.tokens d ++ Tree.commaTokens d ts)).bind (fun p =>
      (behindCommas (level f) k p.2).map fun us => p.1 :: us) = _
    rw [hread, Option.bind_some, hrest]
    rfl

theorem list_tokens (h : ∀ t ∈ ts, Stands d t) (hlevel : ∀ t ∈ ts, 1 ≤ t.level)
    (hlegible : Tree.AllLegible ts) {f : Nat} (hf : 10 * (Tree.listTokens d ts).length + 8 ≤ f) :
    list (level f) (Tree.listTokens d ts) = some (Tree.readings ts) := by
  cases ts with
  | nil => rfl
  | cons t ts =>
    obtain ⟨ht, hts⟩ := List.forall_mem_cons.1 h
    obtain ⟨hone, hlevels⟩ := List.forall_mem_cons.1 hlevel
    have hlen : (Tree.listTokens d (t :: ts)).length =
        (t.tokens d).length + (Tree.commaTokens d ts).length := List.length_append
    have hpos := length_tokens d hlegible.1
    have hempty : (Tree.listTokens d (t :: ts)).isEmpty = false := by
      cases heq : Tree.listTokens d (t :: ts) with
      | nil => rw [heq, List.length_nil] at hlen; omega
      | cons _ _ => rfl
    -- a comma binds nothing, so the first item ends there
    have hzero : tightness (Tree.commaTokens d ts) < 1 := by cases ts <;> exact Nat.one_pos
    have hread := (ht 1 _ (Nat.le_refl 1) hone hzero).2 f
      (by unfold enough; rw [List.length_append]; omega)
    have hrest := behindCommas_tokens hts hlevels (f := f) (by omega) (Nat.le_refl _)
    have htokens : Tree.listTokens d (t :: ts) = t.tokens d ++ Tree.commaTokens d ts := rfl
    rw [list, hempty, htokens, hread]
    change (behindCommas (level f) _ (Tree.commaTokens d ts)).map _ = _
    rw [hrest]
    rfl

/-- A call with its arguments between brackets. -/
theorem reads_call (name : String) (distinct : Bool) (h : ∀ t ∈ ts, Stands d t)
    (hlevel : ∀ t ∈ ts, 1 ≤ t.level) (hlegible : Tree.AllLegible ts)
    (hfront : 1 ≤ front (Tree.listTokens d ts)) (rest : List Token) :
    Reads 8 (.word name :: .opening :: (if distinct then [.key .distinct] else []) ++
      Tree.listTokens d ts ++ .closing :: rest) (.call name (Tree.readings ts) distinct) rest := by
  have hquiet := quiet_listTokens d ts hlegible
  have hlen : (Tree.listTokens d ts).length + rest.length + 3 ≤
      (Token.word name :: .opening :: (if distinct then [.key .distinct] else []) ++
        Tree.listTokens d ts ++ .closing :: rest).length := by
    simp only [List.cons_append, List.length_cons, List.length_append]
    omega
  refine ⟨by omega, fun f hf => ?_⟩
  have hbound : 10 * (Tree.listTokens d ts).length + 8 + 1 ≤ f := by
    unfold enough at hf
    omega
  obtain ⟨g, rfl⟩ : ∃ g, f = g + 1 := ⟨f - 1, by omega⟩
  have hlist := list_tokens h hlevel hlegible (f := g) (by omega)
  cases distinct with
  -- the word is taken off before the list is read
  | true =>
    have hclose : close 0 (.key .distinct :: Tree.listTokens d ts ++ .closing :: rest) =
        some (.key .distinct :: Tree.listTokens d ts, rest) :=
      close_closing (.plain rfl hquiet.1) rest
    change arguments (level g) name (.key .distinct :: Tree.listTokens d ts ++ _) = _
    rw [arguments, hclose, Option.bind_some]
    change (list (level g) (Tree.listTokens d ts)).map _ = _
    rw [hlist]
    rfl
  | false =>
    have hclose := close_closing hquiet.1 rest
    change arguments (level g) name (Tree.listTokens d ts ++ _) = _
    rw [arguments, hclose, Option.bind_some]
    dsimp only
    split
    -- without the word the list begins with an operand, so it is not taken for one
    · next heq => rw [heq] at hfront; exact absurd hfront (by simp [front])
    · rw [hlist]
      rfl

/-- What is tested stands before `IN`, a query or a list behind it. -/
theorem membership_tail (t : Tree) (negated : Bool) {inside : List Token} (h : Paired inside)
    (rest : List Token) (f : Nat) :
    predicateTail (level f) t (Tree.membershipTokens negated ++ inside ++ .closing :: rest) =
      if announces 0 inside then some (.inQuery t inside negated, rest)
      else (list (level f) inside).map fun us => (.inList t us negated, rest) := by
  have hclose := close_closing h rest
  have hmember : membership (level f) t negated (inside ++ .closing :: rest) =
      if announces 0 inside then some (.inQuery t inside negated, rest)
      else (list (level f) inside).map fun us => (.inList t us negated, rest) := by
    rw [membership, hclose]
    rfl
  cases negated with
  | false => exact hmember
  | true => exact hmember

section
variable {f m : Nat} {t u : Tree} {ts us vs rest : List Token} {ws : List Tree}

theorem caseParts_else (h : level f 1 ts = some (t, .key .end_ :: rest)) :
    caseParts (level f) m (.key .else_ :: ts) = some ([t], rest) := by
  cases m <;> rw [caseParts, h]

theorem caseParts_when (ht : level f 1 ts = some (t, .key .then_ :: us))
    (hu : level f 1 us = some (u, vs)) (hrest : caseParts (level f) m vs = some (ws, rest)) :
    caseParts (level f) (m + 1) (.key .when_ :: ts) = some (t :: u :: ws, rest) := by
  rw [caseParts, ht]
  dsimp only
  rw [hu, Option.bind_some, hrest]
  rfl

end

/-- The parts of a case distinction, read one after another. -/
theorem caseParts_tokens (ts : List Tree) (h : ∀ t ∈ ts, Stands d t)
    (hlevel : ∀ t ∈ ts, 1 ≤ t.level) (rest : List Token) {f m : Nat}
    (hf : 10 * (Tree.caseTokens d ts ++ .key .end_ :: rest).length ≤ f)
    (hm : (Tree.caseTokens d ts).length ≤ m) :
    caseParts (level f) m (Tree.caseTokens d ts ++ .key .end_ :: rest) =
      some (Tree.readings ts, rest) := by
  -- no part is left, or one that stands behind ELSE, or a condition and its result
  rcases ts with _ | ⟨t, _ | ⟨u, ts⟩⟩
  · cases m <;> rfl
  · have ht := h t (by simp)
    have hzero : tightness (.key .end_ :: rest) < 1 := Nat.one_pos
    have hread := (ht 1 _ (Nat.le_refl 1) (hlevel t (by simp)) hzero).2 f (by
      simp only [Tree.caseTokens, List.cons_append, List.length_cons] at hf
      unfold enough
      omega)
    exact caseParts_else hread
  · obtain ⟨ht, hmore⟩ := List.forall_mem_cons.1 h
    obtain ⟨hu, hts⟩ := List.forall_mem_cons.1 hmore
    obtain ⟨hone, hlevels⟩ := List.forall_mem_cons.1 hlevel
    obtain ⟨hone', hlevels'⟩ := List.forall_mem_cons.1 hlevels
    have hzero : tightness (Tree.caseTokens d ts ++ .key .end_ :: rest) < 1 := by
      rcases ts with _ | ⟨_, _ | ⟨_, _⟩⟩ <;> exact Nat.one_pos
    let behind := Tree.caseTokens d ts ++ .key .end_ :: rest
    have htokens : Tree.caseTokens d (t :: u :: ts) ++ .key .end_ :: rest =
        .key .when_ :: (t.tokens d ++ .key .then_ :: (u.tokens d ++ behind)) := by
      simp [Tree.caseTokens, behind]
    have hlen : (Tree.caseTokens d (t :: u :: ts) ++ .key .end_ :: rest).length =
        (t.tokens d).length + (u.tokens d).length + behind.length + 2 := by
      rw [htokens]
      simp only [List.length_cons, List.length_append]
      omega
    have hread := (ht 1 (.key .then_ :: (u.tokens d ++ behind)) (Nat.le_refl 1) hone
      Nat.one_pos).2 f (by
        unfold enough
        simp only [List.length_append, List.length_cons]
        omega)
    have hread' := (hu 1 behind (Nat.le_refl 1) hone' hzero).2 f (by
      unfold enough
      simp only [List.length_append]
      omega)
    obtain ⟨k, rfl⟩ : ∃ k, m = k + 1 := ⟨m - 1, by
      simp only [Tree.caseTokens, List.cons_append, List.length_cons] at hm
      omega⟩
    have hbehind : 10 * behind.length ≤ f := by omega
    have hrest := caseParts_tokens ts hts hlevels' rest (f := f) (m := k) hbehind (by
      simp only [Tree.caseTokens, List.cons_append, List.length_cons, List.length_append] at hm
      omega)
    rw [htokens]
    exact caseParts_when hread hread' hrest

theorem reads_cases (h : ∀ t ∈ ts, Stands d t) (hlevel : ∀ t ∈ ts, 1 ≤ t.level)
    (rest : List Token) :
    Reads 8 (.key .case_ :: (Tree.caseTokens d ts ++ .key .end_ :: rest))
      (.cases (Tree.readings ts)) rest := by
  have hlen : (Token.key .case_ :: (Tree.caseTokens d ts ++ .key .end_ :: rest)).length =
      (Tree.caseTokens d ts).length + rest.length + 2 := by
    simp only [List.length_cons, List.length_append]
    omega
  have hlen' : (Tree.caseTokens d ts ++ .key .end_ :: rest).length =
      (Tree.caseTokens d ts).length + rest.length + 1 := by
    simp only [List.length_cons, List.length_append]
    omega
  refine ⟨by omega, fun f hf => ?_⟩
  obtain ⟨g, rfl⟩ : ∃ g, f = g + 1 := ⟨f - 1, by unfold enough at hf; omega⟩
  have hparts := caseParts_tokens ts h hlevel rest (f := g)
    (m := (Tree.caseTokens d ts ++ .key .end_ :: rest).length)
    (by unfold enough at hf; omega) (by omega)
  change (caseParts (level g) _ (Tree.caseTokens d ts ++ .key .end_ :: rest)).map _ = _
  rw [hparts]
  rfl

end

theorem precedence_cases (op : BinaryOp) :
    op.precedence = 1 ∨ op.precedence = 2 ∨ op.precedence = 4 ∨ op.precedence = 5 ∨
      op.precedence = 6 := by cases op <;> decide

theorem level_bounds (t : Tree) : 1 ≤ t.level ∧ t.level ≤ 8 ∧ min t.precedence 7 ≤ t.level := by
  have hp : 1 ≤ t.precedence ∧ (t.precedence ≤ 6 ∨ t.precedence = 10) := by
    unfold Tree.precedence
    split
    · next op _ _ =>
      have hop := precedence_cases op
      omega
    all_goals decide
  unfold Tree.level atomicPrecedence
  split
  · omega
  · split <;> omega

theorem level_binary (op : BinaryOp) (l r : Tree) : (Tree.binary op l r).level = op.precedence := by
  cases op <;> rfl

/-- What is no binary operator is a negation, a predicate or an operand. -/
theorem plain_precedence {t : Tree} (h : ∀ op l r, t ≠ .binary op l r) :
    t.precedence = 3 ∨ t.precedence = 4 ∨ t.precedence = 10 := by
  unfold Tree.precedence
  split
  · exact absurd rfl (h _ _ _)
  all_goals decide

/-- What a predicate leaves without parentheses is an operand or its sign. -/
theorem level_of_isCompound {t : Tree} (h : t.isCompound = false) : 7 ≤ t.level := by
  have hp : t.precedence = atomicPrecedence := by simpa [Tree.isCompound] using h
  have hlevel := level_bounds t
  unfold atomicPrecedence at hp
  omega

/-- Without parentheses an operand binds tighter than its operator, or continues the row. -/
theorem level_of_needsParens {op : BinaryOp} {side : Side} {t : Tree}
    (h : t.needsParens op side = false) :
    op.precedence < t.level ∨ t.continues op side = true := by
  have hop := precedence_cases op
  have hlevel := level_bounds t
  -- only an operator beside another one of its precedence may go on with it
  by_cases hbinary : ∃ o l r, t = .binary o l r
  · obtain ⟨o, l, r, rfl⟩ := hbinary
    have hb : op.needsParens o side = false := h
    rw [level_binary, Tree.continues, hb]
    have hnot : ¬ o.precedence < op.precedence := by
      intro hlt
      simp [BinaryOp.needsParens, hlt] at hb
    by_cases heq : o.precedence = op.precedence
    · exact .inr (by simp [heq])
    · exact .inl (by omega)
  · have hplain : t.needsParens op side = (decide (t.precedence < op.precedence) ||
        (t.precedence == op.precedence && t.precedence == predicatePrecedence)) := by
      unfold Tree.needsParens
      split
      · exact absurd ⟨_, _, _, rfl⟩ hbinary
      · rfl
    have hkinds := plain_precedence fun o l r ht => hbinary ⟨o, l, r, ht⟩
    rw [hplain] at h
    simp only [predicatePrecedence, Bool.or_eq_false_iff, decide_eq_false_iff_not,
      Bool.and_eq_false_imp, beq_iff_eq, beq_eq_false_iff_ne] at h
    refine .inl ?_
    omega

/-- Only rows are continued: a comparison is not. -/
theorem chained_of_continues {op : BinaryOp} {side : Side} {t : Tree}
    (h : t.continues op side = true) : IsChained op.precedence ∧ t.needsParens op side = false := by
  cases t with
  | binary o l r =>
    simp only [Tree.continues, Bool.and_eq_true, beq_iff_eq, Bool.not_eq_true'] at h
    obtain ⟨hp, hb⟩ := h
    refine ⟨?_, hb⟩
    unfold IsChained
    cases op <;> cases o <;> simp_all [BinaryOp.precedence, BinaryOp.needsParens,
      BinaryOp.isLogical, predicatePrecedence]
  | _ => cases h

theorem front_wrapped {n : Nat} {b : Bool} {ts rest : List Token}
    (h : b = false → n ≤ front (ts ++ rest)) (hn : n ≤ 8) :
    n ≤ front (Tree.wrapped b ts ++ rest) := by
  cases b with
  | false => exact h rfl
  | true => exact hn

theorem front_path (d : Dialect) {parts : List (Option String)} (h : parts ≠ [])
    (rest : List Token) : front (Tree.pathTokens d parts ++ rest) = 8 := by
  have hpart (p : Option String) (ts : List Token) : front (Tree.partToken d p :: ts) = 8 := by
    cases p with
    | none => rfl
    | some s => rw [Tree.partToken]; split <;> rfl
  match parts with
  | [] => exact absurd rfl h
  | [p] => exact hpart p rest
  | p :: q :: ps => exact hpart p _

/-- A tree can be read where its first token stands. -/
theorem front_tokens (d : Dialect) (t : Tree) (h : t.Legible) (rest : List Token) :
    t.level ≤ front (t.tokens d ++ rest) := by
  -- an operand that is put in brackets begins with one, which is above every level
  have hcompound (u : Tree) (hu : u.Legible) (us : List Token) (n : Nat) (hn : n ≤ 7)
      (hfront : u.level ≤ front (u.tokens d ++ us)) :
      n ≤ front (Tree.wrapped u.isCompound (u.tokens d) ++ us) := by
    refine front_wrapped (fun hb => ?_) (by omega)
    have hlevel := level_of_isCompound hb
    omega
  match t, h with
  | .path parts, h =>
    rw [Tree.tokens, front_path d h]
    exact (level_bounds _).2.1
  | .hole, _ => exact Nat.le_refl 8
  | .query inside, _ => exact Nat.le_refl 8
  | .unary .not t, h =>
    change 3 ≤ front (.key .not :: _)
    unfold front
    split <;> simp_all
  | .unary .neg t, h => exact Nat.le_refl 7
  | .unary .isNull t, h =>
    rw [Tree.tokens, List.append_assoc]
    exact hcompound t h _ 4 (by decide) (front_tokens d t h _)
  | .unary .isNotNull t, h =>
    rw [Tree.tokens, List.append_assoc]
    exact hcompound t h _ 4 (by decide) (front_tokens d t h _)
  | .unary .exists_ t, h => exact Nat.le_refl 4
  | .unary .notExists t, h => exact Nat.le_refl 4
  | .binary op l r, h =>
    rw [Tree.tokens, level_binary, List.append_assoc, List.append_assoc]
    have hop := precedence_cases op
    refine front_wrapped (fun hb => ?_) (by omega)
    have hfront := front_tokens d l h.1 (op.tokens ++
      (Tree.wrapped (r.needsParens op .right) (r.tokens d) ++ rest))
    have hle : op.precedence ≤ l.level := by
      rcases level_of_needsParens hb with hlt | hc
      · exact Nat.le_of_lt hlt
      · obtain ⟨o, x, y, rfl⟩ : ∃ o x y, l = .binary o x y := by
          cases l with
          | binary o x y => exact ⟨o, x, y, rfl⟩
          | _ => cases hc
        rw [level_binary]
        exact Nat.le_of_eq (Tree.precedence_of_continues hc).symm
    omega
  | .inList t values negated, h =>
    rw [Tree.tokens, List.append_assoc, List.append_assoc, List.append_assoc]
    exact hcompound t h.1 _ 4 (by decide) (front_tokens d t h.1 _)
  | .inQuery t inside negated, h =>
    rw [Tree.tokens, List.append_assoc, List.append_assoc, List.append_assoc]
    exact hcompound t h.1 _ 4 (by decide) (front_tokens d t h.1 _)
  | .call name arguments distinct, _ => exact Nat.le_refl 8
  | .cases parts, _ => exact Nat.le_refl 8

section
variable {d : Dialect}

/-- An operand, between parentheses or not. -/
theorem reads_wrapped {t : Tree} (h : t.Legible) (hs : Stands d t) {b : Bool} {n : Nat}
    {rest : List Token} (hb : b = false → n ≤ t.level) (hpos : 1 ≤ n) (hn : n ≤ 8)
    (hrest : tightness rest < n) :
    Reads n (Tree.wrapped b (t.tokens d) ++ rest) t.reading rest := by
  cases b with
  | false => exact hs n rest hpos (hb rfl) hrest
  | true =>
    have hinner := hs 1 [] (Nat.le_refl 1) (level_bounds t).1 Nat.one_pos
    rw [List.append_nil] at hinner
    have hread := reads_enclosed (quiet_tokens d t h) hinner rest
    have htokens : Tree.wrapped true (t.tokens d) ++ rest =
        .opening :: t.tokens d ++ .closing :: rest := by simp [Tree.wrapped]
    rw [htokens]
    exact reads_climb hread hpos hn (Nat.le_refl 8) (Nat.le_refl 8) hrest

/-- The operators at the top of a tree are read as a row: behind nothing, and behind a tree and
another operator of their level. -/
def StandsInRow (d : Dialect) (t : Tree) : Prop :=
  IsChained t.precedence → t.precedence = t.level → ∀ rest u us, tightness rest ≤ t.precedence →
    (Chains t.precedence t.reading rest u us →
      Reads t.precedence (t.tokens d ++ rest) u us) ∧
    ∀ acc o, o.precedence = t.precedence →
      Chains t.precedence (((o, t.row.first) :: t.row.rest).foldl Tree.Row.grow acc) rest u us →
        Chains t.precedence acc (o.tokens ++ (t.tokens d ++ rest)) u us

/-- An operand beside an operator of its row. -/
theorem row_operand {t : Tree} (h : t.Legible) (hs : Stands d t) (hr : StandsInRow d t)
    {op : BinaryOp} (side : Side) (hchained : IsChained op.precedence) (u : Tree)
    {rest : List Token} (us : List Token) (hrest : tightness rest ≤ op.precedence) :
    (Chains op.precedence t.reading rest u us →
      Reads op.precedence (Tree.wrapped (t.needsParens op side) (t.tokens d) ++ rest) u us) ∧
    ∀ acc o, o.precedence = op.precedence →
      Chains op.precedence
        (((o, (t.row.part (t.continues op side)).first) ::
          (t.row.part (t.continues op side)).rest).foldl Tree.Row.grow acc) rest u us →
        Chains op.precedence acc
          (o.tokens ++ (Tree.wrapped (t.needsParens op side) (t.tokens d) ++ rest)) u us := by
  have hop := precedence_cases op
  -- an operand that continues the row is read as part of it, and any other one as a whole
  cases hc : t.continues op side with
  | true =>
    have hparens := (chained_of_continues hc).2
    have hprecedence := Tree.precedence_of_continues hc
    have hlevel : t.precedence = t.level := by
      cases t with
      | binary o l r => exact (level_binary o l r).symm
      | _ => cases hc
    have hrow := hr (hprecedence ▸ hchained) hlevel rest u us (by omega)
    rw [hprecedence] at hrow
    rw [hparens]
    exact hrow
  | false =>
    have hread : Reads (op.precedence + 1)
        (Tree.wrapped (t.needsParens op side) (t.tokens d) ++ rest) t.reading rest := by
      refine reads_wrapped h hs (fun hb => ?_) (by omega) (by omega) (by omega)
      rcases level_of_needsParens hb with hlt | hcontinues
      · exact hlt
      · rw [hc] at hcontinues
        cases hcontinues
    refine ⟨fun hchain => reads_chain hchained hread hchain, fun acc o ho hchain => ?_⟩
    exact chains_step ho hread hchain

/-- A row is read by reading its left part, and then what the operator adds to it. -/
theorem row_binary {op : BinaryOp} {l r : Tree} (h : (Tree.binary op l r).Legible)
    (hl : Stands d l) (hl' : StandsInRow d l) (hr : Stands d r) (hr' : StandsInRow d r) :
    StandsInRow d (.binary op l r) := by
  intro hchained _ rest u us hrest
  have hchained : IsChained op.precedence := hchained
  have hrest : tightness rest ≤ op.precedence := hrest
  let right := Tree.wrapped (r.needsParens op .right) (r.tokens d) ++ rest
  have htokens : (Tree.binary op l r).tokens d ++ rest =
      Tree.wrapped (l.needsParens op .left) (l.tokens d) ++ (op.tokens ++ right) := by
    simp only [Tree.tokens, List.append_assoc, right]
  have htight : tightness (op.tokens ++ right) ≤ op.precedence :=
    Nat.le_of_eq (tightness_tokens op right)
  have hleft := row_operand h.1 hl hl' .left hchained u us htight
  have hright := (row_operand h.2 hr hr' .right hchained u us hrest).2
  rw [htokens]
  -- the left operand is read first, and the chain goes on with the right one
  constructor
  · intro hchain
    refine hleft.1 (hright l.reading op rfl ?_)
    rw [Tree.reading_binary] at hchain
    exact hchain
  · intro acc o ho hchain
    refine hleft.2 acc o ho (hright _ op rfl ?_)
    have hrow : ((o, (Tree.binary op l r).row.first) :: (Tree.binary op l r).row.rest) =
        ((o, (l.row.part (l.continues op .left)).first) ::
          (l.row.part (l.continues op .left)).rest) ++
        ((op, (r.row.part (r.continues op .right)).first) ::
          (r.row.part (r.continues op .right)).rest) := rfl
    rw [hrow, List.foldl_append] at hchain
    exact hchain

/-- A tree that is read at its own level is read at every looser one. -/
theorem stands_of_level {t : Tree} (h : t.Legible)
    (hown : ∀ rest, tightness rest < t.level →
      Reads t.level (t.tokens d ++ rest) t.reading rest) : Stands d t := by
  intro n rest hpos hn hrest
  have hread := hown rest (by omega)
  exact reads_climb hread hpos hn (level_bounds t).2.1 (front_tokens d t h rest) hrest

/-- The operand of a predicate stands before what makes it one. -/
theorem reads_tested {t : Tree} (h : t.Legible) (hs : Stands d t) {b : Bool}
    (hb : b = false → 5 ≤ t.level) {us rest : List Token} {u : Tree} (htight : tightness us ≤ 4)
    (hlen : rest.length ≤ us.length)
    (htail : ∀ f, enough 5 us ≤ f → predicateTail (level f) t.reading us = some (u, rest)) :
    Reads 4 (Tree.wrapped b (t.tokens d) ++ us) u rest := by
  have hread := reads_wrapped h hs hb (by decide) (by decide) (Nat.lt_succ_of_le htight)
  have hfront : 5 ≤ front (Tree.wrapped b (t.tokens d) ++ us) := by
    refine front_wrapped (fun hfalse => ?_) (by decide)
    exact Nat.le_trans (hb hfalse) (front_tokens d t h us)
  exact reads_predicate hread hfront hlen htail

theorem compound_level {t : Tree} (n : Nat) (hn : n ≤ 7) :
    t.isCompound = false → n ≤ t.level := fun h => Nat.le_trans hn (level_of_isCompound h)

/-- A comparison, and every other operator in its row. -/
theorem stands_binary {op : BinaryOp} {l r : Tree} (h : (Tree.binary op l r).Legible)
    (hl : Stands d l) (hl' : StandsInRow d l) (hr : Stands d r) (hr' : StandsInRow d r) :
    Stands d (.binary op l r) := by
  refine stands_of_level h fun rest hrest => ?_
  rw [level_binary] at hrest ⊢
  by_cases hchained : IsChained op.precedence
  · have hrow := row_binary h hl hl' hr hr' hchained (level_binary op l r).symm rest
      (Tree.binary op l r).reading rest (Nat.le_of_lt hrest)
    exact hrow.1 (chains_stop _ hrest)
  -- comparisons do not chain, so both operands are tighter ones
  · have hfour : op.precedence = 4 := by
      have hop := precedence_cases op
      unfold IsChained at hchained
      omega
    have hside (t : Tree) (side : Side) (hb : t.needsParens op side = false) : 5 ≤ t.level := by
      rcases level_of_needsParens hb with hlt | hc
      · omega
      · exact absurd (chained_of_continues hc).1 hchained
    rw [hfour] at hrest ⊢
    have hright := reads_wrapped h.2 hr (hside r .right) (by decide) (by decide)
      (Nat.lt_succ_of_lt hrest)
    have htight := tightness_tokens op (Tree.wrapped (r.needsParens op .right) (r.tokens d) ++ rest)
    have htail := comparison_tail l.reading hfour hright
    have hread := reads_tested h.1 hl (hside l .left) (Nat.le_of_eq (htight.trans hfour))
      (by simp only [List.length_append]; omega) htail
    have hreading : (Tree.binary op l r).reading = .binary op l.reading r.reading := by
      rw [Tree.reading_binary]
      cases hc : r.continues op .right with
      | false => rfl
      | true => exact absurd (chained_of_continues hc).1 hchained
    rw [hreading, Tree.tokens, List.append_assoc, List.append_assoc]
    exact hread

theorem stands_inList {t : Tree} {values : List Tree} {negated : Bool}
    (h : (Tree.inList t values negated).Legible) (ht : Stands d t)
    (hvalues : ∀ v ∈ values, Stands d v) : Stands d (.inList t values negated) := by
  refine stands_of_level h fun rest _ => ?_
  have hquiet := quiet_listTokens d values h.2.2
  let behind := Tree.membershipTokens negated ++ Tree.listTokens d values ++ .closing :: rest
  have hlen : (Tree.listTokens d values).length + rest.length + 3 ≤ behind.length := by
    simp only [behind, List.length_append, List.length_cons]
    cases negated <;> simp only [Tree.membershipTokens, if_true, Bool.false_eq_true, if_false,
      List.length_cons, List.length_nil] <;> omega
  have htight : tightness behind ≤ 4 := by cases negated <;> exact Nat.le_refl 4
  -- behind IN the reader takes what is in the brackets and reads it as a list
  have htail (f : Nat) (hf : enough 5 behind ≤ f) : predicateTail (level f) t.reading behind =
      some (.inList t.reading (Tree.readings values) negated, rest) := by
    have hbound : 10 * (Tree.listTokens d values).length + 8 ≤ f := by
      unfold enough at hf
      omega
    rw [membership_tail _ _ hquiet.1, hquiet.2,
      list_tokens hvalues (fun v _ => (level_bounds v).1) h.2.2 hbound]
    rfl
  have htokens : (Tree.inList t values negated).tokens d ++ rest =
      Tree.wrapped t.isCompound (t.tokens d) ++ behind := by simp [Tree.tokens, behind]
  rw [htokens]
  exact reads_tested h.1 ht (compound_level 5 (by decide)) htight (by omega) htail

theorem stands_inQuery {t : Tree} {inside : List Token} {negated : Bool}
    (h : (Tree.inQuery t inside negated).Legible) (ht : Stands d t) :
    Stands d (.inQuery t inside negated) := by
  refine stands_of_level h fun rest _ => ?_
  let behind := Tree.membershipTokens negated ++ inside ++ .closing :: rest
  have hlen : rest.length ≤ behind.length := by
    simp only [behind, List.length_append, List.length_cons]
    omega
  have htight : tightness behind ≤ 4 := by cases negated <;> exact Nat.le_refl 4
  have htail (f : Nat) (_ : enough 5 behind ≤ f) : predicateTail (level f) t.reading behind =
      some (.inQuery t.reading inside negated, rest) := by
    rw [membership_tail _ _ h.2.1, h.2.2]
    rfl
  have htokens : (Tree.inQuery t inside negated).tokens d ++ rest =
      Tree.wrapped t.isCompound (t.tokens d) ++ behind := by simp [Tree.tokens, behind]
  rw [htokens]
  exact reads_tested h.1 ht (compound_level 5 (by decide)) htight hlen htail

/-- A unary operator with its operand. -/
theorem stands_unary {op : UnaryOp} {t : Tree} (h : (Tree.unary op t).Legible) (ht : Stands d t) :
    Stands d (.unary op t) := by
  refine stands_of_level h fun rest hrest => ?_
  cases op with
  | not =>
    have h : t.Legible := h
    have hread := reads_wrapped h ht (compound_level 3 (by decide)) (by decide) (by decide) hrest
    -- NOT before EXISTS would be read as one test, but an operand never begins with that word
    refine reads_not hread (front_wrapped (fun hb => ?_) (by decide))
    exact Nat.le_trans (compound_level 5 (by decide) hb) (front_tokens d t h rest)
  | neg =>
    exact reads_neg (reads_wrapped h.2 ht (compound_level 7 (by decide)) (by decide) (by decide)
      hrest)
  | isNull =>
    have h : t.Legible := h
    have htight : tightness ([.key .is, .key .null] ++ rest) ≤ 4 := Nat.le_refl 4
    have hlen : rest.length ≤ (([.key .is, .key .null] : List Token) ++ rest).length := by
      rw [List.length_append]
      omega
    rw [Tree.tokens, List.append_assoc]
    exact reads_tested h ht (compound_level 5 (by decide)) htight hlen fun f _ => rfl
  | isNotNull =>
    have h : t.Legible := h
    have htight : tightness ([.key .is, .key .not, .key .null] ++ rest) ≤ 4 := Nat.le_refl 4
    have hlen : rest.length ≤ (([.key .is, .key .not, .key .null] : List Token) ++ rest).length := by
      rw [List.length_append]
      omega
    rw [Tree.tokens, List.append_assoc]
    exact reads_tested h ht (compound_level 5 (by decide)) htight hlen fun f _ => rfl
  | exists_ =>
    obtain ⟨⟨inside, rfl⟩, hq⟩ := h
    have hread := reads_query hq.1 hq.2 rest
    have htokens : (Tree.query inside).tokens d ++ rest =
        .opening :: inside ++ .closing :: rest := by simp [Tree.tokens]
    rw [← htokens] at hread
    exact (reads_exists hread).1
  | notExists =>
    obtain ⟨⟨inside, rfl⟩, hq⟩ := h
    have hread := reads_query hq.1 hq.2 rest
    have htokens : (Tree.query inside).tokens d ++ rest =
        .opening :: inside ++ .closing :: rest := by simp [Tree.tokens]
    rw [← htokens] at hread
    exact (reads_exists hread).2

theorem front_listTokens (ts : List Tree) (h : Tree.AllLegible ts) :
    1 ≤ front (Tree.listTokens d ts) := by
  match ts, h with
  | [], _ => exact Nat.le_add_left 1 7
  | t :: ts, h => exact Nat.le_trans (level_bounds t).1 (front_tokens d t h.1 _)

/-- Only binary operators stand in rows. -/
theorem standsInRow_plain {t : Tree} (h : ∀ op l r, t ≠ .binary op l r) : StandsInRow d t := by
  intro hchained
  have hp := plain_precedence h
  unfold IsChained at hchained
  omega

theorem legible_operand {op : UnaryOp} {t : Tree} (h : (Tree.unary op t).Legible) : t.Legible := by
  cases op with
  | neg => exact h.2
  | exists_ => exact h.2
  | notExists => exact h.2
  | _ => exact h

mutual

/-- The grammar reads the tokens of a tree, alone and in a row. -/
theorem stands_tokens (d : Dialect) (t : Tree) (h : t.Legible) : Stands d t ∧ StandsInRow d t := by
  match t, h with
  | .path parts, h =>
    refine ⟨stands_of_level h fun rest hrest => ?_, standsInRow_plain (by simp)⟩
    exact reads_path d h (Nat.lt_succ_of_lt hrest)
  | .hole, h =>
    refine ⟨stands_of_level h fun rest _ => ⟨Nat.le_succ _, fun f hf => ?_⟩,
      standsInRow_plain (by simp)⟩
    -- one step of fuel is enough for a token
    have hbound : 10 * ((Tree.hole.tokens d ++ rest).length) + (9 - 8) ≤ f := hf
    obtain ⟨g, rfl⟩ : ∃ g, f = g + 1 := ⟨f - 1, by omega⟩
    rfl
  | .query inside, h =>
    refine ⟨stands_of_level h fun rest _ => ?_, standsInRow_plain (by simp)⟩
    have htokens : (Tree.query inside).tokens d ++ rest =
        .opening :: inside ++ .closing :: rest := by simp [Tree.tokens]
    rw [htokens]
    exact reads_query h.1 h.2 rest
  | .unary op t, h =>
    exact ⟨stands_unary h (stands_tokens d t (legible_operand h)).1, standsInRow_plain (by simp)⟩
  | .binary op l r, h =>
    obtain ⟨hl, hl'⟩ := stands_tokens d l h.1
    obtain ⟨hr, hr'⟩ := stands_tokens d r h.2
    exact ⟨stands_binary h hl hl' hr hr', row_binary h hl hl' hr hr'⟩
  | .inList t values negated, h =>
    have hvalues := stands_all d values h.2.2
    exact ⟨stands_inList h (stands_tokens d t h.1).1 hvalues,
      standsInRow_plain (by simp)⟩
  | .inQuery t inside negated, h =>
    exact ⟨stands_inQuery h (stands_tokens d t h.1).1,
      standsInRow_plain (by simp)⟩
  | .call name arguments distinct, h =>
    have harguments := stands_all d arguments h
    refine ⟨stands_of_level h fun rest _ => ?_, standsInRow_plain (by simp)⟩
    have hread := reads_call name distinct harguments (fun u _ => (level_bounds u).1) h
      (front_listTokens arguments h) rest
    have htokens : (Tree.call name arguments distinct).tokens d ++ rest =
        .word name :: .opening :: (if distinct then [.key .distinct] else []) ++
          Tree.listTokens d arguments ++ .closing :: rest := by simp [Tree.tokens]
    rw [htokens]
    exact hread
  | .cases parts, h =>
    have hparts := stands_all d parts h
    refine ⟨stands_of_level h fun rest _ => ?_, standsInRow_plain (by simp)⟩
    have htokens : (Tree.cases parts).tokens d ++ rest =
        .key .case_ :: (Tree.caseTokens d parts ++ .key .end_ :: rest) := by simp [Tree.tokens]
    rw [htokens]
    exact reads_cases hparts (fun u _ => (level_bounds u).1) rest

theorem stands_all (d : Dialect) (ts : List Tree) (h : Tree.AllLegible ts) :
    ∀ t ∈ ts, Stands d t := by
  match ts, h with
  | [], _ => simp
  | t :: ts, h => exact List.forall_mem_cons.2 ⟨(stands_tokens d t h.1).1, stands_all d ts h.2⟩

end

end

/-- The tokens of a tree are read as the tree's reading. -/
theorem whole_tokens (d : Dialect) {t : Tree} (h : t.Legible) :
    whole (level (enough 1 (t.tokens d))) (t.tokens d) = some t.reading := by
  have hread := (stands_tokens d t h).1 1 [] (Nat.le_refl 1) (level_bounds t).1 Nat.one_pos
  rw [List.append_nil] at hread
  rw [whole, hread.2 _ (Nat.le_refl _)]

end Grammar

end PolyQuery
