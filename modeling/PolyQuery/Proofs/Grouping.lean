import PolyQuery.Proofs.Token

/-! Trees of operators, and what becomes of one when its text is read from left to right: operands
that stand without parentheses beside an operator of the same strength fall into one row, and the
row is read from the left. Main statement: `regrouped_iff`, which says when only the grouping of
associative operators is lost on the way. -/
namespace PolyQuery

/-- What an expression says. Of a query only its tokens are kept, of a value only its place. The
parts of a case distinction are conditions and results in turn, and perhaps a last result. -/
inductive Tree where
  | path (parts : List (Option String))
  | hole
  | query (inside : List Token)
  | unary (op : UnaryOp) (operand : Tree)
  | binary (op : BinaryOp) (left right : Tree)
  | inList (operand : Tree) (values : List Tree) (negated : Bool)
  | inQuery (operand : Tree) (inside : List Token) (negated : Bool)
  | call (name : String) (arguments : List Tree) (distinct : Bool)
  | cases (parts : List Tree)

namespace Tree

/-- The binding strength of a tree as a whole. -/
def precedence : Tree → Nat
  | binary op _ _ => op.precedence
  | unary .not _ => negationPrecedence
  | unary .neg _ => atomicPrecedence
  | unary _ _ => predicatePrecedence
  | inList _ _ _ => predicatePrecedence
  | inQuery _ _ _ => predicatePrecedence
  | _ => atomicPrecedence

/-- Whether a tree needs parentheses as an operand. -/
def needsParens (parent : BinaryOp) (side : Side) : Tree → Bool
  | binary op _ _ => parent.needsParens op side
  | t => t.precedence < parent.precedence ||
      (t.precedence == parent.precedence && t.precedence == predicatePrecedence)

/-- Whether an operand stands without parentheses beside an operator of its own strength. -/
def continues (parent : BinaryOp) (side : Side) : Tree → Bool
  | binary op _ _ => op.precedence == parent.precedence && !parent.needsParens op side
  | _ => false

/-- A tree with the operators and operands that follow it at one strength. -/
structure Row where
  first : Tree
  rest : List (BinaryOp × Tree)

namespace Row

/-- One operand more on the right. -/
def grow (t : Tree) (next : BinaryOp × Tree) : Tree := .binary next.1 t next.2

/-- The row read from the left. -/
def tree (r : Row) : Tree := r.rest.foldl grow r.first

/-- Two rows with an operator between them. -/
def join (l : Row) (op : BinaryOp) (r : Row) : Row := ⟨l.first, l.rest ++ (op, r.first) :: r.rest⟩

/-- A row, or all of it as one operand. -/
def part (r : Row) (continued : Bool) : Row := if continued then r else ⟨r.tree, []⟩

theorem tree_join (l : Row) (op : BinaryOp) (r : Row) :
    (l.join op r).tree = ((op, r.first) :: r.rest).foldl grow l.tree := List.foldl_append

theorem tree_part (r : Row) (continued : Bool) : (r.part continued).tree = r.tree := by
  cases continued <;> rfl

end Row

mutual

/-- The row that a tree's text is read as. -/
def row : Tree → Row
  | path parts => ⟨path parts, []⟩
  | hole => ⟨hole, []⟩
  | query inside => ⟨query inside, []⟩
  | unary op t => ⟨unary op t.row.tree, []⟩
  | binary op l r =>
    (l.row.part (l.continues op .left)).join op (r.row.part (r.continues op .right))
  | inList t values negated => ⟨inList t.row.tree (readings values) negated, []⟩
  | inQuery t inside negated => ⟨inQuery t.row.tree inside negated, []⟩
  | call name arguments distinct => ⟨call name (readings arguments) distinct, []⟩
  | cases parts => ⟨cases (readings parts), []⟩

/-- The trees that texts are read as. -/
def readings : List Tree → List Tree
  | [] => []
  | t :: ts => t.row.tree :: readings ts

end

/-- The tree that a tree's text is read as. -/
def reading (t : Tree) : Tree := t.row.tree

/-- The operators of the row that a tree's text begins with. -/
def operators : Tree → List BinaryOp
  | binary op l r => (if l.continues op .left then l.operators else []) ++
      op :: (if r.continues op .right then r.operators else [])
  | _ => []

mutual

/-- Nowhere does an associative operator have a right operand without parentheses in whose row
another operator stands. -/
def isGrouped : Tree → Bool
  | path _ => true
  | hole => true
  | query _ => true
  | unary _ t => t.isGrouped
  | binary op l r =>
    l.isGrouped && r.isGrouped && (!r.continues op .right || r.operators.all (· == op))
  | inList t values _ => t.isGrouped && areGrouped values
  | inQuery t _ _ => t.isGrouped
  | call _ arguments _ => areGrouped arguments
  | cases parts => areGrouped parts

/-- All of them are. -/
def areGrouped : List Tree → Bool
  | [] => true
  | t :: ts => t.isGrouped && areGrouped ts

end

/-- The same tree but for the grouping of associative operators. -/
inductive Regrouped : Tree → Tree → Prop
  | refl (t : Tree) : Regrouped t t
  | symm {t u : Tree} (h : Regrouped t u) : Regrouped u t
  | trans {t u v : Tree} (h : Regrouped t u) (h' : Regrouped u v) : Regrouped t v
  | assoc {op : BinaryOp} (h : op.isAssociative = true) (a b c : Tree) :
    Regrouped (binary op (binary op a b) c) (binary op a (binary op b c))
  | unary {t u : Tree} (op : UnaryOp) (h : Regrouped t u) : Regrouped (unary op t) (unary op u)
  | binary {t t' u u' : Tree} (op : BinaryOp) (h : Regrouped t u) (h' : Regrouped t' u') :
    Regrouped (binary op t t') (binary op u u')
  | inList {t u : Tree} (h : Regrouped t u) (values : List Tree) (negated : Bool) :
    Regrouped (inList t values negated) (inList u values negated)
  | value {t u : Tree} (x : Tree) (before after : List Tree) (negated : Bool)
    (h : Regrouped t u) :
    Regrouped (inList x (before ++ t :: after) negated) (inList x (before ++ u :: after) negated)
  | inQuery {t u : Tree} (h : Regrouped t u) (inside : List Token) (negated : Bool) :
    Regrouped (inQuery t inside negated) (inQuery u inside negated)
  | argument {t u : Tree} (name : String) (before after : List Tree) (distinct : Bool)
    (h : Regrouped t u) :
    Regrouped (call name (before ++ t :: after) distinct) (call name (before ++ u :: after) distinct)
  | part {t u : Tree} (before after : List Tree) (h : Regrouped t u) :
    Regrouped (cases (before ++ t :: after)) (cases (before ++ u :: after))

end Tree

/-- An associative operator is the only one of its strength that is. -/
theorem BinaryOp.isAssociative_unique {op o : BinaryOp} (h : op.isAssociative = true)
    (hp : o.precedence = op.precedence) : o.isAssociative = true ↔ o = op := by
  revert hp
  cases op <;> cases h <;> cases o <;> decide

namespace Tree

/-- On the right only the same associative operator goes without parentheses. -/
theorem continues_right {op : BinaryOp} {t : Tree} (h : t.continues op .right = true) :
    op.isAssociative = true ∧ ∃ l r, t = .binary op l r := by
  cases t with
  | binary o l r =>
    simp only [continues, BinaryOp.needsParens, Bool.and_eq_true, beq_iff_eq] at h
    obtain ⟨hp, h⟩ := h
    cases op <;> cases o <;> simp_all [BinaryOp.precedence, BinaryOp.isLogical,
      BinaryOp.isAssociative, predicatePrecedence]
  | _ => cases h

/-- The row of a right operand is joined by an associative operator. -/
theorem regrouped_foldl {op : BinaryOp} (hop : op.isAssociative = true) (acc first : Tree)
    {rest : List (BinaryOp × Tree)} (h : ∀ p ∈ rest, p.1 = op) :
    Regrouped (((op, first) :: rest).foldl Row.grow acc)
      (binary op acc (rest.foldl Row.grow first)) := by
  induction rest generalizing acc first with
  | nil => exact .refl _
  | cons p rest ih =>
    obtain ⟨o, x⟩ := p
    obtain ⟨ho, hrest⟩ := List.forall_mem_cons.1 h
    subst ho
    -- the operands before `x` are grouped first, then `acc` is taken out of their group
    have hleft := ih (binary o acc first) x hrest
    have hassoc := Regrouped.assoc hop acc first (rest.foldl Row.grow x)
    have hright := Regrouped.binary o (.refl acc) (ih first x hrest).symm
    exact (hleft.trans hassoc).trans hright

/-- Trees that are regrouped one by one, in a place that takes regroupings. -/
theorem regrouped_list {g : List Tree → Tree}
    (hg : ∀ before after t u, Regrouped t u →
      Regrouped (g (before ++ t :: after)) (g (before ++ u :: after)))
    {ts : List Tree} (h : ∀ t ∈ ts, Regrouped t.reading t) :
    Regrouped (g (readings ts)) (g ts) := by
  have hbehind (before : List Tree) :
      Regrouped (g (before ++ readings ts)) (g (before ++ ts)) := by
    induction ts generalizing before with
    | nil => exact .refl _
    | cons t ts ih =>
      obtain ⟨ht, hts⟩ := List.forall_mem_cons.1 h
      have hrest := ih hts (before ++ [t])
      rw [List.append_assoc, List.append_assoc] at hrest
      exact (hg before (readings ts) t.reading t ht).trans hrest
  exact hbehind []

theorem fst_of_row (t : Tree) : t.row.rest.map Prod.fst = t.operators := by
  match t with
  | binary op l r =>
    have hl := fst_of_row l
    have hr := fst_of_row r
    rw [row, operators, Row.join, List.map_append, List.map_cons]
    cases l.continues op .left <;> cases r.continues op .right <;> simp [Row.part, hl, hr]
  | path _ => rfl
  | hole => rfl
  | query _ => rfl
  | unary _ _ => rfl
  | inList _ _ _ => rfl
  | inQuery _ _ _ => rfl
  | call _ _ _ => rfl
  | cases _ => rfl

/-- The reading of a binary node hangs the row of its right operand behind the left one. -/
theorem reading_binary (op : BinaryOp) (l r : Tree) :
    (binary op l r).reading =
      ((op, (r.row.part (r.continues op .right)).first) ::
        (r.row.part (r.continues op .right)).rest).foldl Row.grow l.reading := by
  rw [reading, row, Row.tree_join, Row.tree_part]
  rfl

mutual

/-- A grouped tree is read as itself, but for the grouping of associative operators. -/
theorem regrouped_reading (t : Tree) (h : t.isGrouped = true) : Regrouped t.reading t := by
  match t with
  | path _ => exact .refl _
  | hole => exact .refl _
  | query _ => exact .refl _
  | unary op t =>
    rw [isGrouped] at h
    exact .unary op (regrouped_reading t h)
  | binary op l r =>
    simp only [isGrouped, Bool.and_eq_true, Bool.or_eq_true, Bool.not_eq_true'] at h
    obtain ⟨⟨hl, hr⟩, hrow⟩ := h
    have hboth := Regrouped.binary op (regrouped_reading l hl) (regrouped_reading r hr)
    rw [reading_binary]
    cases hc : r.continues op .right with
    | false => exact hboth
    | true =>
      -- a row behind an operator that continues is of that operator alone, as the tree is grouped
      have hops : ∀ p ∈ r.row.rest, p.1 = op := by
        intro p hp
        rcases hrow with hrow | hrow
        · rw [hc] at hrow; cases hrow
        · have hmem : p.1 ∈ r.operators := by
            rw [← fst_of_row]
            exact List.mem_map_of_mem hp
          exact beq_iff_eq.1 (List.all_eq_true.1 hrow _ hmem)
      exact (regrouped_foldl (continues_right hc).1 l.reading r.row.first hops).trans hboth
  | inList t values negated =>
    simp only [isGrouped, Bool.and_eq_true] at h
    have hvalues := regrouped_list (g := fun vs => inList t.row.tree vs negated)
      (fun before after u v huv => .value _ before after negated huv) (regrouped_readings values h.2)
    exact hvalues.trans (.inList (regrouped_reading t h.1) values negated)
  | inQuery t inside negated =>
    rw [isGrouped] at h
    exact .inQuery (regrouped_reading t h) inside negated
  | call name arguments distinct =>
    rw [isGrouped] at h
    exact regrouped_list (g := fun vs => call name vs distinct)
      (fun before after u v huv => .argument name before after distinct huv)
      (regrouped_readings arguments h)
  | cases parts =>
    rw [isGrouped] at h
    exact regrouped_list (g := fun vs => cases vs)
      (fun before after u v huv => .part before after huv) (regrouped_readings parts h)

theorem regrouped_readings (ts : List Tree) (h : areGrouped ts = true) :
    ∀ t ∈ ts, Regrouped t.reading t := by
  match ts with
  | [] => simp
  | t :: ts =>
    rw [areGrouped, Bool.and_eq_true] at h
    exact List.forall_mem_cons.2 ⟨regrouped_reading t h.1, regrouped_readings ts h.2⟩

end

/-- The operands under the operators at the top of a tree. -/
def operands : Tree → Nat
  | binary _ l r => l.operands + r.operands
  | _ => 1

/-- The weight of an operator whose left operand has so many operands. -/
def leftWeight (op : BinaryOp) (n : Nat) : Nat := if op.isAssociative then 0 else n

mutual

/-- For every operator that is not associative, the operands on its left. Regrouping leaves the
weight alone, and an operator that takes over an operand from outside adds to it. -/
def weight : Tree → Nat
  | path _ => 0
  | hole => 0
  | query _ => 0
  | unary _ t => t.weight
  | binary op l r => l.weight + r.weight + leftWeight op l.operands
  | inList t values _ => t.weight + weights values
  | inQuery t _ _ => t.weight
  | call _ arguments _ => weights arguments
  | cases parts => weights parts

/-- The sum of weights. -/
def weights : List Tree → Nat
  | [] => 0
  | t :: ts => t.weight + weights ts

end

theorem operands_pos (t : Tree) : 0 < t.operands := by
  match t with
  | binary op l r =>
    have hl := operands_pos l
    rw [operands]
    omega
  | path _ => exact Nat.one_pos
  | hole => exact Nat.one_pos
  | query _ => exact Nat.one_pos
  | unary _ _ => exact Nat.one_pos
  | inList _ _ _ => exact Nat.one_pos
  | inQuery _ _ _ => exact Nat.one_pos
  | call _ _ _ => exact Nat.one_pos
  | cases _ => exact Nat.one_pos

theorem weights_append (ts us : List Tree) : weights (ts ++ us) = weights ts + weights us := by
  induction ts with
  | nil => rw [List.nil_append, weights, Nat.zero_add]
  | cons t ts ih => rw [List.cons_append, weights, ih, weights, Nat.add_assoc]

/-- Regrouping moves no operand over an operator that is not associative. -/
theorem weight_regrouped {t u : Tree} (h : Regrouped t u) :
    t.weight = u.weight ∧ t.operands = u.operands := by
  induction h with
  | refl t => exact ⟨rfl, rfl⟩
  | symm _ ih => exact ⟨ih.1.symm, ih.2.symm⟩
  | trans _ _ ih ih' => exact ⟨ih.1.trans ih'.1, ih.2.trans ih'.2⟩
  | assoc hop a b c =>
    simp only [weight, operands, leftWeight, hop, if_true]
    omega
  | unary op _ ih => exact ⟨ih.1, rfl⟩
  | binary op _ _ ih ih' =>
    simp only [weight, operands, ih, ih', and_self]
  | inList _ values negated ih => exact ⟨congrArg (· + weights values) ih.1, rfl⟩
  | value x before after negated _ ih =>
    simp only [weight, weights_append, weights, ih.1, operands, and_self]
  | inQuery _ inside negated ih => exact ⟨ih.1, rfl⟩
  | argument name before after distinct _ ih =>
    simp only [weight, weights_append, weights, ih.1, operands, and_self]
  | part before after _ ih =>
    simp only [weight, weights_append, weights, ih.1, operands, and_self]

/-- The operators of a row that are not associative. -/
def strict (rest : List (BinaryOp × Tree)) : Nat :=
  (rest.filter fun p => !p.1.isAssociative).length

/-- A first operand with `n` operands more adds them to every operator that is not associative. -/
theorem weight_foldl (rest : List (BinaryOp × Tree)) {t u : Tree} {n k : Nat}
    (hn : u.operands = t.operands + n) (hk : u.weight = t.weight + k) :
    (rest.foldl Row.grow u).operands = (rest.foldl Row.grow t).operands + n ∧
      (rest.foldl Row.grow u).weight = (rest.foldl Row.grow t).weight + k + n * strict rest := by
  induction rest generalizing t u k with
  | nil => exact ⟨hn, hk⟩
  | cons p rest ih =>
    have hn' : (Row.grow u p).operands = (Row.grow t p).operands + n := by
      simp only [Row.grow, operands]
      omega
    -- only an operator that does not associate counts the operands to its right
    cases hp : p.1.isAssociative with
    | true =>
      have hk' : (Row.grow u p).weight = (Row.grow t p).weight + k := by
        simp only [Row.grow, weight, leftWeight, hp, if_true]
        omega
      simpa [strict, hp] using ih hn' hk'
    | false =>
      have hk' : (Row.grow u p).weight = (Row.grow t p).weight + (k + n) := by
        simp only [Row.grow, weight, leftWeight, hp]
        simp only [Bool.false_eq_true, if_false]
        omega
      obtain ⟨ho, hw⟩ := ih hn' hk'
      have hmul : n * (strict rest + 1) = n * strict rest + n := Nat.mul_succ _ _
      refine ⟨ho, ?_⟩
      simp only [List.foldl_cons, hw, strict, List.filter_cons, hp, Bool.not_false, if_true,
        List.length_cons]
      simp only [strict] at hmul
      omega

/-- The weight and the operands of a reading, by those of its two sides. -/
theorem weight_reading_binary (op : BinaryOp) (l r : Tree) :
    (binary op l r).reading.operands = l.reading.operands + r.reading.operands ∧
      (binary op l r).reading.weight =
        l.reading.weight + r.reading.weight + leftWeight op l.reading.operands +
          l.reading.operands * strict (r.row.part (r.continues op .right)).rest := by
  have hshift := weight_foldl (r.row.part (r.continues op .right)).rest
    (t := (r.row.part (r.continues op .right)).first)
    (u := binary op l.reading (r.row.part (r.continues op .right)).first)
    (n := l.reading.operands) (k := l.reading.weight + leftWeight op l.reading.operands)
    (by rw [operands]; omega) (by rw [weight]; omega)
  have hr : (r.row.part (r.continues op .right)).rest.foldl Row.grow
      (r.row.part (r.continues op .right)).first = r.reading := Row.tree_part _ _
  rw [hr] at hshift
  rw [reading_binary, List.foldl_cons, Row.grow, hshift.1, hshift.2]
  constructor <;> omega

theorem operands_reading (t : Tree) : t.reading.operands = t.operands := by
  match t with
  | binary op l r =>
    rw [(weight_reading_binary op l r).1, operands_reading l, operands_reading r, operands]
  | path _ => rfl
  | hole => rfl
  | query _ => rfl
  | unary _ _ => rfl
  | inList _ _ _ => rfl
  | inQuery _ _ _ => rfl
  | call _ _ _ => rfl
  | cases _ => rfl

/-- What continues a row is an operator of its strength. -/
theorem precedence_of_continues {op : BinaryOp} {side : Side} {t : Tree}
    (h : t.continues op side = true) : t.precedence = op.precedence := by
  cases t with
  | binary o l r => exact beq_iff_eq.1 ((Bool.and_eq_true _ _).mp h).1
  | _ => cases h

/-- All operators of a row are of one strength. -/
theorem precedence_of_operators (t : Tree) : ∀ o ∈ t.operators, o.precedence = t.precedence := by
  match t with
  | binary op l r =>
    -- the operators of a side are counted only if they are of one precedence with this one
    have hside (u : Tree) (side : Side) (hu : ∀ o ∈ u.operators, o.precedence = u.precedence) :
        ∀ o ∈ (if u.continues op side then u.operators else []), o.precedence = op.precedence := by
      intro o ho
      cases hc : u.continues op side with
      | false => rw [hc] at ho; cases ho
      | true =>
        rw [hc] at ho
        exact (hu o ho).trans (precedence_of_continues hc)
    intro o ho
    rw [operators] at ho
    rcases List.mem_append.1 ho with ho | ho
    · exact hside l .left (precedence_of_operators l) o ho
    · rcases List.mem_cons.1 ho with rfl | ho
      · rfl
      · exact hside r .right (precedence_of_operators r) o ho
  | path _ => simp [operators]
  | hole => simp [operators]
  | query _ => simp [operators]
  | unary _ _ => simp [operators]
  | inList _ _ _ => simp [operators]
  | inQuery _ _ _ => simp [operators]
  | call _ _ _ => simp [operators]
  | cases _ => simp [operators]

/-- A row without an operator that is not associative has one operator only. -/
theorem all_operators {op : BinaryOp} {t : Tree} (hc : t.continues op .right = true)
    (hs : strict t.row.rest = 0) : t.operators.all (· == op) = true := by
  have hassoc : ∀ p ∈ t.row.rest, p.1.isAssociative = true := by
    intro p hp
    have hnil := List.length_eq_zero_iff.1 hs
    simpa using List.filter_eq_nil_iff.1 hnil p hp
  refine List.all_eq_true.2 fun o ho => ?_
  have hprecedence := (precedence_of_operators t o ho).trans (precedence_of_continues hc)
  rw [← fst_of_row] at ho
  obtain ⟨p, hp, rfl⟩ := List.mem_map.1 ho
  have hop := (continues_right hc).1
  exact beq_iff_eq.2 ((BinaryOp.isAssociative_unique hop hprecedence).1 (hassoc p hp))

mutual

/-- No reading is lighter than its tree, and one of the same weight comes from a grouped tree. -/
theorem weight_reading (t : Tree) : t.weight ≤ t.reading.weight ∧
    (t.reading.weight = t.weight → t.isGrouped = true) := by
  match t with
  | path _ => exact ⟨Nat.le_refl _, fun _ => rfl⟩
  | hole => exact ⟨Nat.le_refl _, fun _ => rfl⟩
  | query _ => exact ⟨Nat.le_refl _, fun _ => rfl⟩
  | unary _ t => exact weight_reading t
  | binary op l r =>
    obtain ⟨hl, hl'⟩ := weight_reading l
    obtain ⟨hr, hr'⟩ := weight_reading r
    rw [(weight_reading_binary op l r).2, operands_reading, weight]
    refine ⟨by omega, fun heq => ?_⟩
    have hgroups : l.isGrouped = true ∧ r.isGrouped = true := ⟨hl' (by omega), hr' (by omega)⟩
    rw [isGrouped, hgroups.1, hgroups.2]
    cases hc : r.continues op .right with
    | false => rfl
    | true =>
      rw [hc] at heq
      have hzero : l.operands * strict r.row.rest = 0 := by
        change _ + l.operands * strict r.row.rest = _ at heq
        omega
      -- there is an operand on the left, so the product is zero for the other factor
      have hpos := operands_pos l
      have hstrict : strict r.row.rest = 0 := by
        rcases Nat.mul_eq_zero.1 hzero with h | h
        · omega
        · exact h
      exact all_operators hc hstrict
  | inList t values _ =>
    obtain ⟨ht, ht'⟩ := weight_reading t
    obtain ⟨hvs, hvs'⟩ := weights_readings values
    refine ⟨Nat.add_le_add ht hvs, fun heq => ?_⟩
    change t.reading.weight + weights (readings values) = t.weight + weights values at heq
    rw [isGrouped, ht' (by omega), hvs' (by omega)]
    rfl
  | inQuery t _ _ => exact weight_reading t
  | call _ arguments _ => exact weights_readings arguments
  | cases parts => exact weights_readings parts

theorem weights_readings (ts : List Tree) : weights ts ≤ weights (readings ts) ∧
    (weights (readings ts) = weights ts → areGrouped ts = true) := by
  match ts with
  | [] => exact ⟨Nat.le_refl _, fun _ => rfl⟩
  | t :: ts =>
    obtain ⟨ht, ht'⟩ := weight_reading t
    obtain ⟨hts, hts'⟩ := weights_readings ts
    refine ⟨Nat.add_le_add ht hts, fun heq => ?_⟩
    change t.reading.weight + weights (readings ts) = t.weight + weights ts at heq
    rw [areGrouped, ht' (by omega), hts' (by omega)]
    rfl

end

/-- A tree is read as itself, but for the grouping of associative operators, exactly when it is
grouped. -/
theorem regrouped_iff (t : Tree) : Regrouped t.reading t ↔ t.isGrouped = true :=
  ⟨fun h => (weight_reading t).2 (weight_regrouped h).1, regrouped_reading t⟩

end Tree

end PolyQuery
