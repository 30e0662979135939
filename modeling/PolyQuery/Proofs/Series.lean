import Mathlib.Data.List.Induction
import PolyQuery.Proofs.Reading

/-! Operands in a row, told apart by how strongly the operators between them bind. The operator that
binds least is applied last, of several equal ones the last one; what stands on either side of it is
what it is applied to. Main statement: `series_joined_iff`, when a row is read as it was put together. -/
namespace PolyQuery

/-- What may be open around a token: a bracket, a case distinction, or a text in quotes. -/
inductive Opener where
  | bracket
  | cases
  | quote
  deriving DecidableEq

namespace Opener

/-- What a token opens. Between quotes it opens nothing, and between brackets only brackets count. -/
def of? : List Opener → Token → Option Opener
  | quote :: _, _ => none
  | _, .opening => some bracket
  | bracket :: _, _ => none
  | _, .key .case_ => some cases
  | _, .mark "'" => some quote
  | _, _ => none

/-- Whether a token closes it. -/
def closes : Opener → Token → Bool
  | bracket, .closing => true
  | cases, .key .end_ => true
  | quote, .mark "'" => true
  | _, _ => false

end Opener

namespace Token

/-- Whether a token stands between operands or in front of one, rather than in one. A sign does
behind an operand only: where an operand is due, it is a part of that (a minus, a star, or the second
half of an operator). -/
def isOperator (due : Bool) : Token → Bool
  | mark _ => !due
  | comma => true
  | key .not => due
  | key .case_ => false
  | key .null => false
  | key _ => true
  | _ => false

/-- Whether an operand is due behind a token. -/
def leavesDue (due : Bool) : Token → Bool
  | word _ => false
  | name _ => false
  | hole => false
  | key .null => false
  | key .is => false
  | key .not => due
  | mark "*" => !due
  | _ => true

/-- How strongly a token binds as an operator, if `||` binds as strongly as `join` says. What is no
operator ends every operand. -/
def strength (join : Nat) : Token → Nat
  | mark "|" => join
  | key .not => negationPrecedence
  | key .is => predicatePrecedence
  | key .in_ => predicatePrecedence
  | key .exists_ => predicatePrecedence
  | t => ((Grammar.infix? [t]).map fun p => p.1.precedence).getD 0

end Token

/-- Where a reader stands: what is open, the innermost first, and whether an operand is due. -/
structure Post where
  opened : List Opener
  due : Bool

namespace Post

/-- Before the first operand of a row. -/
def start : Post := ⟨[], true⟩

/-- Behind a token. -/
def after (p : Post) (t : Token) : Post :=
  match Opener.of? p.opened t with
  | some o => ⟨o :: p.opened, true⟩
  | none =>
    match p.opened with
    | [] => ⟨[], t.leavesDue p.due⟩
    | o :: os => if o.closes t then ⟨os, false⟩ else ⟨o :: os, t.leavesDue p.due⟩

/-- Behind some tokens. -/
def run (p : Post) (ts : List Token) : Post := ts.foldl after p

/-- Whether a token is an operator of the row itself. -/
def meets (p : Post) (t : Token) : Bool := p.opened.isEmpty && t.isOperator p.due

/-- The operators of a row. -/
def operators : Post → List Token → List Token
  | _, [] => []
  | p, t :: ts => if p.meets t then t :: operators (p.after t) ts else operators (p.after t) ts

end Post

/-- A row cut at one of its operators. -/
structure Cut where
  left : List Token
  sign : Token
  right : List Token

namespace Grammar

/-- A row cut at each of its operators; `left` is what stands before. -/
def cuts : Post → List Token → List Token → List Cut
  | _, _, [] => []
  | p, left, t :: ts =>
    if p.meets t then ⟨left, t, ts⟩ :: cuts (p.after t) (left ++ [t]) ts
    else cuts (p.after t) (left ++ [t]) ts

/-- The cut at the operator that is applied last: it binds least, and none behind it binds as little. -/
def weakest (join : Nat) : List Cut → Option Cut
  | [] => none
  | c :: cs =>
    match weakest join cs with
    | none => some c
    | some b => if c.sign.strength join < b.sign.strength join then some c else some b

end Grammar

/-- What stands between two operands of a row: a comma, or the two signs of `||`. -/
structure Joint where
  sign : Token
  more : List Token

namespace Joint

/-- A comma. -/
def comma : Joint := ⟨.comma, []⟩

/-- The operator `||`. -/
def bars : Joint := ⟨.mark "|", [.mark "|"]⟩

/-- An operand with others behind it. -/
def joined (j : Joint) (first : List Token) (others : List (List Token)) : List Token :=
  others.foldl (fun ts us => ts ++ (j.sign :: j.more) ++ us) first

end Joint

namespace Grammar

/-- The operands that a row is read as: the last one is what stands behind the joint that is applied
last, and the others are read from what stands before it. -/
def series (join : Nat) (j : Joint) : Nat → List Token → List (List Token)
  | 0, ts => [ts]
  | fuel + 1, ts =>
    match weakest join (cuts .start [] ts) with
    | some c =>
      if c.sign = j.sign ∧ j.more <+: c.right then
        series join j fuel c.left ++ [c.right.drop j.more.length]
      else [ts]
    | none => [ts]

end Grammar

namespace Post
variable {p : Post} {ts us : List Token}

theorem run_cons (t : Token) : p.run (t :: ts) = (p.after t).run ts := rfl

theorem run_append : p.run (ts ++ us) = (p.run ts).run us := List.foldl_append

theorem operators_append : p.operators (ts ++ us) = p.operators ts ++ (p.run ts).operators us := by
  induction ts generalizing p with
  | nil => rfl
  | cons t ts ih =>
    rw [List.cons_append, operators, operators, ih, run_cons]
    split <;> rfl

end Post

/-- A joint stands between one operand and the next, and is one operator. -/
structure Joint.Sound (j : Joint) : Prop where
  run : (Post.mk [] false).run (j.sign :: j.more) = .start
  meets : (Post.mk [] false).meets j.sign = true
  more : ((Post.mk [] false).after j.sign).operators j.more = []

namespace Joint

theorem sound_comma : comma.Sound := ⟨rfl, rfl, rfl⟩

theorem sound_bars : bars.Sound := ⟨rfl, rfl, rfl⟩

theorem Sound.operators {j : Joint} (hj : j.Sound) :
    (Post.mk [] false).operators (j.sign :: j.more) = [j.sign] := by
  rw [Post.operators, if_pos hj.meets, hj.more]

end Joint

/-- Tokens that are an operand, read from its beginning to its end. -/
structure IsOperand (j : Joint) (ts : List Token) : Prop where
  run : Post.start.run ts = ⟨[], false⟩
  other : j.sign ∉ Post.start.operators ts

namespace Grammar
variable {join : Nat} {p : Post} {left ts us : List Token}

theorem cuts_append : cuts p left (ts ++ us) =
    (cuts p left ts).map (fun c => ⟨c.left, c.sign, c.right ++ us⟩) ++
      cuts (p.run ts) (left ++ ts) us := by
  induction ts generalizing p left with
  | nil => rw [List.nil_append, List.append_nil]; rfl
  | cons t ts ih =>
    have hleft : left ++ t :: ts = left ++ [t] ++ ts := List.append_cons left t ts
    rw [List.cons_append, cuts, cuts, ih, Post.run_cons, hleft]
    split <;> rfl

/-- The signs of the cuts are the operators of the row. -/
theorem sign_cuts : (cuts p left ts).map Cut.sign = p.operators ts := by
  induction ts generalizing p left with
  | nil => rfl
  | cons t ts ih =>
    rw [cuts, Post.operators]
    split
    · rw [List.map_cons, ih]
    · exact ih

theorem forall_cuts {P : Token → Prop} :
    (∀ c ∈ cuts p left ts, P c.sign) ↔ ∀ t ∈ p.operators ts, P t := by
  have hsigns : (cuts p left ts).map Cut.sign = p.operators ts := sign_cuts
  rw [← hsigns, List.forall_mem_map]

/-- A cut takes a row apart. -/
theorem mem_cuts {c : Cut} (h : c ∈ cuts p left ts) :
    c.left ++ c.sign :: c.right = left ++ ts ∧ left.length ≤ c.left.length := by
  induction ts generalizing p left with
  | nil => cases h
  | cons t ts ih =>
    have hrest (h : c ∈ cuts (p.after t) (left ++ [t]) ts) :
        c.left ++ c.sign :: c.right = left ++ t :: ts ∧ left.length ≤ c.left.length := by
      obtain ⟨hall, hlength⟩ := ih h
      rw [hall, List.append_assoc]
      rw [List.length_append] at hlength
      exact ⟨rfl, Nat.le_of_add_right_le hlength⟩
    rw [cuts] at h
    split at h
    · rcases List.mem_cons.1 h with rfl | h
      · exact ⟨rfl, Nat.le_refl _⟩
      · exact hrest h
    · exact hrest h

theorem weakest_eq_none {cs : List Cut} (h : weakest join cs = none) : cs = [] := by
  cases cs with
  | nil => rfl
  | cons c cs =>
    rw [weakest] at h
    split at h
    · cases h
    · split at h <;> cases h

/-- The weakest cut is the first one or that of the others. -/
theorem weakest_cons {a c : Cut} {cs : List Cut} (h : weakest join (a :: cs) = some c) :
    c = a ∧ (∀ b, weakest join cs = some b → a.sign.strength join < b.sign.strength join) ∨
      weakest join cs = some c ∧ c.sign.strength join ≤ a.sign.strength join := by
  rw [weakest] at h
  cases hw : weakest join cs with
  | none =>
    rw [hw] at h
    cases h
    exact .inl ⟨rfl, nofun⟩
  | some b =>
    rw [hw] at h
    dsimp only at h
    split at h
    · next hlt =>
      cases h
      exact .inl ⟨rfl, fun x hx => Option.some.inj hx ▸ hlt⟩
    · next hle =>
      cases h
      exact .inr ⟨rfl, Nat.le_of_not_lt hle⟩

theorem weakest_mem {cs : List Cut} {c : Cut} (h : weakest join cs = some c) :
    c ∈ cs ∧ ∀ b ∈ cs, c.sign.strength join ≤ b.sign.strength join := by
  induction cs generalizing c with
  | nil => cases h
  | cons a cs ih =>
    -- the first cut is taken only if it binds less than the one that the others would give
    rcases weakest_cons h with ⟨rfl, hlt⟩ | ⟨hw, hle⟩
    · refine ⟨List.mem_cons_self, List.forall_mem_cons.2 ⟨Nat.le_refl _, fun b hb => ?_⟩⟩
      cases hw : weakest join cs with
      | none =>
        rw [weakest_eq_none hw] at hb
        cases hb
      | some x => exact Nat.le_trans (Nat.le_of_lt (hlt x hw)) ((ih hw).2 b hb)
    · obtain ⟨hmem, hleast⟩ := ih hw
      exact ⟨List.mem_cons_of_mem _ hmem, List.forall_mem_cons.2 ⟨hle, hleast⟩⟩

/-- Which of several cuts is the weakest: none before it binds less, and all behind it bind more. -/
theorem weakest_eq_iff {before behind : List Cut} {c : Cut} (hc : c ∉ behind) :
    weakest join (before ++ c :: behind) = some c ↔
      (∀ b ∈ before, c.sign.strength join ≤ b.sign.strength join) ∧
        ∀ b ∈ behind, c.sign.strength join < b.sign.strength join := by
  constructor
  · intro h
    refine ⟨fun b hb => (weakest_mem h).2 b (List.mem_append_left _ hb), ?_⟩
    -- by induction up to the cut itself, since only those behind it were looked at before it
    induction before with
    | nil =>
      rcases weakest_cons h with ⟨-, hlt⟩ | ⟨hw, -⟩
      · intro b hb
        cases hw : weakest join behind with
        | none =>
          rw [weakest_eq_none hw] at hb
          cases hb
        | some x => exact Nat.lt_of_lt_of_le (hlt x hw) ((weakest_mem hw).2 b hb)
      · exact absurd (weakest_mem hw).1 hc
    | cons a before ih =>
      rcases weakest_cons h with ⟨rfl, hlt⟩ | ⟨hw, -⟩
      · -- the first cut is another copy of it, so it is no weaker than itself
        cases hw : weakest join (before ++ c :: behind) with
        | none => exact absurd (weakest_eq_none hw) (by simp)
        | some x =>
          have hself := (weakest_mem hw).2 c (by simp)
          exact absurd (hlt x hw) (Nat.not_lt_of_le hself)
      · exact ih hw
  · rintro ⟨hbefore, hbehind⟩
    induction before with
    | nil =>
      rw [List.nil_append, weakest]
      cases hw : weakest join behind with
      | none => rfl
      | some x => exact if_pos (hbehind x (weakest_mem hw).1)
    | cons a before ih =>
      obtain ⟨ha, hbefore⟩ := List.forall_mem_cons.1 hbefore
      rw [List.cons_append, weakest, ih hbefore]
      exact if_neg (Nat.not_lt_of_le ha)

end Grammar

namespace Joint
variable {j : Joint} {first last : List Token} {others : List (List Token)}

theorem joined_concat :
    j.joined first (others ++ [last]) = j.joined first others ++ (j.sign :: j.more) ++ last :=
  List.foldl_append

theorem length_le_joined : others.length ≤ (j.joined first others).length := by
  induction others using List.reverseRecOn with
  | nil => exact Nat.zero_le _
  | append_singleton others last ih =>
    rw [joined_concat]
    simp only [List.length_append, List.length_cons, List.length_nil]
    omega

/-- A row ends where its last operand does. -/
theorem Sound.run_joined (hj : j.Sound) (hf : IsOperand j first)
    (ho : ∀ ts ∈ others, IsOperand j ts) : Post.start.run (j.joined first others) = ⟨[], false⟩ := by
  induction others using List.reverseRecOn with
  | nil => exact hf.run
  | append_singleton others last ih =>
    obtain ⟨hothers, hlast⟩ := List.forall_mem_append.1 ho
    rw [joined_concat, Post.run_append, Post.run_append, ih hothers, hj.run]
    exact (hlast last List.mem_cons_self).run

/-- The operators of a row are the joints and those of its operands. -/
theorem Sound.forall_operators (hj : j.Sound) (hf : IsOperand j first)
    (ho : ∀ ts ∈ others, IsOperand j ts) {P : Token → Prop} (hsign : P j.sign) :
    (∀ t ∈ Post.start.operators (j.joined first others), P t) ↔
      (∀ t ∈ Post.start.operators first, P t) ∧
        ∀ ts ∈ others, ∀ t ∈ Post.start.operators ts, P t := by
  induction others using List.reverseRecOn with
  | nil => exact ⟨fun h => ⟨h, List.forall_mem_nil _⟩, And.left⟩
  | append_singleton others last ih =>
    obtain ⟨hothers, -⟩ := List.forall_mem_append.1 ho
    have hrun := hj.run_joined hf hothers
    have hlast : (Post.run ⟨[], false⟩ (j.sign :: j.more)).operators last =
        Post.start.operators last := by rw [hj.run]
    rw [joined_concat, Post.operators_append, Post.operators_append, Post.run_append, hrun,
      hj.operators, hlast, List.forall_mem_append, List.forall_mem_append, ih hothers,
      List.forall_mem_append, List.forall_mem_singleton, List.forall_mem_singleton, and_assoc,
      and_assoc]
    exact ⟨fun h => ⟨h.1, h.2.1, h.2.2.2⟩, fun h => ⟨h.1, h.2.1, hsign, h.2.2⟩⟩

end Joint

namespace Grammar
variable {join : Nat} {j : Joint} {first last : List Token} {others : List (List Token)}

/-- An operand by itself is read as one. -/
theorem series_operand (hf : IsOperand j first) (fuel : Nat) : series join j fuel first = [first] := by
  cases fuel with
  | zero => rfl
  | succ fuel =>
    rw [series]
    cases hw : weakest join (cuts .start [] first) with
    | none => rfl
    | some c =>
      have hsign : c.sign ∈ Post.start.operators first :=
        forall_cuts.2 (fun t ht => ht) c (weakest_mem hw).1
      have hother : ¬ (c.sign = j.sign ∧ j.more <+: c.right) :=
        fun h => hf.other (h.1 ▸ hsign)
      exact if_neg hother

/-- The cuts of a row at whose end an operand is added. -/
theorem cuts_concat (hj : j.Sound) (hf : IsOperand j first) (ho : ∀ ts ∈ others, IsOperand j ts)
    (last : List Token) :
    cuts .start [] (j.joined first (others ++ [last])) =
      (cuts .start [] (j.joined first others)).map
          (fun c => ⟨c.left, c.sign, c.right ++ ((j.sign :: j.more) ++ last)⟩) ++
        ⟨j.joined first others, j.sign, j.more ++ last⟩ ::
          cuts .start (j.joined first others ++ (j.sign :: j.more)) last := by
  have hrun := hj.run_joined hf ho
  have hsigns : cuts (Post.mk [] false) (j.joined first others) (j.sign :: j.more) =
      [⟨j.joined first others, j.sign, j.more⟩] := by
    have hmore : cuts ((Post.mk [] false).after j.sign) (j.joined first others ++ [j.sign]) j.more =
        [] := by
      rw [← List.map_eq_nil_iff, sign_cuts, hj.more]
    rw [cuts, if_pos hj.meets, hmore]
  rw [Joint.joined_concat, List.append_assoc, cuts_append, List.nil_append]
  change _ ++ cuts (Post.run .start _) _ _ = _
  rw [hrun, cuts_append, hsigns, hj.run]
  rfl

/-- The last joint of a row is applied last exactly if no operator before it binds less, and every
operator behind it binds more. -/
theorem weakest_concat_iff (hj : j.Sound) (hf : IsOperand j first)
    (ho : ∀ ts ∈ others, IsOperand j ts) :
    weakest join (cuts .start [] (j.joined first (others ++ [last]))) =
      some ⟨j.joined first others, j.sign, j.more ++ last⟩ ↔
        (∀ t ∈ Post.start.operators (j.joined first others),
          j.sign.strength join ≤ t.strength join) ∧
        ∀ t ∈ Post.start.operators last, j.sign.strength join < t.strength join := by
  -- the cuts in the last operand have more to their left
  have hlate : (⟨j.joined first others, j.sign, j.more ++ last⟩ : Cut) ∉
      cuts .start (j.joined first others ++ (j.sign :: j.more)) last := by
    intro hmem
    have hlength := (mem_cuts hmem).2
    rw [List.length_append, List.length_cons] at hlength
    dsimp only at hlength
    omega
  rw [cuts_concat hj hf ho last, weakest_eq_iff hlate, List.forall_mem_map]
  exact and_congr (forall_cuts (P := fun t => j.sign.strength join ≤ t.strength join))
    (forall_cuts (P := fun t => j.sign.strength join < t.strength join))

/-- The last operand is read as one exactly if the last joint is applied last, and the others are
read from what stands before that. -/
theorem series_concat_iff (hj : j.Sound) (hf : IsOperand j first) (ho : ∀ ts ∈ others, IsOperand j ts)
    (fuel : Nat) :
    series join j (fuel + 1) (j.joined first (others ++ [last])) = first :: (others ++ [last]) ↔
      series join j fuel (j.joined first others) = first :: others ∧
        (∀ t ∈ Post.start.operators (j.joined first others),
          j.sign.strength join ≤ t.strength join) ∧
        ∀ t ∈ Post.start.operators last, j.sign.strength join < t.strength join := by
  have hwhole : j.joined first (others ++ [last]) =
      j.joined first others ++ j.sign :: (j.more ++ last) := by
    rw [Joint.joined_concat, List.append_assoc]
    rfl
  have hconcat : first :: (others ++ [last]) = (first :: others) ++ [last] := rfl
  rw [← weakest_concat_iff hj hf ho, series]
  constructor
  · intro h
    cases hw : weakest join (cuts .start [] (j.joined first (others ++ [last]))) with
    | none =>
      rw [hw] at h
      simp at h
    | some c =>
      rw [hw] at h
      dsimp only at h
      split at h
      · next hsign =>
        obtain ⟨hsign, us, hright⟩ := hsign
        rw [hconcat, List.append_singleton_inj, ← hright, List.drop_left] at h
        obtain ⟨hleft, rfl⟩ := h
        -- the cut is where the last joint stands, since the same operand stands behind it
        have hall := (mem_cuts (weakest_mem hw).1).1
        rw [hsign, ← hright, List.nil_append, hwhole, List.append_cancel_right_eq] at hall
        obtain ⟨left, sign, right⟩ := c
        dsimp only at *
        subst hall hsign hright
        exact ⟨hleft, rfl⟩
      · simp at h
  · rintro ⟨hrest, hw⟩
    rw [hw]
    dsimp only
    rw [if_pos ⟨rfl, List.prefix_append _ _⟩, hrest, List.drop_left]
    rfl

/-- A row is read as the operands that it was put together from, exactly if it has only one or if
the joints bind less than what the operands are made of; the operator of the first operand may bind
as strongly. -/
theorem series_joined_iff (hj : j.Sound) (hf : IsOperand j first) (ho : ∀ ts ∈ others, IsOperand j ts)
    {fuel : Nat} (hfuel : others.length ≤ fuel) :
    series join j fuel (j.joined first others) = first :: others ↔ others = [] ∨
      (∀ t ∈ Post.start.operators first, j.sign.strength join ≤ t.strength join) ∧
        ∀ ts ∈ others, ∀ t ∈ Post.start.operators ts,
          j.sign.strength join < t.strength join := by
  -- the reader takes the last operand off first, and so does the induction
  induction others using List.reverseRecOn generalizing fuel with
  | nil => exact iff_of_true (series_operand hf fuel) (.inl rfl)
  | append_singleton others last ih =>
    obtain ⟨hothers, -⟩ := List.forall_mem_append.1 ho
    obtain ⟨fuel, rfl⟩ : ∃ n, fuel = n + 1 := Nat.exists_eq_add_one.2 (by simp at hfuel; omega)
    have henough : others.length ≤ fuel := by simpa using hfuel
    have hrest := ih hothers henough
    rw [series_concat_iff hj hf hothers, hrest, hj.forall_operators hf hothers (Nat.le_refl _),
      List.forall_mem_append, List.forall_mem_singleton]
    constructor
    · rintro ⟨hbefore, ⟨hfirst, -⟩, hend⟩
      refine .inr ⟨hfirst, ?_, hend⟩
      rcases hbefore with rfl | ⟨-, hbefore⟩
      · exact List.forall_mem_nil _
      · exact hbefore
    · rintro (hnil | ⟨hfirst, hbefore, hend⟩)
      · exact absurd hnil (by simp)
      · exact ⟨.inr ⟨hfirst, hbefore⟩,
          ⟨hfirst, fun ts hts t ht => Nat.le_of_lt (hbefore ts hts t ht)⟩, hend⟩

end Grammar

end PolyQuery
