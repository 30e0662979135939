import PolyQuery.Proofs.Series

/-! Conditions read as alternatives. `OR` binds least and `AND` next, so the text of a condition is cut
at its outermost `OR`, and each alternative at its outermost `AND`. What is written behind a condition
with `AND` must hold if that has no `OR` outside of brackets, and otherwise nothing must:
`entails_placedBehind`, `not_entails`. -/
namespace PolyQuery

/-- A part of a text, with what stands before it. -/
structure TextPart where
  before : List Token
  tokens : List Token

namespace Grammar

/-- A text cut at those of its operators that are the sign; `piece` is what was read behind the last
of them. -/
def parts (sign : Token) : Post → List Token → List Token → List Token → List TextPart
  | _, before, piece, [] => [⟨before, piece⟩]
  | p, before, piece, t :: ts =>
    if p.meets t = true ∧ t = sign then
      ⟨before, piece⟩ :: parts sign (p.after t) (before ++ piece ++ [t]) [] ts
    else parts sign (p.after t) before (piece ++ [t]) ts

/-- The alternatives of a condition, each with the parts that must hold in it. -/
def alternatives (ts : List Token) : List (List TextPart) :=
  (parts (.key .or) .start [] [] ts).map fun a => parts (.key .and) .start a.before [] a.tokens

/-- A condition is true if all parts of one of its alternatives hold. -/
def IsTrue (holds : TextPart → Prop) (ts : List Token) : Prop :=
  ∃ parts ∈ alternatives ts, ∀ c ∈ parts, holds c

/-- A part that holds wherever the condition is true, whatever else is. -/
def Entails (ts : List Token) (c : TextPart) : Prop :=
  ∀ holds : TextPart → Prop, IsTrue holds ts → holds c

/-- Texts with `AND` before each of them. -/
def behindAnd (others : List (List Token)) : List Token := others.flatMap (.key .and :: ·)

/-- The same texts as parts of the whole that they stand in. -/
def placedBehind : List Token → List (List Token) → List TextPart
  | _, [] => []
  | before, ts :: rest => ⟨before ++ [.key .and], ts⟩ :: placedBehind (before ++ .key .and :: ts) rest

/-- A text that is read from its beginning to its end, and is one part of an alternative. -/
structure IsTest (ts : List Token) : Prop where
  run : Post.start.run ts = ⟨[], false⟩
  no_and : .key .and ∉ Post.start.operators ts
  no_or : .key .or ∉ Post.start.operators ts

variable {sign t : Token} {p : Post} {before piece first ts us : List Token}
  {others : List (List Token)}

/-- What must hold wherever a condition is true is a part of each alternative. -/
theorem entails_iff {c : TextPart} : Entails ts c ↔ ∀ parts ∈ alternatives ts, c ∈ parts := by
  constructor
  · intro h parts hparts
    exact h (· ∈ parts) ⟨parts, hparts, fun _ hc => hc⟩
  · rintro h holds ⟨parts, hparts, hall⟩
    exact hall c (h parts hparts)

/-! ### Cutting at a sign -/

theorem parts_of_notMem (h : sign ∉ p.operators ts) :
    parts sign p before piece ts = [⟨before, piece ++ ts⟩] := by
  induction ts generalizing p piece with
  | nil => rw [parts, List.append_nil]
  | cons t ts ih =>
    rw [Post.operators] at h
    rw [parts, List.append_cons piece t ts]
    by_cases hmeets : p.meets t = true
    · rw [if_pos hmeets, List.mem_cons, not_or] at h
      rw [if_neg fun hcut => h.1 hcut.2.symm]
      exact ih h.2
    · rw [if_neg hmeets] at h
      rw [if_neg fun hcut => hmeets hcut.1]
      exact ih h

/-- A text with the sign among its operators is cut there. -/
theorem parts_append_cons (h : (p.run ts).meets sign = true) :
    parts sign p before piece (ts ++ sign :: us) = parts sign p before piece ts ++
      parts sign ((p.run ts).after sign) (before ++ piece ++ ts ++ [sign]) [] us := by
  induction ts generalizing p before piece with
  | nil =>
    rw [List.nil_append, parts, parts, if_pos ⟨h, rfl⟩, List.append_nil]
    rfl
  | cons t ts ih =>
    rw [List.cons_append, parts, parts]
    split
    · rw [ih h, List.cons_append]
      simp only [List.append_assoc, List.cons_append, List.nil_append]
      rfl
    · rw [ih h]
      simp only [List.append_assoc, List.cons_append, List.nil_append]
      rfl

/-- A part stands within the text. -/
theorem prefix_of_mem_parts {c : TextPart} (h : c ∈ parts sign p before piece ts) :
    c.before ++ c.tokens <+: before ++ piece ++ ts := by
  induction ts generalizing p before piece with
  | nil =>
    rw [parts] at h
    cases List.mem_singleton.1 h
    exact List.prefix_append _ _
  | cons t ts ih =>
    rw [parts] at h
    have hwhole : before ++ (piece ++ [t]) ++ ts = before ++ piece ++ t :: ts := by
      simp only [List.append_assoc, List.cons_append, List.nil_append]
    split at h
    · rcases List.mem_cons.1 h with rfl | h
      · exact List.prefix_append _ _
      · have hprefix := ih h
        rwa [List.append_nil, List.append_assoc _ piece, hwhole] at hprefix
    · rw [← hwhole]
      exact ih h

/-- A part stands behind what was read before. -/
theorem prefix_before_of_mem_parts {c : TextPart} (h : c ∈ parts sign p before piece ts) :
    before <+: c.before := by
  induction ts generalizing p before piece with
  | nil =>
    rw [parts] at h
    cases List.mem_singleton.1 h
    exact List.prefix_refl _
  | cons t ts ih =>
    rw [parts] at h
    split at h
    · rcases List.mem_cons.1 h with rfl | h
      · exact List.prefix_refl _
      · have hprefix := ih h
        rw [List.append_assoc] at hprefix
        exact (List.prefix_append _ _).trans hprefix
    · exact ih h

theorem parts_ne_nil : parts sign p before piece ts ≠ [] := by
  induction ts generalizing p before piece with
  | nil => exact List.cons_ne_nil _ _
  | cons t ts ih =>
    rw [parts]
    split
    · exact List.cons_ne_nil _ _
    · exact ih

/-- Before its first occurrence an operator is none. -/
theorem exists_first (h : t ∈ p.operators ts) : ∃ us vs, ts = us ++ t :: vs ∧
    (p.run us).meets t = true ∧ t ∉ p.operators us := by
  induction ts generalizing p with
  | nil => cases h
  | cons s ts ih =>
    -- where the first token is not the one, the rest is read from where it leaves off
    by_cases hfirst : p.meets s = true ∧ t = s
    · obtain ⟨hmeets, rfl⟩ := hfirst
      exact ⟨[], ts, rfl, hmeets, List.not_mem_nil⟩
    · have hlater : t ∈ (p.after s).operators ts := by
        rw [Post.operators] at h
        split at h
        · next hmeets =>
          exact (List.mem_cons.1 h).resolve_left fun heq => hfirst ⟨hmeets, heq⟩
        · exact h
      obtain ⟨us, vs, rfl, hmeets, hnone⟩ := ih hlater
      refine ⟨s :: us, vs, rfl, hmeets, ?_⟩
      rw [Post.operators]
      split
      · next hs =>
        rw [List.mem_cons, not_or]
        exact ⟨fun heq => hfirst ⟨hs, heq⟩, hnone⟩
      · exact hnone

/-! ### Conditions behind a condition -/

theorem parts_behindAnd (hfirst : Post.start.run first = ⟨[], false⟩)
    (hothers : ∀ ts ∈ others, IsTest ts) (before : List Token) :
    parts (.key .and) .start before [] (first ++ behindAnd others) =
      parts (.key .and) .start before [] first ++ placedBehind (before ++ first) others := by
  induction others generalizing first before with
  | nil =>
    rw [placedBehind, List.append_nil]
    exact congrArg _ (List.append_nil first)
  | cons ts others ih =>
    obtain ⟨hts, hothers⟩ := List.forall_mem_cons.1 hothers
    have hcut : (Post.start.run first).meets (.key .and) = true := by rw [hfirst]; rfl
    have hafter : (Post.start.run first).after (.key .and) = .start := by rw [hfirst]; rfl
    have hrow : behindAnd (ts :: others) = .key .and :: (ts ++ behindAnd others) := rfl
    rw [hrow, parts_append_cons hcut, hafter, ih hts.run hothers, parts_of_notMem hts.no_and,
      placedBehind, List.nil_append, List.append_nil]
    simp only [List.append_assoc, List.cons_append, List.nil_append]

theorem operators_behindAnd (hfirst : Post.start.run first = ⟨[], false⟩)
    (hothers : ∀ ts ∈ others, IsTest ts) :
    .key .or ∈ Post.start.operators (first ++ behindAnd others) ↔
      .key .or ∈ Post.start.operators first := by
  induction others generalizing first with
  | nil => exact iff_of_eq (congrArg (fun ts => .key .or ∈ Post.start.operators ts) (List.append_nil _))
  | cons ts others ih =>
    obtain ⟨hts, hothers⟩ := List.forall_mem_cons.1 hothers
    have hrow : first ++ behindAnd (ts :: others) =
        first ++ [.key .and] ++ (ts ++ behindAnd others) := by
      rw [List.append_assoc]
      rfl
    -- an AND that is met outside brackets leaves a reader that is as it was at the start
    have hstart : Post.start.run (first ++ [.key .and]) = .start := by
      rw [Post.run_append, hfirst]
      rfl
    have hand : (Post.mk [] false).operators [.key .and] = [.key .and] := rfl
    rw [hrow, Post.operators_append, hstart, List.mem_append, ih hts.run hothers,
      Post.operators_append, hfirst, hand, List.mem_append]
    constructor
    · rintro ((h | h) | h)
      · exact h
      · cases List.mem_singleton.1 h
      · exact absurd h hts.no_or
    · exact fun h => .inl (.inl h)

/-- Without an `OR` there is one alternative, and all parts of it must hold. -/
theorem alternatives_behindAnd (hfirst : Post.start.run first = ⟨[], false⟩)
    (hothers : ∀ ts ∈ others, IsTest ts) (hor : .key .or ∉ Post.start.operators first) :
    alternatives (first ++ behindAnd others) =
      [parts (.key .and) .start [] [] first ++ placedBehind first others] := by
  have hnone : .key .or ∉ Post.start.operators (first ++ behindAnd others) :=
    fun h => hor ((operators_behindAnd hfirst hothers).1 h)
  rw [alternatives, parts_of_notMem hnone, List.map_singleton, List.nil_append,
    parts_behindAnd hfirst hothers, List.nil_append]

/-- Conditions behind one that has no `OR` outside of brackets must hold wherever the whole is true. -/
theorem entails_placedBehind (hfirst : Post.start.run first = ⟨[], false⟩)
    (hothers : ∀ ts ∈ others, IsTest ts) (hor : .key .or ∉ Post.start.operators first) {c : TextPart}
    (hc : c ∈ placedBehind first others) : Entails (first ++ behindAnd others) c := by
  rw [entails_iff, alternatives_behindAnd hfirst hothers hor]
  exact List.forall_mem_singleton.2 (List.mem_append_right _ hc)

/-- So must the first one, if it is a test itself. -/
theorem entails_first (hfirst : IsTest first) (hothers : ∀ ts ∈ others, IsTest ts) :
    Entails (first ++ behindAnd others) ⟨[], first⟩ := by
  rw [entails_iff, alternatives_behindAnd hfirst.run hothers hfirst.no_or,
    parts_of_notMem hfirst.no_and]
  exact List.forall_mem_singleton.2 List.mem_cons_self

/-- Nothing must hold wherever a condition is true that has an `OR` outside of brackets: what stands in
one alternative does not stand in the other. -/
theorem not_entails (hor : .key .or ∈ Post.start.operators ts) (c : TextPart) : ¬ Entails ts c := by
  obtain ⟨us, vs, rfl, hmeets, hnone⟩ := exists_first hor
  have hcut : parts (.key .or) .start [] [] (us ++ .key .or :: vs) =
      ⟨[], us⟩ :: parts (.key .or) ((Post.start.run us).after (.key .or)) (us ++ [.key .or]) [] vs := by
    rw [parts_append_cons hmeets, parts_of_notMem hnone]
    rfl
  have hne : parts (.key .or) ((Post.start.run us).after (.key .or)) (us ++ [.key .or]) [] vs ≠ [] :=
    parts_ne_nil
  obtain ⟨a, ha⟩ := List.exists_mem_of_ne_nil _ hne
  rw [entails_iff, alternatives, hcut, List.map_cons, List.forall_mem_cons]
  rintro ⟨hfirst, hothers⟩
  have hsecond := hothers _ (List.mem_map_of_mem ha)
  -- the part ends before the sign, and begins behind it
  have hends := (prefix_of_mem_parts hfirst).length_le
  have hbegins := ((prefix_before_of_mem_parts ha).trans
    (prefix_before_of_mem_parts hsecond)).length_le
  simp only [List.length_append, List.length_cons, List.length_nil] at hends hbegins
  omega

/-- Every text behind others is a part there. -/
theorem exists_placedBehind (h : ts ∈ others) (first : List Token) :
    ∃ before, ⟨before, ts⟩ ∈ placedBehind first others := by
  induction others generalizing first with
  | nil => cases h
  | cons us others ih =>
    rcases List.mem_cons.1 h with rfl | h
    · exact ⟨_, List.mem_cons_self⟩
    · obtain ⟨before, hmem⟩ := ih h (first ++ .key .and :: us)
      exact ⟨before, List.mem_cons_of_mem _ hmem⟩

end Grammar

end PolyQuery
