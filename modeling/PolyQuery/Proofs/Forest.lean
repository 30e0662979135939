import PolyQuery.Relation.LoadTree

/-! Load trees, seen slot by slot. A way is a list of slots from the root, and a slot at its end
either is empty or holds a node, of which a mark says what it loads. `insert_marks` says how a
goal changes the marks, and `insert_isOk` whether there is room for it. Trees with the same marks
are the same up to the order of siblings: `rearranged_of_marks`. -/
namespace PolyQuery

/-- What is said of a node, apart from its slot and what is below it. -/
structure LoadMark where
  relation : String
  modifier : Option String
  passing : Bool
  deriving DecidableEq

/-- The mark of a goal. -/
def LoadGoal.mark (g : LoadGoal) : LoadMark := ⟨g.relation, g.modifier, false⟩

/-- The mark of a node on the way to deeper ones. -/
def LoadMark.onTheWay (slot : String) : LoadMark := ⟨slot, none, true⟩

/-- Whether there is room for a goal: its slot is empty, or holds the same relation with the same
modifier or on the way only. -/
def LoadGoal.Admitted (g : LoadGoal) : Option LoadMark → Prop
  | none => True
  | some m => m.relation = g.relation ∧ (m.modifier = g.modifier ∨ m.passing = true)

namespace LoadNode

/-- The mark of a node. -/
def mark (n : LoadNode) : LoadMark := ⟨n.relation, n.modifier, n.passing⟩

/-- The node in a slot. -/
def inSlot? (slot : String) (f : List LoadNode) : Option LoadNode := f.find? fun n => n.slot = slot

/-- The nodes at the end of a way. -/
def follow (f : List LoadNode) : List String → List LoadNode
  | [] => f
  | s :: way => follow ((inSlot? s f).elim [] children) way

/-- The mark in a slot at the end of a way. -/
def mark? (f : List LoadNode) (way : List String) (slot : String) : Option LoadMark :=
  (inSlot? slot (follow f way)).map mark

/-- The nodes with one put into a slot: in the place of the first that is there, or as the last. -/
def place (slot : String) (n : LoadNode) : List LoadNode → List LoadNode
  | [] => [n]
  | m :: rest => if m.slot = slot then n :: rest else m :: place slot n rest

/-- Nodes in slots of their own, with paths that continue that of their parent. -/
inductive Grown : String → List LoadNode → Prop where
  | nil {parent : String} : Grown parent []
  | cons {parent relation slot : String} {modifier : Option String} {passing : Bool}
      {children rest : List LoadNode} (hchildren : Grown (extendPath parent slot) children)
      (hrest : Grown parent rest) (hfresh : ∀ m ∈ rest, m.slot ≠ slot) :
      Grown parent
        (⟨relation, slot, modifier, extendPath parent slot, passing, children⟩ :: rest)

/-- The same trees up to the order of siblings. -/
inductive Rearranged : List LoadNode → List LoadNode → Prop where
  | nil : Rearranged [] []
  | cons {relation slot path : String} {modifier : Option String} {passing : Bool}
      {children children' rest rest' : List LoadNode} (hchildren : Rearranged children children')
      (hrest : Rearranged rest rest') :
      Rearranged (⟨relation, slot, modifier, path, passing, children⟩ :: rest)
        (⟨relation, slot, modifier, path, passing, children'⟩ :: rest')
  | swap (n m : LoadNode) (rest : List LoadNode) : Rearranged (n :: m :: rest) (m :: n :: rest)
  | trans {f g h : List LoadNode} (hfg : Rearranged f g) (hgh : Rearranged g h) : Rearranged f h

variable {f f' : List LoadNode} {n : LoadNode} {parent slot : String}

theorem inSlot?_cons (s : String) (m : LoadNode) (rest : List LoadNode) :
    inSlot? s (m :: rest) = if m.slot = s then some m else inSlot? s rest := by
  unfold inSlot?
  rw [List.find?_cons]
  by_cases hm : m.slot = s <;> simp [hm]

theorem slot_of_inSlot? (h : inSlot? slot f = some n) : n.slot = slot := by
  simpa using List.find?_some h

theorem inSlot?_place (hn : n.slot = slot) (s : String) :
    inSlot? s (place slot n f) = if s = slot then some n else inSlot? s f := by
  induction f with
  | nil =>
    rw [place, inSlot?_cons, hn]
    by_cases hs : s = slot
    · rw [if_pos hs.symm, if_pos hs]
    · rw [if_neg (Ne.symm hs), if_neg hs]
  | cons m rest ih =>
    rw [place]
    by_cases hm : m.slot = slot
    · rw [if_pos hm, inSlot?_cons, inSlot?_cons, hn, hm]
      by_cases hs : s = slot
      · rw [if_pos hs.symm, if_pos hs]
      · rw [if_neg (Ne.symm hs), if_neg hs, if_neg (Ne.symm hs)]
    · rw [if_neg hm, inSlot?_cons, inSlot?_cons, ih]
      by_cases hms : m.slot = s
      · rw [if_pos hms, if_pos hms, if_neg (fun hs => hm (hms.trans hs))]
      · rw [if_neg hms, if_neg hms]

/-- A change in a slot is a change of the node that is there, or of a fresh one, and nothing else.
-/
theorem changeSlot_eq (slot : String) (change : LoadNode → Except PlanFault LoadNode)
    (fresh : LoadNode) (f : List LoadNode) : changeSlot slot change fresh f =
      (change ((inSlot? slot f).getD fresh)).map fun n => place slot n f := by
  induction f with
  | nil =>
    have hfresh : (inSlot? slot []).getD fresh = fresh := rfl
    rw [changeSlot, hfresh]
    cases change fresh <;> rfl
  | cons m rest ih =>
    rw [changeSlot, inSlot?_cons]
    by_cases hm : m.slot = slot
    · rw [if_pos hm, if_pos hm, Option.getD_some]
      cases change m with
      | error e => rfl
      | ok n => simp [place, hm, Except.map, bind, Except.bind, pure, Except.pure]
    · rw [if_neg hm, if_neg hm, ih]
      cases change ((inSlot? slot rest).getD fresh) with
      | error e => rfl
      | ok n => simp [place, hm, Except.map, bind, Except.bind, pure, Except.pure]

/-! ## Grown trees -/

theorem Grown.inSlot (h : Grown parent f) (hn : inSlot? slot f = some n) :
    n.path = extendPath parent slot ∧ Grown n.path n.children := by
  induction h with
  | nil => cases hn
  | cons hchildren _ _ _ ih =>
    rw [inSlot?_cons] at hn
    split at hn
    · next hslot =>
      cases hn
      subst hslot
      exact ⟨rfl, hchildren⟩
    · exact ih hn

theorem mem_place {m : LoadNode} (h : m ∈ place slot n f) : m = n ∨ m ∈ f := by
  induction f with
  | nil => exact .inl (List.mem_singleton.1 h)
  | cons k rest ih =>
    rw [place] at h
    split at h
    · obtain rfl | h := List.mem_cons.1 h
      · exact .inl rfl
      · exact .inr (List.mem_cons_of_mem _ h)
    · obtain rfl | h := List.mem_cons.1 h
      · exact .inr (List.mem_cons_self ..)
      · exact (ih h).imp_right (List.mem_cons_of_mem _)

theorem Grown.place (h : Grown parent f) (hslot : n.slot = slot)
    (hpath : n.path = extendPath parent slot) (hchildren : Grown n.path n.children) :
    Grown parent (place slot n f) := by
  obtain ⟨relation, _, modifier, _, passing, children⟩ := n
  dsimp only at hslot hpath hchildren
  subst hslot hpath
  induction h with
  | nil => exact .cons hchildren .nil fun _ h => nomatch h
  | @cons parent _ other _ _ _ rest hbelow hrest hfresh _ ih =>
    rw [LoadNode.place]
    split
    · next heq =>
      dsimp only at heq
      subst heq
      exact .cons hchildren hrest hfresh
    · next hne =>
      refine .cons hbelow (ih hchildren) ?_
      intro m hm
      obtain rfl | hm := mem_place hm
      · exact Ne.symm hne
      · exact hfresh m hm

/-! ## Marks -/

theorem mark?_nil (f : List LoadNode) (slot : String) :
    mark? f [] slot = (inSlot? slot f).map mark := rfl

theorem mark?_cons (f : List LoadNode) (s : String) (way : List String) (slot : String) :
    mark? f (s :: way) slot = mark? ((inSlot? s f).elim [] children) way slot := rfl

theorem mark?_empty (way : List String) (slot : String) : mark? [] way slot = none := by
  induction way with
  | nil => rfl
  | cons s way ih => exact ih

/-- The node through which a way leads on: the one that is there, or one on the way. -/
def step (parent slot : String) (f : List LoadNode) : LoadNode :=
  (inSlot? slot f).getD (onTheWay parent slot)

theorem step_slot (parent slot : String) (f : List LoadNode) :
    (step parent slot f).slot = slot := by
  unfold step
  cases h : inSlot? slot f with
  | none => rfl
  | some n => exact slot_of_inSlot? h

theorem step_children (parent slot : String) (f : List LoadNode) :
    (step parent slot f).children = (inSlot? slot f).elim [] children := by
  unfold step
  cases inSlot? slot f <;> rfl

theorem step_mark (parent slot : String) (f : List LoadNode) :
    (step parent slot f).mark = (mark? f [] slot).getD (.onTheWay slot) := by
  unfold step
  rw [mark?_nil]
  cases inSlot? slot f <;> rfl

theorem Grown.step (h : Grown parent f) (slot : String) :
    (step parent slot f).path = extendPath parent slot ∧
      Grown (LoadNode.step parent slot f).path (LoadNode.step parent slot f).children := by
  unfold LoadNode.step
  cases hslot : inSlot? slot f with
  | none => exact ⟨rfl, .nil⟩
  | some n => exact h.inSlot hslot

/-- A goal at the end of a longer way is inserted below the first node on the way. -/
theorem insert_cons (g : LoadGoal) (parent s : String) (way : List String) (f : List LoadNode) :
    insert g parent (s :: way) f =
      (insert g (step parent s f).path way (step parent s f).children).map fun below =>
        place s { step parent s f with children := below } f := by
  rw [insert, changeSlot_eq]
  show Except.map _ (insert g (step parent s f).path way (step parent s f).children >>= _) = _
  cases insert g (step parent s f).path way (step parent s f).children <;> rfl

theorem insert_nil (g : LoadGoal) (parent : String) (f : List LoadNode) :
    insert g parent [] f =
      (meet parent g ((inSlot? g.slot f).getD (ofGoal parent g))).map fun n =>
        place g.slot n f := by
  rw [insert, changeSlot_eq]

theorem isOk_map {α β : Type} {x : Except PlanFault α} {k : α → β} :
    (x.map k).isOk = x.isOk := by
  cases x <;> rfl

theorem eq_ok_of_map {α β : Type} {x : Except PlanFault α} {k : α → β} {b : β}
    (h : x.map k = .ok b) : ∃ a, x = .ok a ∧ k a = b := by
  cases x with
  | error e => cases h
  | ok a => exact ⟨a, rfl, Except.ok.inj h⟩

/-- There is room for a goal where its slot admits it. -/
theorem insert_isOk (g : LoadGoal) (parent : String) (way : List String) (f : List LoadNode) :
    (insert g parent way f).isOk = true ↔ g.Admitted (mark? f way g.slot) := by
  induction way generalizing parent f with
  | nil =>
    rw [insert_nil, isOk_map, mark?_nil]
    cases hslot : inSlot? g.slot f with
    | none => simp [meet, ofGoal, LoadGoal.Admitted, Except.isOk, Except.toBool]
    | some n =>
      rw [Option.getD_some, Option.map_some, meet]
      by_cases hr : n.relation = g.relation
      · by_cases hm : n.modifier = g.modifier
        · simp [hr, hm, LoadGoal.Admitted, mark, Except.isOk, Except.toBool]
        · cases hp : n.passing <;>
            simp [hr, hm, hp, LoadGoal.Admitted, mark, Except.isOk, Except.toBool]
      · simp [hr, LoadGoal.Admitted, mark, Except.isOk, Except.toBool]
  | cons s way ih =>
    rw [insert_cons, isOk_map, ih, mark?_cons, step_children]

/-- A node that a goal meets takes on its mark, and keeps everything else. -/
theorem meet_ok {g : LoadGoal} {n n' : LoadNode} (h : meet parent g n = .ok n') :
    n' = { n with relation := g.relation, modifier := g.modifier, passing := false } := by
  unfold meet at h
  split at h
  · next hsame =>
    cases h
    rw [← hsame.1, ← hsame.2]
  · split at h
    · next hpassing =>
      cases h
      rw [← hpassing.2]
    · cases h

/-- The marks after a goal was inserted: its own in its slot, and marks of nodes on the way where
there were none. -/
def marksAfter (g : LoadGoal) (way : List String)
    (marks : List String → String → Option LoadMark) (way' : List String) (slot : String) :
    Option LoadMark :=
  if way' = way ∧ slot = g.slot then some g.mark
  else if way' ++ [slot] <+: way then some ((marks way' slot).getD (.onTheWay slot))
  else marks way' slot

theorem marksAfter_cons (g : LoadGoal) (s : String) (way : List String) (f : List LoadNode)
    (w : List String) (slot : String) :
    marksAfter g (s :: way) (mark? f) (s :: w) slot =
      marksAfter g way (mark? ((inSlot? s f).elim [] children)) w slot := by
  have hprefix : (s :: w) ++ [slot] <+: s :: way ↔ w ++ [slot] <+: way := by
    rw [List.cons_append, List.prefix_cons_inj]
  simp only [marksAfter, List.cons_inj_right, hprefix, mark?_cons]

theorem insert_marks {g : LoadGoal} {way : List String} (h : insert g parent way f = .ok f')
    (way' : List String) (slot : String) :
    mark? f' way' slot = marksAfter g way (mark? f) way' slot := by
  induction way generalizing parent f f' way' with
  | nil =>
    rw [insert_nil] at h
    obtain ⟨n, hn, rfl⟩ := eq_ok_of_map h
    have hmeet := meet_ok hn
    have hslot : n.slot = g.slot := by
      rw [hmeet]
      show ((inSlot? g.slot f).getD (ofGoal parent g)).slot = g.slot
      cases hs : inSlot? g.slot f with
      | none => rfl
      | some m => exact slot_of_inSlot? hs
    have hplace := inSlot?_place (f := f) hslot
    have hnever : ¬ way' ++ [slot] <+: [] := by
      rw [List.prefix_nil, List.append_eq_nil_iff]
      exact fun h => nomatch h.2
    cases way' with
    | nil =>
      rw [mark?_nil, hplace, marksAfter, if_neg hnever]
      by_cases hs : slot = g.slot
      · rw [if_pos hs, if_pos ⟨rfl, hs⟩, hmeet]
        rfl
      · rw [if_neg hs, if_neg (fun h => hs h.2)]
        rfl
    | cons s w =>
      -- what is below the slot stays there
      have hbelow : (inSlot? s (place g.slot n f)).elim [] children =
          (inSlot? s f).elim [] children := by
        rw [hplace]
        by_cases hs : s = g.slot
        · rw [if_pos hs, hmeet, hs]
          cases inSlot? g.slot f <;> rfl
        · rw [if_neg hs]
      rw [mark?_cons, hbelow, marksAfter, if_neg hnever, if_neg (fun h => nomatch h.1), mark?_cons]
  | cons s way ih =>
    rw [insert_cons] at h
    obtain ⟨below, hbelow, rfl⟩ := eq_ok_of_map h
    have hplace := inSlot?_place (f := f) (n := { step parent s f with children := below })
      (step_slot parent s f)
    cases way' with
    | nil =>
      have hnever : ¬ ([] = s :: way ∧ slot = g.slot) := fun h => nomatch h.1
      rw [mark?_nil, hplace, marksAfter, if_neg hnever]
      by_cases hs : slot = s
      · have hprefix : [] ++ [slot] <+: s :: way := by
          rw [hs]
          exact ⟨way, rfl⟩
        rw [if_pos hs, if_pos hprefix, hs, ← step_mark parent]
        rfl
      · have hprefix : ¬ [] ++ [slot] <+: s :: way := by
          intro h
          exact hs (List.cons_prefix_cons.1 h).1
        rw [if_neg hs, if_neg hprefix]
        rfl
    | cons s' w =>
      rw [mark?_cons, hplace]
      by_cases hs : s' = s
      · subst hs
        rw [if_pos rfl, marksAfter_cons g s' way f, ← step_children parent]
        exact ih hbelow w
      · have hprefix : ¬ (s' :: w) ++ [slot] <+: s :: way := by
          intro h
          exact hs (List.cons_prefix_cons.1 h).1
        rw [if_neg hs, marksAfter, if_neg hprefix, if_neg (fun h => hs (List.cons.inj h.1).1),
          mark?_cons]

/-- Grown trees stay grown. -/
theorem Grown.insert {g : LoadGoal} {way : List String} (h : Grown parent f)
    (hf : LoadNode.insert g parent way f = .ok f') : Grown parent f' := by
  induction way generalizing parent f f' with
  | nil =>
    rw [insert_nil] at hf
    obtain ⟨n, hn, rfl⟩ := eq_ok_of_map hf
    have hmeet := meet_ok hn
    subst hmeet
    cases hs : inSlot? g.slot f with
    | none => exact h.place rfl rfl .nil
    | some m =>
      have hslot : m.slot = g.slot := slot_of_inSlot? hs
      obtain ⟨hpath, hchildren⟩ := h.inSlot hs
      exact h.place hslot hpath hchildren
  | cons s way ih =>
    rw [insert_cons] at hf
    obtain ⟨below, hbelow, rfl⟩ := eq_ok_of_map hf
    obtain ⟨hpath, hchildren⟩ := h.step s
    exact h.place (step_slot parent s f) hpath (ih hchildren hbelow)

/-! ## Trees with the same marks -/

theorem Rearranged.cons_node {rest rest' : List LoadNode} (m n : LoadNode) (hmark : m.mark = n.mark)
    (hslot : m.slot = n.slot) (hpath : m.path = n.path)
    (hchildren : Rearranged m.children n.children) (hrest : Rearranged rest rest') :
    Rearranged (m :: rest) (n :: rest') := by
  obtain ⟨relation, s, modifier, path, passing, children⟩ := m
  obtain ⟨relation', s', modifier', path', passing', children'⟩ := n
  obtain ⟨rfl, rfl, rfl⟩ := LoadMark.mk.inj hmark
  dsimp only at hslot hpath
  subst hslot hpath
  exact .cons hchildren hrest

/-- The nodes without the one in a slot. -/
def without (slot : String) (f : List LoadNode) : List LoadNode := f.filter fun n => n.slot ≠ slot

theorem inSlot?_without (s : String) :
    inSlot? s (without slot f) = if s = slot then none else inSlot? s f := by
  induction f with
  | nil => split <;> rfl
  | cons m rest ih =>
    rw [without, List.filter_cons, inSlot?_cons]
    by_cases hm : m.slot = slot
    · by_cases hs : s = slot
      · simpa [hm, hs, without] using ih
      · have hms : m.slot ≠ s := fun h => hs (h.symm.trans hm)
        simpa [hm, hs, hms, without, Ne.symm hs] using ih
    · by_cases hms : m.slot = s
      · have hs : s ≠ slot := fun h => hm (hms.trans h)
        simp [hms, hs, inSlot?_cons]
      · simpa [hm, hms, inSlot?_cons, without] using ih

theorem Grown.removed (h : Grown parent f) (slot : String) : Grown parent (without slot f) := by
  induction h with
  | nil => exact .nil
  | @cons parent relation s _ _ _ rest hchildren hrest hfresh _ ih =>
    rw [without, List.filter_cons]
    split
    · refine .cons hchildren ih ?_
      intro m hm
      exact hfresh m (List.mem_filter.1 hm).1
    · exact ih

theorem without_fresh (h : ∀ m ∈ f, m.slot ≠ slot) : without slot f = f := by
  rw [without, List.filter_eq_self]
  intro m hm
  exact decide_eq_true (h m hm)

theorem mark?_without (way : List String) (s : String) :
    mark? (without slot f) way s = if way.headD s = slot then none else mark? f way s := by
  cases way with
  | nil =>
    rw [mark?_nil, inSlot?_without, List.headD_nil]
    split <;> rfl
  | cons s' way =>
    rw [mark?_cons, inSlot?_without, List.headD_cons]
    split
    · exact mark?_empty way s
    · rfl

theorem Grown.rearranged (h : Grown parent f) : Rearranged f f := by
  induction h with
  | nil => exact .nil
  | cons _ _ _ ihchildren ihrest => exact .cons ihchildren ihrest

/-- Any node may stand first. -/
theorem Grown.first (h : Grown parent f) (hn : inSlot? slot f = some n) :
    Rearranged (n :: without slot f) f := by
  induction h with
  | nil => cases hn
  | @cons parent relation s modifier passing children rest hchildren hrest hfresh _ ih =>
    -- slots are filled once, so without the first node in a slot nothing else is missing
    rw [inSlot?_cons] at hn
    by_cases hs : s = slot
    · rw [if_pos hs] at hn
      subst hs
      cases hn
      rw [without, List.filter_cons, if_neg (by simp)]
      rw [← without, without_fresh hfresh]
      exact (Grown.cons hchildren hrest hfresh).rearranged
    · rw [if_neg hs] at hn
      rw [without, List.filter_cons, if_pos (by simpa using hs), ← without]
      exact .trans (.swap _ _ _) (.cons hchildren.rearranged (ih hn))

/-- Trees with the same marks are the same up to the order of siblings. -/
theorem rearranged_of_marks (h : Grown parent f) (h' : Grown parent f')
    (hmarks : ∀ way slot, mark? f way slot = mark? f' way slot) : Rearranged f f' := by
  induction h generalizing f' with
  | nil =>
    cases h' with
    | nil => exact .nil
    | @cons _ relation s modifier passing children rest _ _ _ =>
      have hmark := hmarks [] s
      rw [mark?_nil, mark?_nil, inSlot?_cons, if_pos rfl] at hmark
      cases hmark
  | @cons parent relation s modifier passing children rest hchildren hrest hfresh ihchildren
      ihrest =>
    have hn : inSlot? s (⟨relation, s, modifier, extendPath parent s, passing, children⟩ :: rest) =
        some ⟨relation, s, modifier, extendPath parent s, passing, children⟩ := by
      rw [inSlot?_cons, if_pos rfl]
    have hmark := hmarks [] s
    rw [mark?_nil, mark?_nil, hn] at hmark
    obtain ⟨n', hn', hmark'⟩ := Option.map_eq_some_iff.1 hmark.symm
    obtain ⟨hpath', hchildren'⟩ := h'.inSlot hn'
    -- the other tree has a node with the same mark in this slot, and it may stand first
    refine .trans (.cons_node _ n' hmark'.symm (slot_of_inSlot? hn').symm hpath'.symm ?_ ?_)
      (h'.first hn')
    · rw [hpath'] at hchildren'
      refine ihchildren hchildren' ?_
      intro way slot
      have hbelow := hmarks (s :: way) slot
      rwa [mark?_cons, mark?_cons, hn, hn'] at hbelow
    · refine ihrest (h'.removed s) ?_
      intro way slot
      have hrest' : without s (⟨relation, s, modifier, extendPath parent s, passing, children⟩ ::
          rest) = rest := by
        rw [without, List.filter_cons, if_neg (by simp), ← without, without_fresh hfresh]
      rw [← hrest', mark?_without, mark?_without, hmarks]

end LoadNode
end PolyQuery
