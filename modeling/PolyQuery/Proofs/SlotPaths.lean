import Mathlib.Data.List.Nodup
import PolyQuery.Proofs.LoadOrder
import PolyQuery.Proofs.Trie

/-! The paths of nodes. A path is the way to its node with points between the slots, and the paths of
a forest come level by level: `paths_order`. An alias may hold points itself; then its path can be
that of another node, and this is the only way in which two nodes get one path: `forest_paths`. -/
namespace PolyQuery

/-! ## Levels -/

namespace LoadNode
open forestLevels
variable {f : List LoadNode} {before : List String}

/-- The paths of one level. -/
def pathsAt (levels : List (List String)) (k : Nat) : List String := levels[k]?.getD []

theorem pathsAt_mergeLevels (xs ys : List (List String)) (k : Nat) :
    pathsAt (mergeLevels xs ys) k = pathsAt xs k ++ pathsAt ys k := by
  induction xs generalizing ys k with
  | nil => simp [mergeLevels, pathsAt]
  | cons x xs ih =>
    cases ys with
    | nil => simp [mergeLevels, pathsAt]
    | cons y ys =>
      cases k with
      | zero => rfl
      | succ k => exact ih ys k

/-- The nodes of a level have ways of one length. -/
def atDepth (k : Nat) (places : List (List String × LoadNode)) : List (List String × LoadNode) :=
  places.filter fun p => p.1.length = k

theorem atDepth_append (k : Nat) (places others : List (List String × LoadNode)) :
    atDepth k (places ++ others) = atDepth k places ++ atDepth k others := List.filter_append ..

mutual

/-- Ways below a node are longer than what stands before it. -/
theorem length_placed (before : List String) : (n : LoadNode) → ∀ p ∈ n.placed before,
    before.length < p.1.length
  | ⟨relation, slot, modifier, path, passing, children⟩, p, hp => by
    rw [placed] at hp
    rcases List.mem_cons.1 hp with rfl | hp
    · simp
    · have hlength := length_placedAll (before ++ [slot]) children p hp
      rw [List.length_append, List.length_singleton] at hlength
      omega

theorem length_placedAll (before : List String) : (f : List LoadNode) →
    ∀ p ∈ placedAll before f, before.length < p.1.length
  | [], p, hp => nomatch hp
  | n :: rest, p, hp => by
    rw [placedAll] at hp
    rcases List.mem_append.1 hp with hp | hp
    · exact length_placed before n p hp
    · exact length_placedAll before rest p hp

end

mutual

/-- A level lists the nodes whose ways have its length. -/
theorem pathsAt_levels (before : List String) : (n : LoadNode) → ∀ k, pathsAt n.levels k =
    (atDepth (before.length + k + 1) (n.placed before)).map fun p => p.2.path
  | ⟨relation, slot, modifier, path, passing, children⟩, k => by
    rw [levels, placed, atDepth, List.filter_cons]
    cases k with
    | zero =>
      -- what is below lies deeper than the node itself
      have hnone : (placedAll (before ++ [slot]) children).filter
          (fun p => decide (p.1.length = before.length + 0 + 1)) = [] := by
        rw [List.filter_eq_nil_iff]
        intro p hp
        have hlength := length_placedAll (before ++ [slot]) children p hp
        rw [List.length_append, List.length_singleton] at hlength
        simp only [decide_eq_true_eq]
        omega
      rw [hnone, if_pos (by simp)]
      rfl
    | succ k =>
      have hbelow := pathsAt_forestLevels (before ++ [slot]) children k
      rw [List.length_append, List.length_singleton] at hbelow
      rw [if_neg (by simp)]
      have hdepth : before.length + (k + 1) + 1 = before.length + 1 + k + 1 := by omega
      rw [hdepth]
      exact hbelow

theorem pathsAt_forestLevels (before : List String) : (f : List LoadNode) → ∀ k,
    pathsAt (forestLevels f) k =
      (atDepth (before.length + k + 1) (placedAll before f)).map fun p => p.2.path
  | [], k => rfl
  | n :: rest, k => by
    rw [forestLevels, pathsAt_mergeLevels, placedAll, atDepth_append, List.map_append,
      pathsAt_levels before n k, pathsAt_forestLevels before rest k]

end

/-- A list is put together again from those of its members that have each of the keys. -/
theorem perm_flatMap_filter {α : Type} (key : α → Nat) {n : Nat} {xs : List α}
    (h : ∀ x ∈ xs, key x < n) :
    ((List.range n).flatMap fun k => xs.filter fun x => key x = k).Perm xs := by
  induction n generalizing xs with
  | zero =>
    have hnil : xs = [] := List.eq_nil_iff_forall_not_mem.2 fun x hx => absurd (h x hx) (by omega)
    rw [hnil]
    rfl
  | succ n ih =>
    -- the members with the last key come behind all others
    have hothers : ((List.range n).flatMap fun k => xs.filter fun x => key x = k) =
        (List.range n).flatMap fun k =>
          (xs.filter fun x => !decide (key x = n)).filter fun x => key x = k := by
      refine List.flatMap_congr fun k hk => ?_
      rw [List.filter_filter]
      refine List.filter_congr fun x _ => ?_
      have hlt := List.mem_range.1 hk
      by_cases hkey : key x = k
      · have hn : key x ≠ n := by omega
        simp [hkey, hkey ▸ hn]
      · simp [hkey]
    rw [List.range_succ, List.flatMap_append, List.flatMap_singleton, hothers]
    have hbelow : ∀ x ∈ xs.filter fun x => !decide (key x = n), key x < n := by
      intro x hx
      obtain ⟨hmem, hkey⟩ := List.mem_filter.1 hx
      have hlt := h x hmem
      simp only [Bool.not_eq_true', decide_eq_false_iff_not] at hkey
      omega
    exact ((ih hbelow).append_right _).trans
      (List.perm_append_comm.trans (List.filter_append_perm (fun x => decide (key x = n)) xs))

theorem flatten_eq (levels : List (List String)) :
    levels.flatten = (List.range levels.length).flatMap (pathsAt levels) := by
  induction levels with
  | nil => rfl
  | cons level levels ih =>
    rw [List.flatten_cons, ih, List.length_cons, List.range_succ_eq_map, List.flatMap_cons,
      List.flatMap_map]
    rfl

/-- The paths come level by level. -/
theorem paths_order (f : List LoadNode) : ∃ order : List (List String × LoadNode),
    order.Perm (placedAll [] f) ∧ order.Pairwise (fun p q => p.1.length ≤ q.1.length) ∧
      paths f = order.map fun p => p.2.path := by
  have hlevel (k : Nat) : pathsAt (forestLevels f) k =
      (atDepth (k + 1) (placedAll [] f)).map fun p => p.2.path := by
    rw [pathsAt_forestLevels [] f k, List.length_nil, Nat.zero_add]
  -- behind the last level there is no node
  have hdeep : ∀ p ∈ placedAll [] f, p.1.length - 1 < (forestLevels f).length := by
    intro p hp
    have hpositive := length_placedAll [] f p hp
    by_contra hlast
    have hnone : pathsAt (forestLevels f) (p.1.length - 1) = [] := by
      rw [pathsAt, List.getElem?_eq_none (by omega)]
      rfl
    rw [hlevel, List.map_eq_nil_iff, atDepth, List.filter_eq_nil_iff] at hnone
    refine hnone p hp ?_
    rw [List.length_nil] at hpositive
    simp only [decide_eq_true_eq]
    omega
  refine ⟨(List.range (forestLevels f).length).flatMap fun k => atDepth (k + 1) (placedAll [] f),
    ?_, ?_, ?_⟩
  · refine (List.Perm.of_eq (List.flatMap_congr fun k _ => List.filter_congr fun p hp => ?_)).trans
      (perm_flatMap_filter (fun p => p.1.length - 1) hdeep)
    have hpositive := length_placedAll [] f p hp
    rw [List.length_nil] at hpositive
    exact decide_eq_decide.2 (by omega)
  · rw [List.pairwise_flatMap]
    have hlength {k : Nat} {p : List String × LoadNode}
        (hp : p ∈ atDepth (k + 1) (placedAll [] f)) : p.1.length = k + 1 := by
      simpa using (List.mem_filter.1 hp).2
    refine ⟨fun k _ => List.pairwise_of_forall_mem_list fun p hp q hq => ?_,
      List.pairwise_lt_range.imp fun hlt p hp q hq => ?_⟩
    · exact Nat.le_of_eq ((hlength hp).trans (hlength hq).symm)
    · rw [hlength hp, hlength hq]
      omega
  · rw [paths, flatten_eq, List.map_flatMap]
    exact List.flatMap_congr fun k _ => hlevel k

/-! ## Siblings -/

theorem Grown.nodup_slots {parent : String} (h : Grown parent f) : (f.map LoadNode.slot).Nodup := by
  induction h with
  | nil => exact List.nodup_nil
  | cons _ _ hfresh _ ihrest =>
    refine List.nodup_cons.2 ⟨fun hmem => ?_, ihrest⟩
    obtain ⟨m, hm, hslot⟩ := List.mem_map.1 hmem
    exact hfresh m hm hslot

theorem Grown.inSlot?_of_mem {parent : String} {n : LoadNode} (h : Grown parent f) (hn : n ∈ f) :
    inSlot? n.slot f = some n := by
  induction h with
  | nil => cases hn
  | cons _ _ hfresh _ ihrest =>
    rw [inSlot?_cons]
    rcases List.mem_cons.1 hn with rfl | hn
    · exact if_pos rfl
    · rw [if_neg (hfresh n hn).symm]
      exact ihrest hn

theorem Grown.follow {parent : String} (h : Grown parent f) (way : List String) :
    ∃ path, Grown path (follow f way) := by
  induction way generalizing parent f with
  | nil => exact ⟨parent, h⟩
  | cons s way ih =>
    rw [LoadNode.follow]
    cases hs : inSlot? s f with
    | none =>
      have hnil : Grown parent [] := .nil
      exact ih hnil
    | some n => exact ih (h.inSlot hs).2

/-- The nodes below a node stand one slot behind it. -/
theorem Grown.child_placed {parent : String} (h : Grown parent f) {w : List String} {n c : LoadNode}
    (hn : (w, n) ∈ placedAll [] f) (hc : c ∈ n.children) : (w ++ [c.slot], c) ∈ placedAll [] f := by
  obtain ⟨way, rfl, hslot⟩ := (mem_placedAll h).1 hn
  have hfollow : LoadNode.follow f ([] ++ way ++ [n.slot]) = n.children := by
    rw [List.nil_append, follow_concat, hslot]
    rfl
  obtain ⟨path, hgrown⟩ := h.follow ([] ++ way ++ [n.slot])
  refine (mem_placedAll h).2 ⟨[] ++ way ++ [n.slot], rfl, hgrown.inSlot?_of_mem ?_⟩
  rwa [hfollow]

/-! ## Points in slots -/

/-- A way and a slot, taken apart at its points. -/
def spelled (way : List String) (slot : String) : List String :=
  way ++ (Dialect.dottedParts slot.toList).map String.ofList

/-- No point stands in a text. -/
def Pointless (s : String) : Prop := '.' ∉ s.toList

theorem not_mem_dottedParts {cs part : List Char} (h : part ∈ Dialect.dottedParts cs) :
    '.' ∉ part := by
  induction cs generalizing part with
  | nil =>
    rw [Dialect.dottedParts, List.mem_singleton] at h
    rw [h]
    exact List.not_mem_nil
  | cons c cs ih =>
    rw [Dialect.dottedParts] at h
    split at h
    · rcases List.mem_cons.1 h with rfl | h
      · exact List.not_mem_nil
      · exact ih h
    -- a character that is no point is put in front of the first part of the rest
    · next hc =>
      split at h
      · next p ps hparts =>
        rcases List.mem_cons.1 h with rfl | h
        · rw [List.mem_cons]
          rintro (heq | hmem)
          · exact hc heq.symm
          · exact ih (hparts ▸ List.mem_cons_self) hmem
        · exact ih (hparts ▸ List.mem_cons_of_mem p h)
      · rw [List.mem_singleton.1 h, List.mem_singleton]
        exact fun heq => hc heq.symm

theorem intercalate_toList (texts : List String) :
    (".".intercalate texts).toList = ['.'].intercalate (texts.map String.toList) := by
  rw [String.toList_intercalate]
  rfl

theorem dottedParts_ne_nil (cs : List Char) : Dialect.dottedParts cs ≠ [] := by
  rw [Quoting.dottedParts_eq]
  exact List.splitOn_ne_nil '.' cs

/-- A way and a slot have one text, whether or not the slot is taken apart. -/
theorem intercalate_spelled (way : List String) (slot : String) :
    ".".intercalate (spelled way slot) = ".".intercalate (way ++ [slot]) := by
  have hslot : ".".intercalate ((Dialect.dottedParts slot.toList).map String.ofList) = slot := by
    have hparts : ((Dialect.dottedParts slot.toList).map String.ofList).map String.toList =
        Dialect.dottedParts slot.toList := by
      rw [List.map_map]
      exact List.map_id'' (fun cs => String.toList_ofList) _
    rw [← String.toList_inj, intercalate_toList, hparts, Quoting.dottedParts_eq,
      List.intercalate_splitOn]
  cases way with
  | nil => rw [spelled, List.nil_append, hslot, List.nil_append, String.intercalate_singleton]
  | cons s way =>
    have hparts : (Dialect.dottedParts slot.toList).map String.ofList ≠ [] := by
      simpa using dottedParts_ne_nil slot.toList
    rw [spelled, String.intercalate_append_of_ne_nil (List.cons_ne_nil _ _) hparts, hslot,
      String.intercalate_append_of_ne_nil (List.cons_ne_nil _ _) (List.cons_ne_nil _ _),
      String.intercalate_singleton]

theorem pointless_of_mem_spelled {way : List String} {slot s : String}
    (h : ∀ s ∈ way, Pointless s) (hs : s ∈ spelled way slot) : Pointless s := by
  rcases List.mem_append.1 hs with hs | hs
  · exact h s hs
  · obtain ⟨part, hpart, rfl⟩ := List.mem_map.1 hs
    rw [Pointless, String.toList_ofList]
    exact not_mem_dottedParts hpart

/-- Texts without points in them are told apart at the points between them. -/
theorem intercalate_inj {texts texts' : List String} (hne : texts ≠ []) (hne' : texts' ≠ [])
    (h : ∀ s ∈ texts, Pointless s) (h' : ∀ s ∈ texts', Pointless s)
    (htext : ".".intercalate texts = ".".intercalate texts') : texts = texts' := by
  have hsplit {texts : List String} (hne : texts ≠ []) (h : ∀ s ∈ texts, Pointless s) :
      (".".intercalate texts).toList.splitOn '.' = texts.map String.toList := by
    rw [intercalate_toList]
    refine List.splitOn_intercalate '.' ?_ (by simpa using hne)
    intro cs hcs
    obtain ⟨s, hs, rfl⟩ := List.mem_map.1 hcs
    exact h s hs
  have hmaps := hsplit hne h
  rw [htext, hsplit hne' h'] at hmaps
  exact (List.map_injective_iff.2 fun _ _ => String.toList_inj.1) hmaps.symm

/-- A slot without points is its only part. -/
theorem spelled_pointless {way : List String} {slot : String} (h : Pointless slot) :
    spelled way slot = way ++ [slot] := by
  have hparts : (Dialect.dottedParts slot.toList).map String.ofList = [slot] := by
    refine intercalate_inj (by simpa using dottedParts_ne_nil slot.toList) (List.cons_ne_nil _ _)
      (fun s hs => pointless_of_mem_spelled (List.forall_mem_nil Pointless) hs) (by simpa using h)
      (intercalate_spelled [] slot)
  rw [spelled, hparts]

/-- Two ways with slots behind them have one text exactly if they are spelled alike. -/
theorem intercalate_eq_iff {way way' : List String} (h : ∀ s ∈ way, Pointless s)
    (h' : ∀ s ∈ way', Pointless s) (slot slot' : String) :
    ".".intercalate (way ++ [slot]) = ".".intercalate (way' ++ [slot']) ↔
      spelled way slot = spelled way' slot' := by
  have hne (way : List String) (slot : String) : spelled way slot ≠ [] :=
    List.append_ne_nil_of_right_ne_nil _ (by simpa using dottedParts_ne_nil slot.toList)
  rw [← intercalate_spelled, ← intercalate_spelled]
  exact ⟨intercalate_inj (hne _ _) (hne _ _) (fun _ => pointless_of_mem_spelled h)
    fun _ => pointless_of_mem_spelled h', fun heq => by rw [heq]⟩

end LoadNode

/-! ## Forests -/

namespace LoadRequest
open LoadNode
variable {requests : List LoadRequest} {f : List LoadNode}

theorem pointless_of_mem_segments {path s : String} (h : s ∈ segments path) : Pointless s := by
  obtain ⟨part, hpart, rfl⟩ := List.mem_map.1 h
  have hdrop {cs : List Char} {c : Char} (hc : c ∈ Text.dropBlanks cs) : c ∈ cs :=
    (List.dropWhile_sublist _).subset hc
  intro hpoint
  rw [Text.trim, String.toList_ofList, String.toList_ofList, Text.strip] at hpoint
  refine not_mem_dottedParts hpart (hdrop (List.mem_reverse.1 (hdrop (List.mem_reverse.1 hpoint))))

/-- The slots on the way to a target hold no points. -/
theorem pointless_of_mem_way {t : LoadTarget} (ht : t ∈ targets requests) {s : String}
    (hs : s ∈ t.way) : Pointless s := by
  obtain ⟨r, _, hr⟩ := mem_targets.1 ht
  obtain ⟨-, hsegments, -⟩ := target?_eq_some hr
  have hmem : s ∈ segments r.path := by
    rw [hsegments]
    exact List.mem_append_left _ hs
  exact pointless_of_mem_segments hmem

end LoadRequest

/-- The route of a target, its last slot taken apart at its points. -/
def LoadTarget.spelled (t : LoadTarget) : List String := LoadNode.spelled t.way t.goal.slot

namespace LoadRequest
open LoadNode
variable {requests : List LoadRequest} {f : List LoadNode}

/-- An alias with points in it spells the path to another node: to that of another target, or to one
that a path leads through. -/
def BlursPaths (requests : List LoadRequest) : Prop :=
  ∃ t ∈ targets requests, ¬ Pointless t.goal.slot ∧ ∃ u ∈ targets requests,
    (u.spelled = t.spelled ∧ u.route ≠ t.route) ∨ t.spelled <+: u.way

/-- What is known of the place of a node: some target fills it, or its slot holds no points and a target
passes it. The way before it holds no points either. -/
theorem place_of_mem (h : forest requests = .ok f) {w : List String} {n : LoadNode}
    (hn : (w, n) ∈ placedAll [] f) : ∃ way, w = way ++ [n.slot] ∧ (∀ s ∈ way, Pointless s) ∧
      ∃ t ∈ targets requests, t.way = way ∧ t.goal.slot = n.slot ∨
        Pointless n.slot ∧ w <+: t.way := by
  obtain ⟨way, rfl, -, -, t, ht, hroute⟩ := mem_placedAll_forest h hn
  rcases LoadTarget.prefix_route.1 hroute with ⟨hway, hslot⟩ | hpasses
  · exact ⟨way, rfl, fun s hs => pointless_of_mem_way ht (hway ▸ hs), t, ht, .inl ⟨hway, hslot⟩⟩
  · have hpointless : ∀ s ∈ way ++ [n.slot], Pointless s :=
      fun s hs => pointless_of_mem_way ht (hpasses.subset hs)
    exact ⟨way, rfl, fun s hs => hpointless s (List.mem_append_left _ hs), t, ht,
      .inr ⟨hpointless _ (List.mem_append_right _ (List.mem_singleton_self _)), hpasses⟩⟩

/-- Two nodes have one path exactly if their ways are spelled alike. -/
theorem path_eq_iff (h : forest requests = .ok f) {way way' : List String} {n m : LoadNode}
    (hn : (way ++ [n.slot], n) ∈ placedAll [] f) (hm : (way' ++ [m.slot], m) ∈ placedAll [] f) :
    n.path = m.path ↔ spelled way n.slot = spelled way' m.slot := by
  have hpointless {way : List String} {n : LoadNode}
      (hn : (way ++ [n.slot], n) ∈ placedAll [] f) : ∀ s ∈ way, Pointless s := by
    obtain ⟨way', hway, hpointless, -⟩ := place_of_mem h hn
    rwa [(List.append_singleton_inj.1 hway).1]
  rw [path_eq h hn, path_eq h hm]
  exact intercalate_eq_iff (hpointless hn) (hpointless hm) _ _

/-- Two nodes of one path, the slot of the first of which holds a point. -/
theorem blursPaths_of_path (h : forest requests = .ok f) {p q : List String × LoadNode}
    (hp : p ∈ placedAll [] f) (hq : q ∈ placedAll [] f) (hways : p.1 ≠ q.1)
    (hpath : p.2.path = q.2.path) (hpoint : ¬ Pointless p.2.slot) : BlursPaths requests := by
  obtain ⟨_, n⟩ := p
  obtain ⟨_, m⟩ := q
  obtain ⟨way, rfl, -, t, ht, hplace⟩ := place_of_mem h hp
  obtain ⟨way', rfl, -, u, hu, hplace'⟩ := place_of_mem h hq
  have hspelled := (path_eq_iff h hp hq).1 hpath
  obtain ⟨rfl, hslot⟩ := hplace.resolve_right fun hpasses => hpoint hpasses.1
  have ht' : t.spelled = spelled way' m.slot := by rw [LoadTarget.spelled, hslot, hspelled]
  refine ⟨t, ht, by rwa [hslot], u, hu, ?_⟩
  rcases hplace' with ⟨rfl, hslot'⟩ | ⟨hpointless, hpasses⟩
  · refine .inl ⟨by rw [ht', LoadTarget.spelled, hslot'], fun hroute => hways ?_⟩
    rw [LoadTarget.route, LoadTarget.route, hslot, hslot'] at hroute
    exact hroute.symm
  · rw [ht', spelled_pointless hpointless]
    exact .inr hpasses

/-- The node at the end of a beginning of a route. -/
theorem exists_node (h : forest requests = .ok f) {t : LoadTarget} (ht : t ∈ targets requests)
    {w : List String} (hne : w ≠ []) (hw : w <+: t.route) : ∃ n, (w, n) ∈ placedAll [] f := by
  obtain ⟨⟨_, n⟩, hn, rfl⟩ :=
    List.mem_map.1 ((mem_ways h w).2 ⟨hne, t.route, List.mem_map_of_mem ht, hw⟩)
  exact ⟨n, hn⟩

/-- No two nodes have one path, unless an alias blurs them. -/
theorem nodup_paths_iff (h : forest requests = .ok f) :
    (paths f).Nodup ↔ ¬ BlursPaths requests := by
  have hnodup := nodup_ways (forest_shows h).1 []
  have hinj : (paths f).Nodup ↔ ∀ p ∈ placedAll [] f, ∀ q ∈ placedAll [] f,
      p.2.path = q.2.path → p = q := by
    obtain ⟨order, hperm, -, hpaths⟩ := paths_order f
    rw [hpaths, (hperm.map _).nodup_iff]
    exact List.nodup_map_iff_inj_on hnodup.of_map
  rw [hinj]
  constructor
  · rintro hunique ⟨t, ht, hpoint, u, hu, hblurs⟩
    have hne (t : LoadTarget) : t.route ≠ [] := List.concat_ne_nil _ _
    obtain ⟨n, hn⟩ := exists_node h ht (hne t) (List.prefix_refl _)
    rcases hblurs with ⟨hspelled, hroutes⟩ | hpasses
    · obtain ⟨m, hm⟩ := exists_node h hu (hne u) (List.prefix_refl _)
      have hpath : n.path = m.path := by
        rw [path_eq h hn, path_eq h hm]
        exact (intercalate_eq_iff (fun _ => pointless_of_mem_way ht)
          (fun _ => pointless_of_mem_way hu) _ _).2 hspelled.symm
      exact hroutes (congrArg Prod.fst (hunique _ hn _ hm hpath)).symm
    · have hspelled : t.spelled ≠ [] := fun hnil =>
        List.append_ne_nil_of_right_ne_nil _ (by simpa using dottedParts_ne_nil _) hnil
      obtain ⟨m, hm⟩ := exists_node h hu hspelled (hpasses.trans (List.prefix_append _ _))
      have hpath : n.path = m.path := by
        rw [path_eq h hn, path_eq h hm]
        exact (intercalate_spelled _ _).symm
      -- the way of the second node holds no points, and that of the first one ends in a slot with one
      have hways : t.route = t.spelled := congrArg Prod.fst (hunique _ hn _ hm hpath)
      refine hpoint (pointless_of_mem_way hu (hpasses.subset ?_))
      rw [← hways]
      exact List.mem_append_right _ (List.mem_singleton_self _)
  · intro hclear p hp q hq hpath
    have hways : p.1 = q.1 := by
      by_contra hways
      by_cases hpoint : Pointless p.2.slot
      · by_cases hpoint' : Pointless q.2.slot
        · obtain ⟨_, n⟩ := p
          obtain ⟨_, m⟩ := q
          obtain ⟨way, rfl, -⟩ := place_of_mem h hp
          obtain ⟨way', rfl, -⟩ := place_of_mem h hq
          have hspelled := (path_eq_iff h hp hq).1 hpath
          rw [spelled_pointless hpoint, spelled_pointless hpoint'] at hspelled
          exact hways hspelled
        · exact hclear (blursPaths_of_path h hq hp (Ne.symm hways) hpath.symm hpoint')
      · exact hclear (blursPaths_of_path h hp hq hways hpath hpoint)
    exact List.inj_on_of_nodup_map hnodup hp hq hways

/-- Siblings have slots of their own, a path goes on from that of the parent by the slot, and paths
come level by level, so that parents stand before their children. That no path is listed twice holds
for all requests but those of which an alias with points blurs two paths. -/
theorem forest_paths {requests : List LoadRequest} {f : List LoadNode}
    (h : forest requests = .ok f) :
    ((f.map LoadNode.slot).Nodup ∧ ∀ n ∈ f, n.path = n.slot) ∧
      (∀ p ∈ placedAll [] f, (p.2.children.map LoadNode.slot).Nodup ∧ ∀ c ∈ p.2.children,
        (p.1 ++ [c.slot], c) ∈ placedAll [] f ∧ c.path = p.2.path ++ "." ++ c.slot) ∧
      (∃ order : List (List String × LoadNode), order.Perm (placedAll [] f) ∧
        order.Pairwise (fun p q => p.1.length ≤ q.1.length) ∧
          paths f = order.map fun p => p.2.path) ∧
      ((paths f).Nodup ↔ ¬ BlursPaths requests) := by
  obtain ⟨hgrown, -⟩ := forest_shows h
  refine ⟨⟨hgrown.nodup_slots, fun n hn => ?_⟩, fun p hp => ⟨?_, fun c hc => ?_⟩, paths_order f,
    nodup_paths_iff h⟩
  · exact (hgrown.inSlot (hgrown.inSlot?_of_mem hn)).1
  -- a node is found where its way leads, and its children hang there
  · obtain ⟨way, -, hslot⟩ := (mem_placedAll hgrown).1 hp
    obtain ⟨_, hbelow⟩ := hgrown.follow (way ++ [p.2.slot])
    rw [follow_concat, hslot] at hbelow
    exact hbelow.nodup_slots
  · have hplaced := hgrown.child_placed hp hc
    refine ⟨hplaced, ?_⟩
    obtain ⟨way, hway, -⟩ := place_of_mem h hp
    rw [path_eq h hplaced, path_eq h hp, String.intercalate_append_of_ne_nil
      (hway ▸ List.concat_ne_nil _ _) (List.cons_ne_nil _ _), String.intercalate_singleton]

/-- A relation under two aliases, and others below each of them. -/
def aliasedRequests : List LoadRequest :=
  [⟨"posts.comments", none, none⟩, ⟨"posts", some "recent", some "latest"⟩,
    ⟨"latest.comments.author", none, none⟩, ⟨"posts", none, some "old.posts"⟩]

theorem forest_paths_aliasedRequests : ∃ f, forest aliasedRequests = .ok f ∧
    paths f = ["posts", "latest", "old.posts", "posts.comments", "latest.comments",
      "latest.comments.author"] ∧ ¬ BlursPaths aliasedRequests := by
  have hpaths : (forest aliasedRequests).toOption.map paths = some ["posts", "latest", "old.posts",
      "posts.comments", "latest.comments", "latest.comments.author"] := by decide +kernel
  cases hf : forest aliasedRequests with
  | error e =>
    rw [hf] at hpaths
    cases hpaths
  | ok f =>
    rw [hf] at hpaths
    have hlist := Option.some.inj hpaths
    exact ⟨f, rfl, hlist, (forest_paths hf).2.2.2.1 (by rw [hlist]; decide)⟩

/-- A relation under an alias with a point, and the relation that the alias spells the path to. -/
def blurredRequests : List LoadRequest := [⟨"avatar", none, some "posts.tags"⟩, ⟨"posts.tags", none, none⟩]

theorem paths_blurredRequests :
    ¬ ∀ requests f, forest requests = .ok f → (paths f).Nodup := by
  intro hnodup
  have hpaths : (forest blurredRequests).toOption.map paths =
      some ["posts.tags", "posts", "posts.tags"] := by decide +kernel
  cases hf : forest blurredRequests with
  | error e =>
    rw [hf] at hpaths
    cases hpaths
  | ok f =>
    rw [hf] at hpaths
    have hlist := hnodup blurredRequests f hf
    rw [Option.some.inj hpaths] at hlist
    exact absurd hlist (by decide)

end LoadRequest
end PolyQuery
