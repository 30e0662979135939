import PolyQuery.Proofs.ParentKeys
import PolyQuery.Proofs.Quoting
import PolyQuery.Proofs.RequestOrder

/-! Load trees as tries. A node stands at the end of a way of slots, and no other node does:
`nodup_ways`. The slots behind a way are those that come next on the routes of the requests, in the
order in which they are mentioned first: `forest_slots`. Without aliases the ways are the beginnings
of the requested paths, and nothing but two modifiers for one path is refused: `forest_trie`. -/
namespace PolyQuery

/-- The way to a target with the target's own slot. -/
def LoadTarget.route (t : LoadTarget) : List String := t.way ++ [t.goal.slot]

/-- The slot that comes next on a route that begins with a way. -/
def nextOn : List String → List String → Option String
  | [], route => route.head?
  | _ :: _, [] => none
  | s :: way, t :: route => if s = t then nextOn way route else none

/-- The slots behind a way, in the order in which routes mention them first. -/
def firstMentions (routes : List (List String)) (way : List String) : List String :=
  (routes.filterMap (nextOn way)).eraseDups

namespace LoadNode

mutual

/-- A node with the way to it, and the nodes below it with theirs. -/
def placed (before : List String) : LoadNode → List (List String × LoadNode)
  | ⟨relation, slot, modifier, path, passing, children⟩ =>
    (before ++ [slot], ⟨relation, slot, modifier, path, passing, children⟩) ::
      placedAll (before ++ [slot]) children

/-- The same for nodes side by side. -/
def placedAll (before : List String) : List LoadNode → List (List String × LoadNode)
  | [] => []
  | n :: rest => n.placed before ++ placedAll before rest

end

variable {f f' : List LoadNode} {n : LoadNode} {parent slot : String} {before way : List String}

/-! ## Ways -/

theorem inSlot?_isSome : (inSlot? slot f).isSome = true ↔ slot ∈ f.map LoadNode.slot := by
  rw [inSlot?, List.find?_isSome, List.mem_map]
  simp only [decide_eq_true_eq]

theorem follow_nil (way : List String) : follow [] way = [] := by
  induction way with
  | nil => rfl
  | cons s way ih => exact ih

theorem follow_first (m : LoadNode) (f : List LoadNode) (way : List String) :
    follow (m :: f) (m.slot :: way) = follow m.children way := by
  rw [follow, inSlot?_cons, if_pos rfl]
  rfl

theorem follow_other {m : LoadNode} (h : m.slot ≠ slot) :
    follow (m :: f) (slot :: way) = follow f (slot :: way) := by
  rw [follow, follow, inSlot?_cons, if_neg h]

theorem follow_absent (h : inSlot? slot f = none) (way : List String) :
    follow f (slot :: way) = [] := by
  rw [follow, h]
  exact follow_nil way

/-- The node at the end of a way is found there, and nothing else is. -/
theorem mem_placedAll (h : Grown parent f) {w : List String} : (w, n) ∈ placedAll before f ↔
    ∃ way, w = before ++ way ++ [n.slot] ∧ inSlot? n.slot (follow f way) = some n := by
  induction h generalizing before with
  | nil =>
    refine ⟨fun hmem => (nomatch hmem), fun ⟨way, _, hslot⟩ => ?_⟩
    rw [follow_nil] at hslot
    cases hslot
  | @cons parent relation s modifier passing children rest hchildren hrest hfresh ihchildren ihrest =>
    rw [placedAll, placed, List.cons_append, List.mem_cons, List.mem_append, ihchildren, ihrest]
    -- the first slot of a way decides whether it leads below the first node or behind it
    constructor
    · rintro (heq | ⟨way, rfl, hslot⟩ | ⟨way, rfl, hslot⟩)
      · obtain ⟨rfl, rfl⟩ := Prod.mk.inj heq
        exact ⟨[], by rw [List.append_nil], by rw [follow, inSlot?_cons, if_pos rfl]⟩
      · refine ⟨s :: way, by rw [← List.append_cons], ?_⟩
        rwa [follow_first]
      · refine ⟨way, rfl, ?_⟩
        cases way with
        | nil =>
          have hmem : n ∈ rest := List.mem_of_find?_eq_some hslot
          rw [follow, inSlot?_cons, if_neg (hfresh n hmem).symm]
          exact hslot
        | cons s' way =>
          by_cases hs : s = s'
          · -- behind the first node no way begins with its slot
            have hnone : inSlot? s' rest = none := by
              rw [inSlot?, List.find?_eq_none]
              intro m hm
              simpa [← hs] using hfresh m hm
            rw [follow_absent hnone] at hslot
            cases hslot
          · rwa [follow_other hs]
    · rintro ⟨way, rfl, hslot⟩
      cases way with
      | nil =>
        rw [follow, inSlot?_cons] at hslot
        split at hslot
        · next hs =>
          cases hslot
          exact .inl (by rw [List.append_nil])
        · exact .inr (.inr ⟨[], rfl, hslot⟩)
      | cons s' way =>
        by_cases hs : s = s'
        · subst hs
          rw [follow_first] at hslot
          exact .inr (.inl ⟨way, by rw [← List.append_cons], hslot⟩)
        · rw [follow_other hs] at hslot
          exact .inr (.inr ⟨s' :: way, rfl, hslot⟩)

/-- A way leads to one node only. -/
theorem nodup_ways (h : Grown parent f) (before : List String) :
    ((placedAll before f).map Prod.fst).Nodup := by
  induction h generalizing before with
  | nil => exact List.nodup_nil
  | @cons parent relation s modifier passing children rest hchildren hrest hfresh ihchildren ihrest =>
    have hbelow {w : List String} {g : List LoadNode} {p : String} (hg : Grown p g)
        {b : List String} (hw : w ∈ (placedAll b g).map Prod.fst) :
        ∃ way, ∃ m, w = b ++ way ++ [m.slot] ∧ inSlot? m.slot (follow g way) = some m := by
      obtain ⟨⟨_, m⟩, hm, rfl⟩ := List.mem_map.1 hw
      obtain ⟨way, hway, hslot⟩ := (mem_placedAll hg).1 hm
      exact ⟨way, m, hway, hslot⟩
    rw [placedAll, placed, List.map_append, List.map_cons]
    refine List.nodup_append.2 ⟨List.nodup_cons.2 ⟨?_, ihchildren _⟩, ihrest before, ?_⟩
    · intro hmem
      obtain ⟨way, m, hway, -⟩ := hbelow hchildren hmem
      have hlength := congrArg List.length hway
      simp only [List.length_append, List.length_cons, List.length_nil] at hlength
      omega
    · -- the slot behind the common beginning is that of the first node, or that of another one
      rintro w hfirst _ hother rfl
      obtain ⟨tail, rfl⟩ : ∃ tail, w = before ++ s :: tail := by
        rcases List.mem_cons.1 hfirst with rfl | hfirst
        · exact ⟨[], rfl⟩
        · obtain ⟨way, m, rfl, -⟩ := hbelow hchildren hfirst
          exact ⟨way ++ [m.slot], by rw [List.append_assoc, List.append_assoc]; rfl⟩
      obtain ⟨way, m, hway, hslot⟩ := hbelow hrest hother
      rw [List.append_assoc, List.append_cancel_left_eq] at hway
      have hs : s ∈ rest.map LoadNode.slot := by
        rw [← inSlot?_isSome]
        cases way with
        | nil =>
          obtain ⟨rfl, -⟩ := List.cons.inj hway
          rw [follow] at hslot
          rw [hslot]
          rfl
        | cons s' way =>
          obtain ⟨rfl, -⟩ := List.cons.inj hway
          cases hfirst : inSlot? s rest with
          | none =>
            rw [follow_absent hfirst] at hslot
            cases hslot
          | some k => rfl
      obtain ⟨k, hk, hks⟩ := List.mem_map.1 hs
      exact hfresh k hk hks

/-- The path of a node is put together from the slots on its way. -/
theorem Grown.path_foldl (h : Grown parent f) (hn : inSlot? n.slot (follow f way) = some n) :
    n.path = (way ++ [n.slot]).foldl extendPath parent := by
  induction way generalizing parent f with
  | nil => exact (h.inSlot hn).1
  | cons s way ih =>
    rw [follow] at hn
    cases hs : inSlot? s f with
    | none =>
      rw [hs, Option.elim, follow_nil] at hn
      cases hn
    | some m =>
      rw [hs] at hn
      obtain ⟨hpath, hchildren⟩ := h.inSlot hs
      rw [ih hchildren hn, hpath]
      rfl

theorem follow_concat (f : List LoadNode) (way : List String) (slot : String) :
    follow f (way ++ [slot]) = (inSlot? slot (follow f way)).elim [] children := by
  induction way generalizing f with
  | nil => rfl
  | cons s way ih => exact ih _

/-! ## Slots behind a way -/

/-- A text at the end of a list, unless it is there already. -/
def addOnce (texts : List String) (text : String) : List String :=
  if text ∈ texts then texts else texts ++ [text]

theorem slots_place (hn : n.slot = slot) (f : List LoadNode) :
    (place slot n f).map LoadNode.slot = addOnce (f.map LoadNode.slot) slot := by
  induction f with
  | nil => rw [place, List.map_singleton, hn]; rfl
  | cons m rest ih =>
    rw [place]
    by_cases hm : m.slot = slot
    · rw [if_pos hm, List.map_cons, List.map_cons, hn, hm, addOnce, if_pos List.mem_cons_self]
    · rw [if_neg hm, List.map_cons, List.map_cons, ih, addOnce, addOnce]
      by_cases hmem : slot ∈ rest.map LoadNode.slot
      · rw [if_pos hmem, if_pos (List.mem_cons_of_mem _ hmem)]
      · have hnot : slot ∉ m.slot :: rest.map LoadNode.slot := by
          rw [List.mem_cons]
          rintro (heq | hrest)
          · exact hm heq.symm
          · exact hmem hrest
        rw [if_neg hmem, if_neg hnot, List.cons_append]

/-- Behind a slot that is filled come the nodes below its node. -/
theorem follow_place (hn : n.slot = slot) (s : String) (w : List String) :
    follow (place slot n f) (s :: w) = if s = slot then follow n.children w else follow f (s :: w) := by
  rw [follow, inSlot?_place hn]
  by_cases hs : s = slot
  · rw [if_pos hs, if_pos hs, Option.elim]
  · rw [if_neg hs, if_neg hs, follow]

/-- A goal leaves what is below its slot. -/
theorem meet_inSlot? {g : LoadGoal}
    (h : meet parent g ((inSlot? g.slot f).getD (ofGoal parent g)) = .ok n) :
    n.slot = g.slot ∧ n.children = (inSlot? g.slot f).elim [] children := by
  rw [meet_ok h]
  show ((inSlot? g.slot f).getD (ofGoal parent g)).slot = _ ∧
    ((inSlot? g.slot f).getD (ofGoal parent g)).children = _
  cases hs : inSlot? g.slot f with
  | none => exact ⟨rfl, rfl⟩
  | some m => exact ⟨slot_of_inSlot? hs, rfl⟩

/-- A goal adds its route: behind a way on it comes the next slot, and elsewhere nothing does. -/
theorem insert_slots {g : LoadGoal} (h : insert g parent way f = .ok f') (w : List String) :
    (follow f' w).map LoadNode.slot = (nextOn w (way ++ [g.slot])).elim
      ((follow f w).map LoadNode.slot) (addOnce ((follow f w).map LoadNode.slot)) := by
  induction way generalizing parent f f' w with
  | nil =>
    rw [insert_nil] at h
    obtain ⟨n, hn, rfl⟩ := eq_ok_of_map h
    obtain ⟨hslot, hchildren⟩ := meet_inSlot? hn
    cases w with
    | nil => exact slots_place hslot f
    | cons s w =>
      -- the way of the goal ends at its own slot, so nothing is added below it
      have hnext : nextOn (s :: w) ([] ++ [g.slot]) = none := by
        rw [List.nil_append, nextOn]
        split
        · cases w <;> rfl
        · rfl
      rw [hnext, Option.elim, follow_place hslot, hchildren]
      split
      · next hs => rw [← hs, follow]
      · rfl
  | cons s way ih =>
    rw [insert_cons] at h
    obtain ⟨below, hbelow, rfl⟩ := eq_ok_of_map h
    have hslot : ({ step parent s f with children := below } : LoadNode).slot = s :=
      step_slot parent s f
    cases w with
    | nil => exact slots_place hslot f
    | cons s' w =>
      rw [List.cons_append, nextOn, follow_place hslot]
      by_cases hs : s' = s
      · rw [if_pos hs, if_pos hs, ih hbelow w, step_children, ← hs, follow]
      · rw [if_neg hs, if_neg hs, Option.elim]

end LoadNode

/-! ## Forests -/

namespace LoadTarget
variable {t : LoadTarget} {way : List String} {slot : String}

theorem fills_iff : t.Fills way slot ↔ t.route = way ++ [slot] := by
  rw [route, List.append_singleton_inj]
  exact Iff.rfl

/-- A route goes on from a way by a slot where the target fills that slot or passes it. -/
theorem prefix_route : way ++ [slot] <+: t.route ↔ t.Fills way slot ∨ t.Passes way slot := by
  rw [route, List.prefix_concat_iff, List.append_singleton_inj, Fills, Passes,
    eq_comm (a := way), eq_comm (a := slot)]

end LoadTarget

namespace Shows
variable {f : List LoadNode} {ts : List LoadTarget} {way : List String} {slot : String}

/-- A slot is filled where a route goes through it. -/
theorem mark?_isSome (h : Shows f ts) :
    (LoadNode.mark? f way slot).isSome = true ↔ ∃ t ∈ ts, way ++ [slot] <+: t.route := by
  simp only [LoadTarget.prefix_route]
  by_cases hfilled : ∃ t ∈ ts, t.Fills way slot
  · obtain ⟨t, ht, hfills⟩ := hfilled
    refine iff_of_true ?_ ⟨t, ht, .inl hfills⟩
    rw [← hfills.1, ← hfills.2, h.filled t ht]
    rfl
  · have hfree : ∀ t ∈ ts, ¬ t.Fills way slot := fun t ht hf => hfilled ⟨t, ht, hf⟩
    by_cases hpassed : ∃ t ∈ ts, t.Passes way slot
    · obtain ⟨t, ht, hpasses⟩ := hpassed
      refine iff_of_true ?_ ⟨t, ht, .inr hpasses⟩
      rw [h.passed way slot hfree ⟨t, ht, hpasses⟩]
      rfl
    · rw [h.absent way slot hfree fun t ht hp => hpassed ⟨t, ht, hp⟩]
      refine iff_of_false (fun hn => nomatch hn) ?_
      rintro ⟨t, ht, hf | hp⟩
      · exact hfree t ht hf
      · exact hpassed ⟨t, ht, hp⟩

end Shows

namespace LoadRequest
variable {requests : List LoadRequest} {f : List LoadNode}

/-- The routes of requests. -/
def routes (requests : List LoadRequest) : List (List String) :=
  (targets requests).map LoadTarget.route

/-- The slots behind a way stand in the order in which the requests mention them first. -/
theorem forest_slots (h : forest requests = .ok f) (way : List String) :
    (LoadNode.follow f way).map LoadNode.slot = firstMentions (routes requests) way := by
  induction requests using List.reverseRecOn generalizing f with
  | nil =>
    cases h
    rw [LoadNode.follow_nil]
    rfl
  | append_singleton requests r ih =>
    obtain ⟨g, t, hg, ht, hf⟩ := forest_append_ok h
    have hroutes : routes (requests ++ [r]) = routes requests ++ [t.route] := by
      rw [routes, targets_append ht, List.map_append]
      rfl
    rw [LoadNode.insert_slots hf, ih hg, hroutes, firstMentions, firstMentions,
      List.filterMap_append, List.filterMap_cons]
    show (nextOn way t.route).elim _ _ = _
    cases nextOn way t.route with
    | none => exact congrArg List.eraseDups (List.append_nil _).symm
    | some s =>
      show LoadNode.addOnce _ s = (_ ++ [s]).eraseDups
      rw [Loader.eraseDups_concat, LoadNode.addOnce]
      simp only [List.mem_eraseDups]

/-- What the target of a request is. -/
theorem target?_eq_some {r : LoadRequest} {t : LoadTarget} (h : r.target? = some t) :
    "" ∉ segments r.path ∧ segments r.path = t.way ++ [t.goal.relation] ∧
      t.goal = ⟨t.goal.relation, r.slot.getD t.goal.relation, r.modifier⟩ := by
  unfold target? at h
  split at h
  · cases h
  · next hempty =>
    obtain ⟨relation, hlast, rfl⟩ := Option.map_eq_some_iff.1 h
    have hmem : "" ∉ segments r.path := by simpa using hempty
    exact ⟨hmem, (List.dropLast_append_getLast? relation hlast).symm, rfl⟩

theorem target?_isSome {r : LoadRequest} : r.target?.isSome = true ↔ "" ∉ segments r.path := by
  constructor
  · intro h
    obtain ⟨t, ht⟩ := Option.isSome_iff_exists.1 h
    exact (target?_eq_some ht).1
  · intro h
    have hne : segments r.path ≠ [] := by
      unfold segments
      rw [Ne, List.map_eq_nil_iff, Quoting.dottedParts_eq]
      exact List.splitOn_ne_nil '.' _
    rw [target?, if_neg (by simpa using h), Option.isSome_map, List.getLast?_isSome]
    exact hne

/-- The slots on the way to a target are segments of its path. -/
theorem not_mem_way {t : LoadTarget} (ht : t ∈ targets requests) : "" ∉ t.way := by
  obtain ⟨r, _, hr⟩ := mem_targets.1 ht
  obtain ⟨hempty, hsegments, -⟩ := target?_eq_some hr
  rw [hsegments] at hempty
  exact fun hmem => hempty (List.mem_append_left _ hmem)

/-- What is known of a node of a forest: its slot ends its way, some route goes through it, and its
mark is the one that the targets leave there. -/
theorem mem_placedAll_forest (h : forest requests = .ok f) {w : List String} {n : LoadNode}
    (hn : (w, n) ∈ LoadNode.placedAll [] f) : ∃ way, w = way ++ [n.slot] ∧
      LoadNode.inSlot? n.slot (LoadNode.follow f way) = some n ∧
      LoadNode.mark? f way n.slot = some n.mark ∧
      ∃ t ∈ targets requests, way ++ [n.slot] <+: t.route := by
  obtain ⟨hgrown, hshows⟩ := forest_shows h
  obtain ⟨way, rfl, hslot⟩ := (LoadNode.mem_placedAll hgrown).1 hn
  have hmark : LoadNode.mark? f way n.slot = some n.mark := by
    rw [LoadNode.mark?, hslot]
    rfl
  exact ⟨way, rfl, hslot, hmark, hshows.mark?_isSome.1 (by rw [hmark]; rfl)⟩

/-- The ways of a forest are the beginnings of the routes. -/
theorem mem_ways (h : forest requests = .ok f) (w : List String) :
    w ∈ (LoadNode.placedAll [] f).map Prod.fst ↔ w ≠ [] ∧ ∃ route ∈ routes requests, w <+: route := by
  obtain ⟨hgrown, hshows⟩ := forest_shows h
  constructor
  · intro hw
    obtain ⟨⟨_, n⟩, hn, rfl⟩ := List.mem_map.1 hw
    obtain ⟨way, rfl, -, -, t, ht, hroute⟩ := mem_placedAll_forest h hn
    exact ⟨List.concat_ne_nil _ _, t.route, List.mem_map_of_mem ht, hroute⟩
  · rintro ⟨hne, _, hroute, hprefix⟩
    obtain ⟨t, ht, rfl⟩ := List.mem_map.1 hroute
    obtain ⟨way, slot, rfl⟩ : ∃ way slot, w = way ++ [slot] :=
      ⟨_, _, (List.dropLast_append_getLast hne).symm⟩
    have hsome := hshows.mark?_isSome.2 ⟨t, ht, hprefix⟩
    rw [LoadNode.mark?, Option.isSome_map] at hsome
    obtain ⟨n, hn⟩ := Option.isSome_iff_exists.1 hsome
    obtain rfl := LoadNode.slot_of_inSlot? hn
    exact List.mem_map.2 ⟨_, (LoadNode.mem_placedAll hgrown).2 ⟨way, rfl, hn⟩, rfl⟩

/-- Slots with points between them are the path of the last one, if all before it are slots of
nodes that have others below them. -/
theorem foldl_extendPath {way : List String} (h : "" ∉ way) (slot : String) :
    (way ++ [slot]).foldl extendPath "" = ".".intercalate (way ++ [slot]) := by
  induction way using List.reverseRecOn generalizing slot with
  | nil => rw [List.nil_append, String.intercalate_singleton]; rfl
  | append_singleton way s ih =>
    obtain ⟨hway, hs⟩ : "" ∉ way ∧ "" ≠ s := by simpa using h
    have hne : way ++ [s] ≠ [] := List.concat_ne_nil _ _
    have hpath : ".".intercalate (way ++ [s]) ≠ "" := by
      cases way with
      | nil => rw [List.nil_append, String.intercalate_singleton]; exact hs.symm
      | cons s' way =>
        rw [String.intercalate_append_of_ne_nil (List.cons_ne_nil _ _) (List.cons_ne_nil _ _)]
        intro hempty
        have hsize := congrArg String.toList hempty
        simp [String.toList_append] at hsize
    rw [List.foldl_append, ih hway,
      String.intercalate_append_of_ne_nil hne (List.cons_ne_nil _ _), String.intercalate_singleton,
      List.foldl_cons, List.foldl_nil, extendPath, if_neg hpath]

/-- The path of a node is its way with points between the slots. -/
theorem path_eq (h : forest requests = .ok f) {w : List String} {n : LoadNode}
    (hn : (w, n) ∈ LoadNode.placedAll [] f) : n.path = ".".intercalate w := by
  obtain ⟨way, rfl, hslot, -, t, ht, hroute⟩ := mem_placedAll_forest h hn
  have hway : way <+: t.way := by
    rw [LoadTarget.route] at hroute
    exact List.prefix_of_prefix_length_le ((List.prefix_append way _).trans hroute)
      (List.prefix_append _ _) (by have := hroute.length_le; simp at this; omega)
  rw [(forest_shows h).1.path_foldl hslot]
  exact foldl_extendPath (fun hempty => not_mem_way ht (hway.subset hempty)) n.slot

/-- The slots below a node stand in the order of first mention too. -/
theorem children_slots (h : forest requests = .ok f) {w : List String} {n : LoadNode}
    (hn : (w, n) ∈ LoadNode.placedAll [] f) :
    n.children.map LoadNode.slot = firstMentions (routes requests) w := by
  obtain ⟨way, rfl, hslot, -⟩ := mem_placedAll_forest h hn
  rw [← forest_slots h, LoadNode.follow_concat, hslot]
  rfl

/-! ## Requests without aliases -/

/-- The forest is the trie of the paths: its nodes stand at the ends of the beginnings of paths,
each once and in order of first mention, and have the modifier that is asked for their very path. -/
structure IsTrie (requests : List LoadRequest) (f : List LoadNode) : Prop where
  nodup : ((LoadNode.placedAll [] f).map Prod.fst).Nodup
  ways : ∀ w, w ∈ (LoadNode.placedAll [] f).map Prod.fst ↔
    w ≠ [] ∧ ∃ r ∈ requests, w <+: segments r.path
  roots : f.map LoadNode.slot = firstMentions (requests.map fun r => segments r.path) []
  siblings : ∀ p ∈ LoadNode.placedAll [] f,
    p.2.children.map LoadNode.slot = firstMentions (requests.map fun r => segments r.path) p.1
  slot : ∀ p ∈ LoadNode.placedAll [] f, p.1.getLast? = some p.2.slot
  relation : ∀ p ∈ LoadNode.placedAll [] f, p.2.relation = p.2.slot
  path : ∀ p ∈ LoadNode.placedAll [] f, p.2.path = ".".intercalate p.1
  modifier : ∀ p ∈ LoadNode.placedAll [] f, ∀ r ∈ requests, segments r.path = p.1 →
    p.2.modifier = r.modifier
  unmodified : ∀ p ∈ LoadNode.placedAll [] f, (∀ r ∈ requests, segments r.path ≠ p.1) →
    p.2.modifier = none

/-- The target of a request without an alias has the path as its route. -/
theorem target?_plain {r : LoadRequest} {t : LoadTarget} (h : r.target? = some t)
    (hplain : r.slot = none) : t.route = segments r.path ∧ t.goal.slot = t.goal.relation ∧
      t.goal.modifier = r.modifier := by
  obtain ⟨-, hsegments, hgoal⟩ := target?_eq_some h
  rw [hplain, Option.getD_none] at hgoal
  have hslot : t.goal.slot = t.goal.relation := by rw [hgoal]
  refine ⟨?_, hslot, by rw [hgoal]⟩
  rw [hsegments, LoadTarget.route, hslot]

theorem routes_plain (hpaths : ∀ r ∈ requests, r.target?.isSome = true)
    (hplain : ∀ r ∈ requests, r.slot = none) :
    routes requests = requests.map fun r => segments r.path := by
  induction requests with
  | nil => rfl
  | cons r requests ih =>
    obtain ⟨hr, hrequests⟩ := List.forall_mem_cons.1 hpaths
    obtain ⟨hslot, hslots⟩ := List.forall_mem_cons.1 hplain
    obtain ⟨t, ht⟩ := Option.isSome_iff_exists.1 hr
    rw [List.map_cons, ← ih hrequests hslots, ← (target?_plain ht hslot).1, routes, targets,
      List.filterMap_cons, ht]
    rfl

/-- Without aliases a forest is refused exactly for an empty segment, or for two requests of one path
with different modifiers. -/
theorem forest_refused_iff (hplain : ∀ r ∈ requests, r.slot = none) :
    (∃ fault, forest requests = .error fault) ↔
      (∃ r ∈ requests, "" ∈ segments r.path) ∨
        ∃ r ∈ requests, ∃ r' ∈ requests, segments r.path = segments r'.path ∧
          r.modifier ≠ r'.modifier := by
  constructor
  · rintro ⟨fault, hfault⟩
    -- with neither reason all requests have targets, and those of one path have one goal
    by_contra hnone
    rw [not_or] at hnone
    obtain ⟨hempty, hclash⟩ := hnone
    have hpaths : ∀ r ∈ requests, r.target?.isSome = true :=
      fun r hr => target?_isSome.2 fun hmem => hempty ⟨r, hr, hmem⟩
    have hok : (forest requests).isOk = true := by
      refine forest_isOk hpaths ?_ ?_
      · intro t ht u hu hfills
        obtain ⟨r, hr, hrt⟩ := mem_targets.1 ht
        obtain ⟨r', hr', hru⟩ := mem_targets.1 hu
        obtain ⟨hroute, hslot, hmodifier⟩ := target?_plain hrt (hplain r hr)
        obtain ⟨hroute', hslot', hmodifier'⟩ := target?_plain hru (hplain r' hr')
        have hsame : segments r.path = segments r'.path := by
          rw [← hroute, ← hroute', LoadTarget.route, LoadTarget.fills_iff.1 hfills]
        have hmodifiers : r.modifier = r'.modifier := by
          by_contra hne
          exact hclash ⟨r, hr, r', hr', hsame, hne⟩
        obtain ⟨_, relation, slot, modifier⟩ := t
        obtain ⟨_, relation', slot', modifier'⟩ := u
        dsimp only at *
        obtain rfl : slot' = slot := hfills.2
        rw [← hslot, ← hslot', hmodifier, hmodifier', hmodifiers]
      · rintro ⟨t, ht, u, -, halias, -⟩
        obtain ⟨r, hr, hrt⟩ := mem_targets.1 ht
        exact halias (target?_plain hrt (hplain r hr)).2.1
    rw [hfault] at hok
    cases hok
  · intro hreason
    cases hf : forest requests with
    | error fault => exact ⟨fault, rfl⟩
    | ok f =>
      exfalso
      have hpaths := target?_isSome_of_forest hf
      rcases hreason with ⟨r, hr, hempty⟩ | ⟨r, hr, r', hr', hsame, hne⟩
      · exact target?_isSome.1 (hpaths r hr) hempty
      · obtain ⟨t, ht⟩ := Option.isSome_iff_exists.1 (hpaths r hr)
        obtain ⟨u, hu⟩ := Option.isSome_iff_exists.1 (hpaths r' hr')
        obtain ⟨hroute, -, hmodifier⟩ := target?_plain ht (hplain r hr)
        obtain ⟨hroute', -, hmodifier'⟩ := target?_plain hu (hplain r' hr')
        have hfills : u.Fills t.way t.goal.slot := by
          rw [LoadTarget.fills_iff, hroute', ← hsame, ← hroute, LoadTarget.route]
        have hgoal := (forest_shows hf).2.goal_eq (mem_targets.2 ⟨r, hr, ht⟩)
          (mem_targets.2 ⟨r', hr', hu⟩) hfills
        rw [← hmodifier, ← hmodifier', hgoal] at hne
        exact hne rfl

/-- A node without aliases around it is asked for by the requests of its path, or stands on the way
only; its mark tells the same. -/
theorem node_plain (hplain : ∀ r ∈ requests, r.slot = none) (h : forest requests = .ok f)
    {w : List String} {n : LoadNode} (hn : (w, n) ∈ LoadNode.placedAll [] f) :
    n.relation = n.slot ∧ (∀ r ∈ requests, segments r.path = w → n.modifier = r.modifier) ∧
      ((∀ r ∈ requests, segments r.path ≠ w) → n.modifier = none) := by
  obtain ⟨way, rfl, -, hmark, t, ht, hroute⟩ := mem_placedAll_forest h hn
  have hshows := (forest_shows h).2
  have hrequest {t : LoadTarget} (ht : t ∈ targets requests) :
      ∃ r ∈ requests, t.route = segments r.path ∧ t.goal.slot = t.goal.relation ∧
        t.goal.modifier = r.modifier := by
    obtain ⟨r, hr, hrt⟩ := mem_targets.1 ht
    exact ⟨r, hr, target?_plain hrt (hplain r hr)⟩
  -- what a request asks for this path is what the node has, since its target fills the slot
  have hasked : ∀ r ∈ requests, segments r.path = way ++ [n.slot] → n.modifier = r.modifier := by
    intro r hr hpath
    obtain ⟨u, hu⟩ := Option.isSome_iff_exists.1 (target?_isSome_of_forest h r hr)
    obtain ⟨hroute', -, hmodifier'⟩ := target?_plain hu (hplain r hr)
    have hfills : u.Fills way n.slot := LoadTarget.fills_iff.2 (hroute'.trans hpath)
    have hfilled := hshows.filled u (mem_targets.2 ⟨r, hr, hu⟩)
    rw [hfills.1, hfills.2, hmark] at hfilled
    rw [← hmodifier']
    exact congrArg LoadMark.modifier (Option.some.inj hfilled)
  by_cases hfilled : ∃ u ∈ targets requests, u.Fills way n.slot
  · obtain ⟨u, hu, hfills⟩ := hfilled
    obtain ⟨r, hr, hroute', hslot', -⟩ := hrequest hu
    have hfilled := hshows.filled u hu
    rw [hfills.1, hfills.2, hmark] at hfilled
    refine ⟨?_, hasked, fun hnone => ?_⟩
    · rw [← hfills.2, hslot']
      exact congrArg LoadMark.relation (Option.some.inj hfilled)
    · exact absurd (hroute'.symm.trans (LoadTarget.fills_iff.1 hfills)) (hnone r hr)
  · have hfree : ∀ u ∈ targets requests, ¬ u.Fills way n.slot := fun u hu hf => hfilled ⟨u, hu, hf⟩
    have hpasses := (LoadTarget.prefix_route.1 hroute).resolve_left (hfree t ht)
    have hpassed := hshows.passed way n.slot hfree ⟨t, ht, hpasses⟩
    rw [hmark] at hpassed
    have honTheWay := Option.some.inj hpassed
    exact ⟨congrArg LoadMark.relation honTheWay, hasked,
      fun _ => congrArg LoadMark.modifier honTheWay⟩

/-- The forest of requests without aliases is the trie of their paths, and requests are refused
exactly for an empty segment or for two modifiers of one path. -/
theorem forest_trie {requests : List LoadRequest} (hplain : ∀ r ∈ requests, r.slot = none) :
    ((∃ fault, forest requests = .error fault) ↔
      (∃ r ∈ requests, "" ∈ segments r.path) ∨
        ∃ r ∈ requests, ∃ r' ∈ requests, segments r.path = segments r'.path ∧
          r.modifier ≠ r'.modifier) ∧
      ∀ f, forest requests = .ok f → IsTrie requests f := by
  refine ⟨forest_refused_iff hplain, fun f hf => ?_⟩
  -- without aliases the routes of a forest that was made are those of the paths themselves
  have hroutes := routes_plain (target?_isSome_of_forest hf) hplain
  refine ⟨LoadNode.nodup_ways (forest_shows hf).1 [], fun w => ?_, ?_, fun p hp => ?_, fun p hp => ?_,
    fun p hp => (node_plain hplain hf hp).1, fun p hp => path_eq hf hp,
    fun p hp => (node_plain hplain hf hp).2.1, fun p hp => (node_plain hplain hf hp).2.2⟩
  · rw [mem_ways hf, hroutes]
    simp only [List.mem_map, exists_exists_and_eq_and]
  · rw [← hroutes]
    exact forest_slots hf []
  · rw [← hroutes]
    exact children_slots hf hp
  · obtain ⟨way, hway, -⟩ := mem_placedAll_forest hf hp
    rw [hway, List.getLast?_concat]

/-- Requests without aliases: a modifier behind a path through its slot, a path with blanks, and a path
that is asked for twice. -/
def plainRequests : List LoadRequest :=
  [⟨"posts.comments", none, none⟩, ⟨"profile", none, none⟩, ⟨"posts", some "recent", none⟩,
    ⟨" posts . tags", none, none⟩, ⟨"profile", none, none⟩]

theorem forest_trie_plainRequests : (∀ r ∈ plainRequests, r.slot = none) ∧
    ∃ f, forest plainRequests = .ok f ∧ IsTrie plainRequests f := by
  have hplain : ∀ r ∈ plainRequests, r.slot = none := by decide
  have hok : (forest plainRequests).isOk = true := by decide +kernel
  cases hf : forest plainRequests with
  | error e =>
    rw [hf] at hok
    cases hok
  | ok f => exact ⟨hplain, f, rfl, (forest_trie hplain).2 f hf⟩

end LoadRequest
end PolyQuery
