import Mathlib.Data.List.Induction
import Mathlib.Data.List.Perm.Basic
import PolyQuery.Proofs.Forest

/-! The order of requests for relations. A forest shows what was asked for, not in which order:
requests in any order that are accepted give the same trees up to the order of siblings. Whether
they are accepted hangs on the order only where a path leads through a slot that is filled under
another name than that of its relation: `forest_any_order`. -/
namespace PolyQuery

/-- Where a request leads: a way from the root, and a goal at its end. -/
structure LoadTarget where
  way : List String
  goal : LoadGoal

namespace LoadTarget

/-- The target fills the slot at the end of a way. -/
def Fills (t : LoadTarget) (way : List String) (slot : String) : Prop :=
  t.way = way ∧ t.goal.slot = slot

/-- The way to the target leads through the slot at the end of another way. -/
def Passes (t : LoadTarget) (way : List String) (slot : String) : Prop := way ++ [slot] <+: t.way

/-- The target gives its slot another name than that of its relation. -/
def IsAlias (t : LoadTarget) : Prop := t.goal.slot ≠ t.goal.relation

/-- A way that passes a slot does not end there. -/
theorem Passes.not_fills {t : LoadTarget} {way : List String} {slot : String}
    (h : t.Passes way slot) : ¬ t.Fills way slot := by
  rintro ⟨rfl, _⟩
  have hlength := h.length_le
  rw [List.length_append, List.length_singleton] at hlength
  omega

end LoadTarget

/-- A forest shows its targets: each in its slot, nodes on the way where only longer ways lead, and
nothing else. -/
structure Shows (f : List LoadNode) (ts : List LoadTarget) : Prop where
  filled : ∀ t ∈ ts, LoadNode.mark? f t.way t.goal.slot = some t.goal.mark
  passed : ∀ way slot, (∀ t ∈ ts, ¬ t.Fills way slot) → (∃ t ∈ ts, t.Passes way slot) →
    LoadNode.mark? f way slot = some (.onTheWay slot)
  absent : ∀ way slot, (∀ t ∈ ts, ¬ t.Fills way slot) → (∀ t ∈ ts, ¬ t.Passes way slot) →
    LoadNode.mark? f way slot = none

namespace Shows
variable {f f' : List LoadNode} {ts us : List LoadTarget} {t u : LoadTarget}

theorem nil : Shows [] [] :=
  ⟨fun _ h => (nomatch h), fun _ _ _ h => (nomatch h.choose_spec.1),
    fun way slot _ _ => LoadNode.mark?_empty way slot⟩

/-- Targets in one slot have one goal. -/
theorem goal_eq (h : Shows f ts) (ht : t ∈ ts) (hu : u ∈ ts)
    (hfills : u.Fills t.way t.goal.slot) : u.goal = t.goal := by
  have hmark : some u.goal.mark = some t.goal.mark := by
    rw [← h.filled t ht, ← h.filled u hu, hfills.1, hfills.2]
  obtain ⟨_, relation, slot, modifier⟩ := t
  obtain ⟨_, relation', slot', modifier'⟩ := u
  obtain ⟨rfl, rfl, _⟩ := LoadMark.mk.inj (Option.some.inj hmark)
  obtain rfl : slot' = slot := hfills.2
  rfl

/-- Where the forest has room for a target, it shows it too. -/
theorem add (h : Shows f ts)
    (hf : LoadNode.insert t.goal "" t.way f = .ok f') : Shows f' (ts ++ [t]) := by
  have hmarks := LoadNode.insert_marks hf
  have hroom : t.goal.Admitted (LoadNode.mark? f t.way t.goal.slot) :=
    (LoadNode.insert_isOk _ "" _ _).1 (by rw [hf]; rfl)
  refine ⟨?_, ?_, ?_⟩
  · intro u hu
    rw [hmarks, LoadNode.marksAfter]
    by_cases hfills : u.way = t.way ∧ u.goal.slot = t.goal.slot
    · rw [if_pos hfills]
      obtain hu | hu := List.mem_append.1 hu
      · -- the slot was filled before, and admits the goal only because it is the same
        have hbefore := h.filled u hu
        rw [hfills.1, hfills.2] at hbefore
        rw [hbefore] at hroom
        obtain ⟨hrelation, hmodifier | hpassing⟩ := hroom
        · have hrelation' : t.goal.relation = u.goal.relation := hrelation.symm
          have hmodifier' : t.goal.modifier = u.goal.modifier := hmodifier.symm
          rw [LoadGoal.mark, LoadGoal.mark, hrelation', hmodifier']
        · cases hpassing
      · rw [List.mem_singleton.1 hu]
    · rw [if_neg hfills]
      obtain hu | hu := List.mem_append.1 hu
      · rw [h.filled u hu]
        split <;> rfl
      · rw [List.mem_singleton.1 hu] at hfills
        exact (hfills ⟨rfl, rfl⟩).elim
  · intro way slot hfree hpassed
    have hfree' : ∀ u ∈ ts, ¬ u.Fills way slot := fun u hu => hfree u (List.mem_append_left _ hu)
    have ht : ¬ (way = t.way ∧ slot = t.goal.slot) := by
      rintro ⟨rfl, rfl⟩
      exact hfree t (List.mem_append_right _ (List.mem_singleton_self t)) ⟨rfl, rfl⟩
    rw [hmarks, LoadNode.marksAfter, if_neg ht]
    by_cases hbefore : ∃ u ∈ ts, u.Passes way slot
    · rw [h.passed way slot hfree' hbefore]
      split <;> rfl
    · obtain ⟨u, hu, hpasses⟩ := hpassed
      obtain hu | hu := List.mem_append.1 hu
      · exact (hbefore ⟨u, hu, hpasses⟩).elim
      · have hpasses' : way ++ [slot] <+: t.way := List.mem_singleton.1 hu ▸ hpasses
        have hbefore' : ∀ u ∈ ts, ¬ u.Passes way slot := fun u hu hp => hbefore ⟨u, hu, hp⟩
        rw [if_pos hpasses', h.absent way slot hfree' hbefore', Option.getD_none]
  · intro way slot hfree hnone
    have ht : ¬ (way = t.way ∧ slot = t.goal.slot) := by
      rintro ⟨rfl, rfl⟩
      exact hfree t (List.mem_append_right _ (List.mem_singleton_self t)) ⟨rfl, rfl⟩
    have hnot : ¬ way ++ [slot] <+: t.way :=
      hnone t (List.mem_append_right _ (List.mem_singleton_self t))
    rw [hmarks, LoadNode.marksAfter, if_neg ht, if_neg hnot]
    exact h.absent way slot (fun u hu => hfree u (List.mem_append_left _ hu))
      fun u hu => hnone u (List.mem_append_left _ hu)

/-- What a forest shows fixes its marks. -/
theorem mark?_eq (h : Shows f ts) (h' : Shows f' us) (hmem : ∀ t, t ∈ ts ↔ t ∈ us)
    (way : List String) (slot : String) :
    LoadNode.mark? f way slot = LoadNode.mark? f' way slot := by
  by_cases hfilled : ∃ t ∈ ts, t.Fills way slot
  · obtain ⟨t, ht, rfl, rfl⟩ := hfilled
    rw [h.filled t ht, h'.filled t ((hmem t).1 ht)]
  · have hfree : ∀ t ∈ ts, ¬ t.Fills way slot := fun t ht hf => hfilled ⟨t, ht, hf⟩
    have hfree' : ∀ t ∈ us, ¬ t.Fills way slot := fun t ht => hfree t ((hmem t).2 ht)
    by_cases hpassed : ∃ t ∈ ts, t.Passes way slot
    · obtain ⟨t, ht, hpasses⟩ := hpassed
      rw [h.passed way slot hfree ⟨t, ht, hpasses⟩,
        h'.passed way slot hfree' ⟨t, (hmem t).1 ht, hpasses⟩]
    · have hnone : ∀ t ∈ ts, ¬ t.Passes way slot := fun t ht hp => hpassed ⟨t, ht, hp⟩
      rw [h.absent way slot hfree hnone,
        h'.absent way slot hfree' fun t ht => hnone t ((hmem t).2 ht)]

end Shows

namespace LoadRequest

/-- Where a request leads, unless its path has an empty segment. -/
def target? (r : LoadRequest) : Option LoadTarget :=
  if (segments r.path).contains "" then none
  else (segments r.path).getLast?.map fun relation =>
    ⟨(segments r.path).dropLast, relation, r.slot.getD relation, r.modifier⟩

/-- Where requests lead. -/
def targets (requests : List LoadRequest) : List LoadTarget := requests.filterMap target?

/-- Some path leads through a slot that another request fills under an alias. -/
def PassesAlias (requests : List LoadRequest) : Prop :=
  ∃ t ∈ targets requests, ∃ u ∈ targets requests, t.IsAlias ∧ u.Passes t.way t.goal.slot

theorem addTo_eq (f : List LoadNode) (r : LoadRequest) : addTo f r =
    match r.target? with
    | some t => LoadNode.insert t.goal "" t.way f
    | none => .error (.badPath r.path) := by
  unfold addTo target?
  dsimp only
  split
  · rfl
  · cases (segments r.path).getLast? <;> rfl

theorem forest_append (requests : List LoadRequest) (r : LoadRequest) :
    forest (requests ++ [r]) = (forest requests >>= fun f => addTo f r) := by
  rw [forest, List.foldlM_append]
  show (forest requests >>= fun f => addTo f r >>= fun g => pure g) = _
  simp only [bind_pure]

variable {requests : List LoadRequest} {f f' : List LoadNode} {r : LoadRequest}

/-- One more request is accepted where there is room for its target. -/
theorem forest_append_ok (h : forest (requests ++ [r]) = .ok f') : ∃ f t, forest requests = .ok f ∧
    r.target? = some t ∧ LoadNode.insert t.goal "" t.way f = .ok f' := by
  rw [forest_append] at h
  cases hf : forest requests with
  | error e =>
    rw [hf] at h
    cases h
  | ok f =>
    rw [hf] at h
    have hadd : addTo f r = .ok f' := h
    rw [addTo_eq] at hadd
    cases ht : r.target? with
    | none =>
      rw [ht] at hadd
      cases hadd
    | some t =>
      rw [ht] at hadd
      exact ⟨f, t, rfl, rfl, hadd⟩

theorem targets_append {t : LoadTarget} (ht : r.target? = some t) :
    targets (requests ++ [r]) = targets requests ++ [t] := by
  rw [targets, List.filterMap_append, List.filterMap_cons, ht]
  rfl

/-- A forest that is accepted has grown, and shows where the requests lead. -/
theorem forest_shows (h : forest requests = .ok f) :
    LoadNode.Grown "" f ∧ Shows f (targets requests) := by
  induction requests using List.reverseRecOn generalizing f with
  | nil =>
    cases h
    exact ⟨.nil, .nil⟩
  | append_singleton requests r ih =>
    obtain ⟨g, t, hg, ht, hf⟩ := forest_append_ok h
    obtain ⟨hgrown, hshows⟩ := ih hg
    rw [targets_append ht]
    exact ⟨hgrown.insert hf, hshows.add hf⟩

/-- Requests whose paths are well formed are accepted where those for one slot agree, and no path
leads through an alias. -/
theorem forest_isOk (hpaths : ∀ r ∈ requests, r.target?.isSome = true)
    (hagree : ∀ t ∈ targets requests, ∀ u ∈ targets requests, u.Fills t.way t.goal.slot →
      u.goal = t.goal) (halias : ¬ PassesAlias requests) : (forest requests).isOk = true := by
  induction requests using List.reverseRecOn with
  | nil => rfl
  | append_singleton requests r ih =>
    obtain ⟨t, ht⟩ := Option.isSome_iff_exists.1 (hpaths r (by simp))
    rw [targets_append ht] at hagree
    have hleft {u : LoadTarget} (hu : u ∈ targets requests) : u ∈ targets requests ++ [t] :=
      List.mem_append_left _ hu
    have hlast : t ∈ targets requests ++ [t] := List.mem_append_right _ (List.mem_singleton_self t)
    have hbefore : (forest requests).isOk = true := by
      refine ih (fun r hr => hpaths r (List.mem_append_left _ hr))
        (fun t ht u hu => hagree t (hleft ht) u (hleft hu)) ?_
      rintro ⟨t', ht', u, hu, hpasses⟩
      refine halias ⟨t', ?_, u, ?_, hpasses⟩
      · rw [targets_append ht]
        exact hleft ht'
      · rw [targets_append ht]
        exact hleft hu
    cases hf : forest requests with
    | error e =>
      rw [hf] at hbefore
      cases hbefore
    | ok f =>
      obtain ⟨_, hshows⟩ := forest_shows hf
      rw [forest_append, hf]
      show (addTo f r).isOk = true
      rw [addTo_eq, ht]
      rw [LoadNode.insert_isOk]
      by_cases hfilled : ∃ u ∈ targets requests, u.Fills t.way t.goal.slot
      · obtain ⟨u, hu, hfills⟩ := hfilled
        have hmark := hshows.filled u hu
        rw [hfills.1, hfills.2] at hmark
        rw [hmark, ← hagree t hlast u (hleft hu) hfills]
        exact ⟨rfl, .inl rfl⟩
      · have hfree : ∀ u ∈ targets requests, ¬ u.Fills t.way t.goal.slot :=
          fun u hu hf => hfilled ⟨u, hu, hf⟩
        by_cases hpassed : ∃ u ∈ targets requests, u.Passes t.way t.goal.slot
        · -- a node on the way gives room to its relation only
          rw [hshows.passed _ _ hfree hpassed]
          obtain ⟨u, hu, hpasses⟩ := hpassed
          refine ⟨?_, .inr rfl⟩
          by_contra hne
          refine halias ⟨t, ?_, u, ?_, hne, hpasses⟩
          · rw [targets_append ht]
            exact hlast
          · rw [targets_append ht]
            exact hleft hu
        · rw [hshows.absent _ _ hfree fun u hu hp => hpassed ⟨u, hu, hp⟩]
          exact trivial

/-- A request that is accepted leaves every slot its relation. -/
theorem addTo_relation {way : List String} {slot : String} {m : LoadMark} (h : addTo f r = .ok f')
    (hm : LoadNode.mark? f way slot = some m) :
    ∃ m', LoadNode.mark? f' way slot = some m' ∧ m'.relation = m.relation := by
  rw [addTo_eq] at h
  cases ht : r.target? with
  | none =>
    rw [ht] at h
    cases h
  | some t =>
    rw [ht] at h
    dsimp only at h
    rw [LoadNode.insert_marks h, LoadNode.marksAfter]
    by_cases hfills : way = t.way ∧ slot = t.goal.slot
    · -- the goal is admitted in this slot, so it has the relation of what was there
      have hroom := (LoadNode.insert_isOk t.goal "" t.way f).1 (by rw [h]; rfl)
      rw [← hfills.1, ← hfills.2, hm] at hroom
      rw [if_pos hfills]
      exact ⟨t.goal.mark, rfl, hroom.1.symm⟩
    · rw [if_neg hfills, hm]
      refine ⟨m, ?_, rfl⟩
      split <;> rfl

/-- The relation of a slot stays. -/
theorem foldlM_relation {way : List String} {slot : String} {m : LoadMark}
    (h : requests.foldlM addTo f = .ok f') (hm : LoadNode.mark? f way slot = some m) :
    ∃ m', LoadNode.mark? f' way slot = some m' ∧ m'.relation = m.relation := by
  induction requests generalizing f m with
  | nil =>
    cases h
    exact ⟨m, hm, rfl⟩
  | cons r requests ih =>
    rw [List.foldlM_cons] at h
    cases hadd : addTo f r with
    | error e =>
      rw [hadd] at h
      cases h
    | ok g =>
      rw [hadd] at h
      obtain ⟨m₁, hm₁, hrelation₁⟩ := addTo_relation hadd hm
      obtain ⟨m₂, hm₂, hrelation₂⟩ := ih h hm₁
      exact ⟨m₂, hm₂, hrelation₂.trans hrelation₁⟩

/-- Requests that are accepted have well-formed paths. -/
theorem target?_isSome_of_forest (h : forest requests = .ok f) :
    ∀ r ∈ requests, r.target?.isSome = true := by
  induction requests using List.reverseRecOn generalizing f with
  | nil => exact fun _ hr => (nomatch hr)
  | append_singleton requests r ih =>
    obtain ⟨g, t, hg, ht, _⟩ := forest_append_ok h
    intro r' hr'
    obtain hr' | hr' := List.mem_append.1 hr'
    · exact ih hg r' hr'
    · rw [List.mem_singleton.1 hr', ht]
      rfl

theorem mem_targets {t : LoadTarget} : t ∈ targets requests ↔ ∃ r ∈ requests, r.target? = some t :=
  List.mem_filterMap

theorem mem_targets_of_perm {requests' : List LoadRequest} (h : requests.Perm requests')
    (t : LoadTarget) : t ∈ targets requests ↔ t ∈ targets requests' :=
  (h.filterMap target?).mem_iff

/-- A request whose path leads through an alias is refused when it comes first: it takes the slot on
its way for the relation of that name. -/
theorem forest_error_of_first {t u : LoadTarget} (hu : r.target? = some u)
    (ht : t ∈ targets requests) (halias : t.IsAlias) (hpasses : u.Passes t.way t.goal.slot) :
    (forest (r :: requests)).isOk = false := by
  cases hf : forest (r :: requests) with
  | error e => rfl
  | ok f =>
    exfalso
    obtain ⟨_, hshows⟩ := forest_shows hf
    have htargets : targets (r :: requests) = u :: targets requests := by
      rw [targets, List.filterMap_cons, hu]
      rfl
    rw [htargets] at hshows
    have hfilled := hshows.filled t (List.mem_cons_of_mem _ ht)
    rw [forest, List.foldlM_cons] at hf
    cases hadd : addTo [] r with
    | error e =>
      rw [hadd] at hf
      cases hf
    | ok g =>
      rw [hadd] at hf
      have hforest : forest [r] = .ok g := by
        rw [forest, List.foldlM_cons, hadd]
        rfl
      obtain ⟨_, hfirst⟩ := forest_shows hforest
      have hsingle : targets [r] = [u] := by
        rw [targets, List.filterMap_cons, hu]
        rfl
      rw [hsingle] at hfirst
      -- the first request leaves the slot on the way, and what is on the way keeps the name of its
      -- relation
      have hpassed : LoadNode.mark? g t.way t.goal.slot = some (.onTheWay t.goal.slot) := by
        refine hfirst.passed _ _ ?_ ⟨u, List.mem_singleton_self u, hpasses⟩
        intro v hv
        rw [List.mem_singleton.1 hv]
        exact hpasses.not_fills
      obtain ⟨m, hm, hrelation⟩ := foldlM_relation hf hpassed
      rw [hfilled] at hm
      obtain rfl := Option.some.inj hm
      exact halias hrelation.symm

/-- Requests that are accepted in one order are accepted in every order exactly where no path leads
through an alias. -/
theorem forest_isOk_of_perm (h : forest requests = .ok f) :
    (∀ order, order.Perm requests → (forest order).isOk = true) ↔ ¬ PassesAlias requests := by
  constructor
  · rintro hevery ⟨t, ht, u, hu, halias, hpasses⟩
    obtain ⟨r, hr, hru⟩ := mem_targets.1 hu
    obtain ⟨before, behind, rfl⟩ := List.append_of_mem hr
    have hfirst : (r :: (before ++ behind)).Perm (before ++ r :: behind) := List.perm_middle.symm
    have htarget : t ∈ targets (before ++ behind) := by
      obtain ⟨r', hr', hrt⟩ := mem_targets.1 ht
      refine mem_targets.2 ⟨r', ?_, hrt⟩
      obtain rfl | hr' := List.mem_cons.1 (hfirst.mem_iff.2 hr')
      · -- a path does not lead through its own end
        obtain rfl := Option.some.inj (hrt.symm.trans hru)
        exact (hpasses.not_fills ⟨rfl, rfl⟩).elim
      · exact hr'
    have hrefused := forest_error_of_first hru htarget halias hpasses
    rw [hevery _ hfirst] at hrefused
    cases hrefused
  · intro halias order hperm
    have hmem := mem_targets_of_perm hperm
    refine forest_isOk ?_ ?_ ?_
    · exact fun r hr => target?_isSome_of_forest h r (hperm.mem_iff.1 hr)
    · exact fun t ht u hu => (forest_shows h).2.goal_eq ((hmem t).1 ht) ((hmem u).1 hu)
    · rintro ⟨t, ht, u, hu, hpasses⟩
      exact halias ⟨t, (hmem t).1 ht, u, (hmem u).1 hu, hpasses⟩

/-- The order of requests does not show: in every two orders in which they are accepted the trees
are the same up to the order of siblings, and where one order is accepted, all are exactly if no
path leads through a slot that another request fills under an alias. -/
theorem forest_any_order (requests : List LoadRequest) :
    (∀ a b f g, a.Perm requests → b.Perm requests → forest a = .ok f → forest b = .ok g →
      LoadNode.Rearranged f g) ∧
    ((∃ a, a.Perm requests ∧ (forest a).isOk = true) →
      ((∀ b, b.Perm requests → (forest b).isOk = true) ↔ ¬ PassesAlias requests)) := by
  constructor
  -- a forest is told by its marks, and these by which targets there are
  · intro a b f g ha hb hf hg
    obtain ⟨hfgrown, hfshows⟩ := forest_shows hf
    obtain ⟨hggrown, hgshows⟩ := forest_shows hg
    have hmem := mem_targets_of_perm (ha.trans hb.symm)
    exact LoadNode.rearranged_of_marks hfgrown hggrown (hfshows.mark?_eq hgshows hmem)
  · rintro ⟨a, ha, hok⟩
    cases hf : forest a with
    | error e =>
      rw [hf] at hok
      cases hok
    | ok f =>
      have hmem := mem_targets_of_perm ha
      have hpasses : PassesAlias a ↔ PassesAlias requests := by
        unfold PassesAlias
        simp only [hmem]
      rw [← hpasses, ← forest_isOk_of_perm hf]
      constructor
      · exact fun h order horder => h order (horder.trans ha)
      · exact fun h order horder => h order (horder.trans ha.symm)

/-- A modifier may come behind the path that passes its slot. -/
theorem forest_any_order_modified :
    ∃ f g, forest [⟨"posts.author", none, none⟩, ⟨"posts", some "recent", none⟩] = .ok f ∧
      forest [⟨"posts", some "recent", none⟩, ⟨"posts.author", none, none⟩] = .ok g ∧
      LoadNode.Rearranged f g ∧
      ∀ b, b.Perm [⟨"posts.author", none, none⟩, ⟨"posts", some "recent", none⟩] →
        (forest b).isOk = true := by
  have hf :
      (forest [⟨"posts.author", none, none⟩, ⟨"posts", some "recent", none⟩]).isOk = true := by
    decide +kernel
  have hg :
      (forest [⟨"posts", some "recent", none⟩, ⟨"posts.author", none, none⟩]).isOk = true := by
    decide +kernel
  -- no target has an alias, so none is in the way of another one
  have hnames : ∀ t ∈ targets [⟨"posts.author", none, none⟩, ⟨"posts", some "recent", none⟩],
      t.goal.slot = t.goal.relation := by decide +kernel
  have hany := forest_any_order [⟨"posts.author", none, none⟩, ⟨"posts", some "recent", none⟩]
  have hevery := (hany.2 ⟨_, .refl _, hf⟩).2 fun h => h.choose_spec.2.choose_spec.2.1
    (hnames _ h.choose_spec.1)
  cases hf' : forest [⟨"posts.author", none, none⟩, ⟨"posts", some "recent", none⟩] with
  | error e =>
    rw [hf'] at hf
    cases hf
  | ok f =>
    cases hg' : forest [⟨"posts", some "recent", none⟩, ⟨"posts.author", none, none⟩] with
    | error e =>
      rw [hg'] at hg
      cases hg
    | ok g => exact ⟨f, g, rfl, rfl, hany.1 _ _ f g (.refl _) (.swap _ _ _) hf' hg', hevery⟩

/-- A path through an alias is accepted behind the request that fills the slot, and refused before
it. -/
theorem forest_before_alias :
    [LoadRequest.mk "x" none (some "a"), ⟨"a.b", none, none⟩].Perm
        [⟨"a.b", none, none⟩, ⟨"x", none, some "a"⟩] ∧
      (forest [⟨"x", none, some "a"⟩, ⟨"a.b", none, none⟩]).isOk = true ∧
      (forest [⟨"a.b", none, none⟩, ⟨"x", none, some "a"⟩]).isOk = false := by
  refine ⟨List.Perm.swap _ _ _, ?_, ?_⟩ <;> decide +kernel

end LoadRequest
end PolyQuery
