import Mathlib.Data.List.Nodup
import PolyQuery.Proofs.Families

/-! Slots that point back. Children are given to their parents one parent after another, and every
time they are pointed at the parent: `Loader.Dealt`. So a child that several parents hold points
back at the last of them, and all children point back at the parents that hold them exactly where
no two parents share a child: `Loader.attach_points_back`. -/
namespace PolyQuery

/-- From the end of a list, the first item found of which something is true is the last one. -/
theorem findSome?_reverse_ite {α β : Type} {P : α → Prop} [DecidablePred P] (f : α → β)
    {xs : List α} {x : α} (hx : x ∈ xs) (hP : P x) :
    ∃ before y after, xs = before ++ y :: after ∧ P y ∧ (∀ z ∈ after, ¬ P z) ∧
      (xs.reverse.findSome? fun z => if P z then some (f z) else none) = some (f y) := by
  cases hfound : xs.reverse.findSome? fun z => if P z then some (f z) else none with
  | none =>
    have hnone := List.findSome?_eq_none_iff.1 hfound x (List.mem_reverse.2 hx)
    rw [if_pos hP] at hnone
    cases hnone
  | some b =>
    obtain ⟨later, y, earlier, hsplit, hb, hlater⟩ := List.findSome?_eq_some_iff.1 hfound
    -- what is found first from behind is the last one
    have horder : xs = earlier.reverse ++ y :: later.reverse := by
      rw [← List.reverse_reverse xs, hsplit]
      simp
    by_cases hy : P y
    · rw [if_pos hy] at hb
      refine ⟨earlier.reverse, y, later.reverse, horder, hy, ?_, hb.symm⟩
      intro z hz hPz
      have hnone := hlater z (List.mem_reverse.1 hz)
      rw [if_pos hPz] at hnone
      cases hnone
    · rw [if_neg hy] at hb
      cases hb

namespace Store
variable {s t : Store} {id : Nat} {property : String}

/-- The key of a property is the same where its value is, and the records that this holds. -/
theorem readKey_of_held (hagree : s.Agree (fun other => s.Holds (s.value id property) other) t)
    (hvalue : t.value id property = s.value id property) :
    (t.readKey id property).1 = (s.readKey id property).1 := by
  have hlooks := looks_matchKey (s := s) (v := s.value id property) fun _ hother => hother
  have hread (u : Store) : u.Alike (u.read id property).2 :=
    (looks_read (K := fun _ => True) (s := u) trivial property u (.refl _ _)).2.alike
  have hthis := (hlooks _ ((hread s).agree _)).1
  have hother := (hlooks _ (hagree.trans ((hread t).agree _))).1
  unfold readKey
  dsimp only
  change (Except.map (fun key => (t.value id property, key))
      (matchKey (t.value id property) (t.read id property).2).1) =
    Except.map (fun key => (s.value id property, key))
      (matchKey (s.value id property) (s.read id property).2).1
  rw [hvalue, hother, hthis]

end Store

namespace Loader
variable {σ τ : Session} {s t u : Store} {step : LoadStep} {lifetime : Option Number}
  {p q c id : Nat} {parents all children mine : List Nat} {groups : List (String × List Nat)}
  {given : List (Nat × List Nat)} {property inverse : String} {r : Except Error Unit}

/-! ## Parents that get their children in turn -/

/-- From one store to the next one parent after another got its children. In between the store is
looked at. -/
inductive Dealt (step : LoadStep) (lifetime : Option Number) :
    List (Nat × List Nat) → Store → Store → Prop where
  | nil {s t : Store} (hlook : s.Alike t) : Dealt step lifetime [] s t
  | cons {p : Nat} {mine : List Nat} {rest : List (Nat × List Nat)} {s t u : Store}
      (hlook : s.Alike t) (hrest : Dealt step lifetime rest (supplied step lifetime p mine t) u) :
      Dealt step lifetime ((p, mine) :: rest) s u

theorem Dealt.of_alike (hlook : s.Alike t) (h : Dealt step lifetime given t u) :
    Dealt step lifetime given s u := by
  cases h with
  | nil h => exact .nil (hlook.trans h)
  | cons h hrest => exact .cons (hlook.trans h) hrest

theorem Dealt.size (h : Dealt step lifetime given s t) : t.records.size = s.records.size := by
  induction h with
  | nil hlook => exact hlook.size
  | cons hlook _ ih => exact ih.trans ((agree_supplied ..).size.trans hlook.size)

/-- What is read of a property is the last thing that was put there. -/
theorem Dealt.value (h : Dealt step lifetime given s t) (put : Nat × List Nat → Option Value)
    (hput : ∀ d ∈ given, ∀ u : Store, u.records.size = s.records.size →
      (supplied step lifetime d.1 d.2 u).value id property =
        ((put d).map fun v => Record.shown u.now v lifetime u.now).getD (u.value id property)) :
    t.value id property = ((given.reverse.findSome? put).map fun v =>
      Record.shown s.now v lifetime s.now).getD (s.value id property) := by
  induction h with
  | nil hlook => exact hlook.value trivial property
  | @cons p mine rest s t u hlook _ ih =>
    obtain ⟨hfirst, hrest⟩ := List.forall_mem_cons.1 hput
    have hagree := agree_supplied step lifetime p mine t
    have hnow : (supplied step lifetime p mine t).now = s.now := hagree.now.trans hlook.now
    have hsize : (supplied step lifetime p mine t).records.size = s.records.size :=
      hagree.size.trans hlook.size
    have hlater := ih fun d hd u hu => hrest d hd u (hu.trans hsize)
    rw [hlater, hnow, hfirst t hlook.size, hlook.now, List.reverse_cons, List.findSome?_append,
      hlook.value trivial property]
    -- of the parents that put something there the last one counts
    cases rest.reverse.findSome? put with
    | some v => rfl
    | none =>
      show _ = (Option.map _ (List.findSome? put [(p, mine)])).getD _
      rw [List.findSome?_singleton]
      rfl

theorem supplied_eq_attachEach (hinverse : step.relation.inverseSlot = some inverse) (s : Store) :
    supplied step lifetime p mine s = Store.attachEach mine inverse (.record p) lifetime false
      (s.attach p step.node.slot (slotValue step.relation.isToMany mine) lifetime true) := by
  unfold supplied
  rw [hinverse]

/-- A child points at the last of the parents that it was given to. -/
theorem Dealt.value_inverse (h : Dealt step lifetime given s t)
    (hinverse : step.relation.inverseSlot = some inverse) (hc : c < s.records.size)
    (hapart : ∀ d ∈ given, d.1 ≠ c) :
    t.value c inverse = ((given.reverse.findSome? fun d =>
      if c ∈ d.2 then some (Value.record d.1) else none).map fun v =>
        Record.shown s.now v lifetime s.now).getD (s.value c inverse) := by
  refine h.value _ ?_
  intro d hd u hu
  have hfirst : (u.attach d.1 step.node.slot (slotValue step.relation.isToMany d.2) lifetime
      true).value c inverse = u.value c inverse := by
    rw [Store.value_attach, if_neg fun h => hapart d hd h.1.symm]
  have hsize : (u.attach d.1 step.node.slot (slotValue step.relation.isToMany d.2) lifetime
      true).records.size = s.records.size := (Store.size_change ..).trans hu
  rw [supplied_eq_attachEach hinverse, Store.value_attachEach, hsize, hfirst]
  by_cases hmem : c ∈ d.2
  · rw [if_pos ⟨hmem, rfl, hc⟩, if_pos hmem]
    rfl
  · rw [if_neg fun h => hmem h.1, if_neg hmem]
    rfl

/-- The slot of a parent holds what it was given last. -/
theorem Dealt.value_slot (h : Dealt step lifetime given s t) (hp : p < s.records.size)
    (hapart : ∀ d ∈ given, p ∉ d.2) :
    t.value p step.node.slot = ((given.reverse.findSome? fun d =>
      if d.1 = p then some (slotValue step.relation.isToMany d.2) else none).map fun v =>
        Record.shown s.now v lifetime s.now).getD (s.value p step.node.slot) := by
  refine h.value _ ?_
  intro d hd u hu
  by_cases hparent : d.1 = p
  · rw [if_pos hparent]
    subst hparent
    show (((supplied step lifetime d.1 d.2 u).record d.1).read
      (supplied step lifetime d.1 d.2 u).now step.node.slot).1 = _
    rw [record_supplied_parent (hu ▸ hp) (hapart d hd), Record.read_attach,
      (agree_supplied step lifetime d.1 d.2 u).now]
    rfl
  · rw [if_neg hparent, value_supplied]
    · rfl
    · rintro (⟨hid, -⟩ | ⟨hid, -⟩)
      · exact hparent (List.mem_singleton.1 hid).symm
      · exact hapart d hd hid

/-! ## What each parent gets -/

/-- The keys of some parents can be told as in an earlier store. -/
def Standing (s : Store) (property : String) (parents : List Nat) (t : Store) : Prop :=
  ∀ p ∈ parents, t.value p property = s.value p property ∧
    s.Agree (fun id => s.Holds (s.value p property) id) t

theorem Standing.key? (h : Standing s property parents t) (hp : p ∈ parents) :
    t.key? p property = s.key? p property :=
  Store.key?_congr (Store.readKey_of_held (h p hp).2 (h p hp).1)

/-- Attaching does not reach the keys of parents: no parent is a child, no key holds a record to
which something is attached, and a key that is read twice is not in the slot. -/
structure Undisturbed (step : LoadStep) (s : Store) (all children parents : List Nat) : Prop where
  apart : ∀ p ∈ parents, p ∉ children
  again : parents.Nodup ∨ step.node.slot ≠ step.parentKey
  held : ∀ p ∈ parents, ∀ id, s.Holds (s.value p step.parentKey) id → ¬ Touched step all children id

theorem Undisturbed.tail (h : Undisturbed step s all children (p :: parents)) :
    Undisturbed step s all children parents :=
  ⟨fun q hq => h.apart q (List.mem_cons_of_mem p hq),
    h.again.imp_left fun hdistinct => (List.nodup_cons.1 hdistinct).2,
    fun q hq => h.held q (List.mem_cons_of_mem p hq)⟩

/-- So the others keep their keys when one gets its children. -/
theorem Standing.supplied (h : Standing s step.parentKey (p :: parents) t) (hlook : t.Alike u)
    (hundisturbed : Undisturbed step s all children (p :: parents)) (hmine : mine ⊆ children)
    (hp : p ∈ all) : Standing s step.parentKey parents (supplied step lifetime p mine u) := by
  intro q hq
  obtain ⟨hvalue, hagree⟩ := h q (List.mem_cons_of_mem p hq)
  have hout : ¬ Writes step [p] mine q step.parentKey := by
    rintro (⟨hqp, hslot⟩ | ⟨hchild, -⟩)
    · rcases hundisturbed.again with hdistinct | hother
      · exact (List.nodup_cons.1 hdistinct).1 (List.mem_singleton.1 hqp ▸ hq)
      · exact hother hslot.symm
    · exact hundisturbed.tail.apart q hq (hmine hchild)
  refine ⟨(value_supplied hout u).trans ((hlook.value trivial _).trans hvalue), ?_⟩
  refine (hagree.trans (hlook.agree _)).trans ((agree_supplied ..).mono ?_)
  intro id hid htouched
  exact hundisturbed.tail.held q hq id hid
    (htouched.mono (List.cons_subset.2 ⟨hp, List.nil_subset all⟩) hmine)

/-- Parents get their children in turn, each the group of a key: all of them, or those before one
whose key is refused. -/
theorem attachAll_dealt (hmembers : ∀ k, ∀ c ∈ (groups.lookup k).getD [], c ∈ children)
    (hall : parents ⊆ all) (h : attachAll step lifetime groups parents σ = (r, τ)) :
    ∃ given, given.map Prod.fst <+: parents ∧ (r = .ok () → given.map Prod.fst = parents) ∧
      Dealt step lifetime given σ.store τ.store ∧ (∀ d ∈ given, ∃ key, d.2 = membersOf groups key) ∧
      (Undisturbed step s all children parents → Standing s step.parentKey parents σ.store →
        ∀ d ∈ given, d.2 = membersOf groups (s.key? d.1 step.parentKey)) := by
  induction parents generalizing σ with
  | nil =>
    cases h
    exact ⟨[], List.nil_prefix, fun _ => rfl, .nil (.refl _ _), nofun, fun _ _ => nofun⟩
  | cons p rest ih =>
    obtain ⟨hp, hrest⟩ := List.cons_subset.1 hall
    have hlook := (Store.looks_readKey (K := fun _ => True) σ.store p step.parentKey trivial
      (fun _ _ => trivial) _ (.refl _ _)).2.alike
    have hkeyOf := keyOf_apply p step.parentKey σ
    cases hread : (σ.store.readKey p step.parentKey).1 with
    | error e =>
      rw [hread] at hkeyOf
      rw [attachAll, Run.bind_error hkeyOf] at h
      cases h
      refine ⟨[], List.nil_prefix, fun hok => ?_, .nil hlook, nofun, fun _ _ => nofun⟩
      cases hok
    | ok read =>
      obtain ⟨v, key⟩ := read
      rw [hread] at hkeyOf
      rw [attachAll_cons hkeyOf] at h
      obtain ⟨given, hprefix, hgiven, hdealt, hgroups, htold⟩ := ih hrest h
      refine ⟨(p, membersOf groups key) :: given, List.cons_prefix_cons.2 ⟨rfl, hprefix⟩,
        fun hok => congrArg (p :: ·) (hgiven hok), .cons hlook hdealt,
        List.forall_mem_cons.2 ⟨⟨key, rfl⟩, hgroups⟩, ?_⟩
      intro hundisturbed hstanding
      -- the key was told after the parents before got theirs, and is still that of the first store
      have hkey : key = s.key? p step.parentKey := by
        rw [← hstanding.key? List.mem_cons_self, Store.key?, hread]
      refine List.forall_mem_cons.2 ⟨congrArg (membersOf groups) hkey, htold hundisturbed.tail ?_⟩
      exact hstanding.supplied hlook hundisturbed (membersOf_subset hmembers key) hp

/-- Whatever comes of attaching, parents got children in turn. -/
theorem attach_dealt (h : attach step parents children σ = (r, τ)) :
    ∃ given, given.map Prod.fst <+: parents ∧ (r = .ok () → given.map Prod.fst = parents) ∧
      Dealt step (step.relation.lifetime.or σ.relationLifetime) given σ.store τ.store ∧
      ∀ d ∈ given, d.2 ⊆ children := by
  obtain ⟨hfailed, halike⟩ | ⟨-, t, groups, halike, hgroups, hall⟩ := attach_grouped h
  · exact ⟨[], List.nil_prefix, fun hok => (hfailed hok).elim, .nil halike, nofun⟩
  · have hmembers := mem_of_grouped hgroups
    obtain ⟨given, hprefix, hgiven, hdealt, hkeys, -⟩ :=
      attachAll_dealt (s := t) hmembers (List.Subset.refl parents) hall
    refine ⟨given, hprefix, hgiven, hdealt.of_alike halike, fun d hd => ?_⟩
    obtain ⟨key, hkey⟩ := hkeys d hd
    exact hkey ▸ membersOf_subset hmembers key

theorem membersOf_eq_of_mem (hgroups : ∀ k, (groups.lookup k).getD [] =
      children.filter fun c => s.key? c step.childKey = some k) {key other : Option String}
    (hkey : c ∈ membersOf groups key) (hother : c ∈ membersOf groups other) :
    membersOf groups key = membersOf groups other := by
  have htold {key : Option String} (h : c ∈ membersOf groups key) :
      key = s.key? c step.childKey := by
    cases key with
    | none => cases h
    | some k =>
      change c ∈ (groups.lookup k).getD [] at h
      rw [hgroups, List.mem_filter, decide_eq_true_iff] at h
      exact h.2.symm
  rw [htold hkey, htold hother]

/-! ## Children that point back -/

/-- Parents that share a child share all, and a parent that is listed again gets the same. -/
structure Shares (parents children : List Nat) (given : List (Nat × List Nat)) : Prop where
  parents : given.map Prod.fst = parents
  children : ∀ d ∈ given, d.2 ⊆ children
  whole : ∀ d ∈ given, ∀ e ∈ given, ∀ c, c ∈ d.2 → c ∈ e.2 → d.2 = e.2
  again : ∀ d ∈ given, ∀ e ∈ given, d.1 = e.1 → d.2 = e.2

/-- What the parents were given. -/
theorem attach_shares (hapart : ∀ p ∈ parents, p ∉ children)
    (hagain : parents.Nodup ∨ step.node.slot ≠ step.parentKey ∧ ∀ p ∈ parents, ∀ id,
      σ.store.Holds (σ.store.value p step.parentKey) id → ¬ Touched step parents children id)
    (h : attach step parents children σ = (.ok (), τ)) :
    ∃ given, Dealt step (step.relation.lifetime.or σ.relationLifetime) given σ.store τ.store ∧
      Shares parents children given ∧
      (Undisturbed step σ.store parents children parents →
        ∀ d ∈ given, d.2 = step.family σ.store children d.1) := by
  obtain ⟨-, t, groups, halike, hgroups, h⟩ :=
    (attach_grouped h).resolve_left fun hfailed => hfailed.1 rfl
  have hmembers := mem_of_grouped hgroups
  obtain ⟨given, -, hgiven, hdealt, hkeys, htold⟩ :=
    attachAll_dealt (s := σ.store) hmembers (List.Subset.refl parents) h
  have hstanding : Standing σ.store step.parentKey parents t :=
    fun p _ => ⟨halike.value trivial _, halike.agree _⟩
  have hfamily : Undisturbed step σ.store parents children parents →
      ∀ d ∈ given, d.2 = step.family σ.store children d.1 := fun hundisturbed d hd =>
    (htold hundisturbed hstanding d hd).trans (membersOf_eq_filter hgroups d.1)
  refine ⟨given, hdealt.of_alike halike, ⟨hgiven rfl, ?_, ?_, ?_⟩, hfamily⟩
  · intro d hd
    obtain ⟨key, hkey⟩ := hkeys d hd
    exact hkey ▸ membersOf_subset hmembers key
  · intro d hd e he c hcd hce
    obtain ⟨key, hkey⟩ := hkeys d hd
    obtain ⟨other, hother⟩ := hkeys e he
    rw [hkey] at hcd ⊢
    rw [hother] at hce ⊢
    exact membersOf_eq_of_mem hgroups hcd hce
  · intro d hd e he hparent
    -- a parent that is served twice is given the same, if serving it did not change its key
    rcases hagain with hdistinct | ⟨hslot, hheld⟩
    · rw [List.inj_on_of_nodup_map ((hgiven rfl).symm ▸ hdistinct) hd he hparent]
    · have hundisturbed : Undisturbed step σ.store parents children parents :=
        ⟨hapart, .inr hslot, hheld⟩
      rw [hfamily hundisturbed d hd, hfamily hundisturbed e he, hparent]

/-- The slot of a parent shows what this was given. -/
theorem Dealt.value_slot_of_mem (h : Dealt step lifetime given s t)
    (hshares : Shares parents children given) (hthere : ∀ p ∈ parents, p < s.records.size)
    (hapart : ∀ p ∈ parents, p ∉ children) {d : Nat × List Nat} (hd : d ∈ given) :
    t.value d.1 step.node.slot =
      Record.shown s.now (slotValue step.relation.isToMany d.2) lifetime s.now := by
  have hparent {e : Nat × List Nat} (he : e ∈ given) : e.1 ∈ parents :=
    hshares.parents ▸ List.mem_map_of_mem he
  rw [h.value_slot (hthere _ (hparent hd)) fun e he hmem =>
    hapart _ (hparent hd) (hshares.children e he hmem)]
  obtain ⟨before, e, after, horder, hsame, -, hlast⟩ := findSome?_reverse_ite
    (P := fun e : Nat × List Nat => e.1 = d.1)
    (fun e => slotValue step.relation.isToMany e.2) hd rfl
  have he : e ∈ given := horder ▸ List.mem_append_right _ List.mem_cons_self
  rw [hlast, hshares.again e he d hd hsame]
  rfl

end Loader

/-- The children in the slot of a parent. -/
def LoadStep.members (step : LoadStep) (s : Store) (parent : Nat) : List Nat :=
  (s.value parent step.node.slot).inside

/-- The last of some records of which something is true. -/
def IsLast (P : Nat → Prop) (ids : List Nat) (q : Nat) : Prop :=
  ∃ before after, ids = before ++ q :: after ∧ P q ∧ ∀ p ∈ after, ¬ P p

theorem Record.inside_shown {now n : Number} {v : Value} {lifetime : Option Number} {c : Nat}
    (h : c ∈ (shown now v lifetime n).inside) :
    c ∈ v.inside ∧ ∀ w, shown now w lifetime n = w := by
  unfold shown at h
  split at h
  · next hlive => exact ⟨h, fun w => if_pos hlive⟩
  · cases h

namespace Loader
variable {σ τ : Session} {s t : Store} {step : LoadStep} {lifetime : Option Number}
  {parents children : List Nat} {given : List (Nat × List Nat)} {inverse : String}

theorem family_eq_of_key {p q : Nat} (h : s.key? p step.parentKey = s.key? q step.parentKey) :
    step.family s children p = step.family s children q := by
  unfold LoadStep.family LoadStep.pairs
  rw [h]

theorem key_of_mem_family {p c : Nat} (h : c ∈ step.family s children p) :
    s.key? p step.parentKey = s.key? c step.childKey := by
  obtain ⟨key, hchild, hparent⟩ := LoadStep.pairs_iff.1 (List.mem_filter.1 h).2
  rw [hchild, hparent]

/-- A child in a slot points back at the last parent whose slot it is in. -/
theorem Dealt.points_back (h : Dealt step lifetime given s t)
    (hshares : Shares parents children given)
    (hinverse : step.relation.inverseSlot = some inverse)
    (hthere : ∀ id ∈ parents ++ children, id < s.records.size)
    (hapart : ∀ p ∈ parents, p ∉ children) {p c : Nat} (hp : p ∈ parents)
    (hc : c ∈ step.members t p) :
    ∃ q, IsLast (fun p => c ∈ step.members t p) parents q ∧ t.value c inverse = .record q := by
  have hslot {d : Nat × List Nat} (hd : d ∈ given) := h.value_slot_of_mem hshares
    (fun p hp => hthere p (List.mem_append_left _ hp)) hapart hd
  -- the slot is live, and so is what was attached together with it
  obtain ⟨d, hd, rfl⟩ := List.mem_map.1 (hshares.parents ▸ hp)
  unfold LoadStep.members at hc
  rw [hslot hd] at hc
  obtain ⟨hinside, hlive⟩ := Record.inside_shown hc
  have hmembers {e : Nat × List Nat} (he : e ∈ given) :
      step.members t e.1 = (slotValue step.relation.isToMany e.2).inside := by
    unfold LoadStep.members
    rw [hslot he, hlive]
  have hchild : c ∈ children := hshares.children d hd (LoadStep.mem_of_slotValue hinside)
  have hvalue := h.value_inverse hinverse (hthere c (List.mem_append_right _ hchild))
    fun e he heq => hapart e.1 (hshares.parents ▸ List.mem_map_of_mem he) (heq ▸ hchild)
  obtain ⟨before, e, after, horder, hce, hafter, hlast⟩ := findSome?_reverse_ite
    (P := fun e : Nat × List Nat => c ∈ e.2) (fun e => Value.record e.1) hd
    (LoadStep.mem_of_slotValue hinside)
  have he : e ∈ given := horder ▸ List.mem_append_right _ List.mem_cons_self
  rw [hlast] at hvalue
  refine ⟨e.1, ⟨before.map Prod.fst, after.map Prod.fst, ?_, ?_, ?_⟩, hvalue.trans (hlive _)⟩
  · rw [← hshares.parents, horder, List.map_append, List.map_cons]
  · -- the parents share the child, so they were given the same
    show c ∈ step.members t e.1
    rw [hmembers he, hshares.whole e he d hd c hce (LoadStep.mem_of_slotValue hinside)]
    exact hinside
  · rintro q hq hcq
    obtain ⟨f, hf, rfl⟩ := List.mem_map.1 hq
    have hf' : f ∈ given := horder ▸ List.mem_append_right _ (List.mem_cons_of_mem _ hf)
    rw [hmembers hf'] at hcq
    exact hafter f hf (LoadStep.mem_of_slotValue hcq)

/-- Where slots show the families of their parents, a child is in the slots of two parents only if
they have one key, and then all that is in the one is in the other. -/
theorem alone_iff {now : Number} (hmembers : ∀ p ∈ parents, step.members t p = (Record.shown now
      (slotValue step.relation.isToMany (step.family s children p)) lifetime now).inside) :
    (∀ p ∈ parents, ∀ q ∈ parents, ∀ c ∈ step.members t p, c ∈ step.members t q → p = q) ↔
      ∀ p ∈ parents, ∀ q ∈ parents, s.key? p step.parentKey = s.key? q step.parentKey →
        p = q ∨ step.members t p = [] := by
  constructor
  · intro hapart p hp q hq hkey
    cases hempty : step.members t p with
    | nil => exact .inr rfl
    | cons c rest =>
      have hcp : c ∈ step.members t p := hempty ▸ List.mem_cons_self
      refine .inl (hapart p hp q hq c hcp ?_)
      rw [hmembers q hq, ← family_eq_of_key hkey, ← hmembers p hp]
      exact hcp
  · intro hkeys p hp q hq c hcp hcq
    -- a child that a parent has pairs with it, so two parents of one child have the same key
    have hfamily {p : Nat} (hp : p ∈ parents) (hc : c ∈ step.members t p) :
        c ∈ step.family s children p :=
      LoadStep.mem_of_slotValue (Record.inside_shown (hmembers p hp ▸ hc)).1
    have hkey : s.key? p step.parentKey = s.key? q step.parentKey :=
      (key_of_mem_family (hfamily hp hcp)).trans (key_of_mem_family (hfamily hq hcq)).symm
    rcases hkeys p hp q hq hkey with heq | hempty
    · exact heq
    · rw [hempty] at hcp
      cases hcp

/-- A child in the slot of a parent points back at the last of the parents whose slots it is in. So
all children point back at the parents that hold them where no two parents hold the same child, and
nowhere else; and, where attaching does not reach the keys, where two parents with one key have no
children. No parent is a child, and a parent that is listed again keeps its key. -/
theorem attach_points_back (hinverse : step.relation.inverseSlot = some inverse)
    (hthere : ∀ id ∈ parents ++ children, id < σ.store.records.size)
    (hapart : ∀ p ∈ parents, p ∉ children)
    (hagain : parents.Nodup ∨ step.node.slot ≠ step.parentKey ∧ ∀ p ∈ parents, ∀ id,
      σ.store.Holds (σ.store.value p step.parentKey) id → ¬ Touched step parents children id)
    (h : attach step parents children σ = (.ok (), τ)) :
    (∀ p ∈ parents, ∀ c ∈ step.members τ.store p, ∃ q,
      IsLast (fun p => c ∈ step.members τ.store p) parents q ∧
        τ.store.value c inverse = .record q) ∧
    ((∀ p ∈ parents, ∀ c ∈ step.members τ.store p, τ.store.value c inverse = .record p) ↔
      ∀ p ∈ parents, ∀ q ∈ parents, ∀ c ∈ step.members τ.store p,
        c ∈ step.members τ.store q → p = q) ∧
    ((∀ p ∈ parents, ∀ id, σ.store.Holds (σ.store.value p step.parentKey) id →
        ¬ Touched step parents children id) →
      ((∀ p ∈ parents, ∀ c ∈ step.members τ.store p, τ.store.value c inverse = .record p) ↔
        ∀ p ∈ parents, ∀ q ∈ parents, σ.store.key? p step.parentKey = σ.store.key? q step.parentKey →
          p = q ∨ step.members τ.store p = [])) := by
  obtain ⟨given, hdealt, hshares, hfamily⟩ := attach_shares hapart hagain h
  have hback (p : Nat) (hp : p ∈ parents) (c : Nat) (hc : c ∈ step.members τ.store p) :=
    hdealt.points_back hshares hinverse hthere hapart hp hc
  -- a child points back to the last of its parents, so to each of them only if it has just one
  have hdisjoint : (∀ p ∈ parents, ∀ c ∈ step.members τ.store p,
        τ.store.value c inverse = .record p) ↔
      ∀ p ∈ parents, ∀ q ∈ parents, ∀ c ∈ step.members τ.store p,
        c ∈ step.members τ.store q → p = q := by
    constructor
    · intro hall p hp q hq c hcp hcq
      exact Value.record.inj ((hall p hp c hcp).symm.trans (hall q hq c hcq))
    · intro hapart p hp c hc
      obtain ⟨q, ⟨before, after, hsplit, hcq, -⟩, hvalue⟩ := hback p hp c hc
      have hq : q ∈ parents := hsplit ▸ List.mem_append_right _ List.mem_cons_self
      rw [hvalue, hapart p hp q hq c hc hcq]
  refine ⟨hback, hdisjoint, fun hheld => hdisjoint.trans ?_⟩
  have hundisturbed : Undisturbed step σ.store parents children parents :=
    ⟨hapart, hagain.imp_right And.left, hheld⟩
  have hmembers (p : Nat) (hp : p ∈ parents) : step.members τ.store p = (Record.shown σ.store.now
      (slotValue step.relation.isToMany (step.family σ.store children p))
      (step.relation.lifetime.or σ.relationLifetime) σ.store.now).inside := by
    obtain ⟨d, hd, rfl⟩ := List.mem_map.1 (hshares.parents ▸ hp)
    unfold LoadStep.members
    rw [hdealt.value_slot_of_mem hshares (fun p hp => hthere p (List.mem_append_left _ hp)) hapart
      hd, hfamily hundisturbed d hd]
  exact alone_iff hmembers

/-- An order and one without a key, which share no lines. -/
theorem attach_points_back_lines :
    ∃ τ, attach lineStep [0, 2] [3, 4, 5] orderLines = (.ok (), τ) ∧
      lineStep.members τ.store 0 = [3, 5] ∧
      ∀ p ∈ [0, 2], ∀ c ∈ lineStep.members τ.store p, τ.store.value c "order" = .record p := by
  have hok : (attach lineStep [0, 2] [3, 4, 5] orderLines).1.isOk = true := by decide +kernel
  have hmembers : lineStep.members (attach lineStep [0, 2] [3, 4, 5] orderLines).2.store 0 =
      [3, 5] := by decide +kernel
  have hnone : lineStep.members (attach lineStep [0, 2] [3, 4, 5] orderLines).2.store 2 = [] := by
    decide +kernel
  rcases hrun : attach lineStep [0, 2] [3, 4, 5] orderLines with ⟨_ | _, τ⟩
  · rw [hrun] at hok
    cases hok
  · rw [hrun] at hmembers hnone
    refine ⟨τ, rfl, hmembers, ?_⟩
    refine (attach_points_back rfl (by decide +kernel) (by decide) (.inl (by decide)) hrun).2.1.2 ?_
    -- the third order has no lines, so no line has two orders
    intro p hp q hq c hcp hcq
    simp only [List.mem_cons, List.not_mem_nil, or_false] at hp hq
    rcases hp with rfl | rfl <;> rcases hq with rfl | rfl
    · rfl
    · rw [hnone] at hcq
      cases hcq
    · rw [hnone] at hcp
      cases hcp
    · rfl

/-- Two orders have one key: the lines are in the slots of both and point back at the later one. -/
theorem line_points_at_later_order :
    (attach lineStep [0, 1, 2] [3, 4, 5] orderLines).1.isOk = true ∧
      3 ∈ lineStep.members (attach lineStep [0, 1, 2] [3, 4, 5] orderLines).2.store 0 ∧
      ((attach lineStep [0, 1, 2] [3, 4, 5] orderLines).2.store.value 3 "order").inside = [1] := by
  decide +kernel

end Loader
end PolyQuery
