import PolyQuery.Proofs.Loading

/-! Children by their keys. What attaching shows in the slot of a parent depends on the keys alone: it is
the family of the parent, the children whose key is the key of the parent (`Loader.attach_held`). What
attaching does not write stays as it was: `Loader.attach_value`. -/
namespace PolyQuery

/-! ## Keys -/

theorem Record.Alike.symm {r r' : Record} {now : Number} (h : r.Alike now r') : r'.Alike now r :=
  ⟨h.properties.symm, fun slot => (h.loaded slot).symm⟩

namespace Store
variable {s t : Store} {id other : Nat} {property : String} {v : Value}

/-- The key of a value that holds no records depends on the value alone. -/
theorem readKey_congr (hnow : t.now = s.now) (hsize : t.records.size = s.records.size)
    (hvalue : t.value other property = s.value id property)
    (hplain : (s.value id property).inside = []) :
    (t.readKey other property).1 = (s.readKey id property).1 := by
  have hagree : (s.read id property).2.Agree (fun _ => False) (t.read other property).2 := by
    refine ⟨hnow, ?_, fun _ h => h.elim⟩
    exact (size_change ..).trans (hsize.trans (size_change ..).symm)
  have hmatch := (looks_matchKey (s := (s.read id property).2) (v := s.value id property)
    (fun other hother => (not_holds hplain other hother).elim) _ hagree).1
  unfold readKey
  dsimp only
  change (Except.map (fun key => (t.value other property, key))
    (matchKey (t.value other property) (t.read other property).2).1) = _
  rw [hvalue, hmatch]
  rfl

theorem readKey_undefined (h : s.value id property = .undefined) :
    (s.readKey id property).1 = .ok (.undefined, none) := by
  unfold readKey
  dsimp only
  change (Except.map (fun key => (s.value id property, key))
    (matchKey (s.value id property) (s.read id property).2).1) = _
  rw [h]
  rfl

/-- Where a value is the same or there is none, so is the key. -/
theorem readKey_kept {P : Prop} (hnow : t.now = s.now) (hsize : t.records.size = s.records.size)
    (hkept : P → t.value other property = s.value id property)
    (hlost : ¬ P → t.value other property = .undefined)
    (hplain : (s.value id property).inside = []) :
    (P → (t.readKey other property).1 = (s.readKey id property).1) ∧
      (¬ P → (t.readKey other property).1 = .ok (.undefined, none)) :=
  ⟨fun h => readKey_congr hnow hsize (hkept h) hplain, fun h => readKey_undefined (hlost h)⟩

theorem key?_congr (h : (t.readKey other property).1 = (s.readKey id property).1) :
    t.key? other property = s.key? id property := by
  unfold key?
  rw [h]

theorem key?_undefined (h : (s.readKey id property).1 = .ok (.undefined, none)) :
    s.key? id property = none := by
  unfold key?
  rw [h]

theorem hasKey_congr (h : (t.readKey other property).1 = (s.readKey id property).1) :
    t.hasKey other property = s.hasKey id property := congrArg Except.isOk h

/-- What a value holds depends on the records that it holds. -/
theorem Holds.of_alike {K : Nat → Prop} (hnow : t.now = s.now)
    (hrecord : ∀ id, K id → (s.record id).Alike s.now (t.record id))
    (hheld : ∀ id, s.Holds v id → K id) (h : t.Holds v id) : s.Holds v id := by
  induction h with
  | here hid => exact .here hid
  | @further v id other name hid hname _ ih =>
    have halike := hrecord id (hheld id (.here hid))
    have hread : (t.read id name).1 = (s.read id name).1 := by
      show ((t.record id).read t.now name).1 = ((s.record id).read s.now name).1
      rw [hnow]
      exact halike.read name
    rw [halike.visibleNames] at hname
    rw [hread] at ih
    exact .further hid hname (ih fun other hother => hheld other (.further hid hname hother))

end Store

/-! ## What attaching leaves -/

namespace Loader
variable {σ τ : Session} {step : LoadStep} {lifetime : Option Number} {parent id : Nat}
  {parents children mine : List Nat} {groups : List (String × List Nat)} {property : String}

theorem value_supplied (hout : ¬ Writes step [parent] mine id property) (s : Store) :
    (supplied step lifetime parent mine s).value id property = s.value id property := by
  have hfirst : (s.attach parent step.node.slot (slotValue step.relation.isToMany mine) lifetime
      true).value id property = s.value id property := by
    rw [Store.value_attach, if_neg]
    exact fun h => hout (.inl ⟨List.mem_singleton.2 h.1, h.2.1⟩)
  unfold supplied
  cases hinverse : step.relation.inverseSlot with
  | none => exact hfirst
  | some slot =>
    rw [Store.value_attachEach, if_neg, hfirst]
    rintro ⟨hid, rfl, -⟩
    exact hout (.inr ⟨hid, hinverse⟩)

theorem attachAll_value (hmembers : ∀ k, ∀ c ∈ (groups.lookup k).getD [], c ∈ children)
    (hout : ¬ Writes step parents children id property)
    (h : attachAll step lifetime groups parents σ = (.ok (), τ)) :
    τ.store.value id property = σ.store.value id property := by
  induction parents generalizing σ with
  | nil =>
    cases h
    rfl
  | cons p rest ih =>
    obtain ⟨v, key, -, h⟩ := attachAll_cons_ok h
    have hleft := (Store.looks_readKey (K := fun _ => True) σ.store p step.parentKey trivial
      (fun _ _ => trivial) _ (.refl _ _)).2.alike
    have hmine := membersOf_subset hmembers key
    have hfirst : ¬ Writes step [p] (membersOf groups key) id property := by
      rintro (⟨hid, hslot⟩ | ⟨hid, hslot⟩)
      · exact hout (.inl ⟨List.mem_singleton.1 hid ▸ List.mem_cons_self, hslot⟩)
      · exact hout (.inr ⟨hmine hid, hslot⟩)
    have hrest : ¬ Writes step rest children id property := fun hwrites =>
      hout (hwrites.imp (fun h => ⟨List.mem_cons_of_mem p h.1, h.2⟩) fun h => h)
    rw [ih hrest h]
    exact (value_supplied hfirst _).trans (hleft.value trivial property)

/-- Attaching leaves what it does not write. -/
theorem attach_value (hout : ¬ Writes step parents children id property)
    (h : attach step parents children σ = (.ok (), τ)) :
    τ.store.value id property = σ.store.value id property := by
  obtain ⟨-, t, groups, halike, hmembers, h⟩ := attach_ok h
  exact (attachAll_value hmembers hout h).trans (Store.Agree.value halike trivial _)

/-- The key of a parent can be told by its turn only if it could be told at first. -/
theorem hasKey_of_attachAll {s : Store} (hagree : s.Agree (Seen s step.parentKey parents) σ.store)
    (hdistinct : parents.Nodup) (hapart : ∀ p ∈ parents, p ∉ children)
    (hheld : ∀ p ∈ parents, ∀ id, s.Holds (s.value p step.parentKey) id →
      ¬ Touched step parents children id)
    (hmembers : ∀ k, ∀ c ∈ (groups.lookup k).getD [], c ∈ children)
    (h : attachAll step lifetime groups parents σ = (.ok (), τ)) :
    ∀ p ∈ parents, s.hasKey p step.parentKey = true := by
  induction parents generalizing σ with
  | nil => exact nofun
  | cons p rest ih =>
    have hp : p ∈ p :: rest := List.mem_cons_self
    have hlater : rest ⊆ p :: rest := List.subset_cons_self p rest
    obtain ⟨hfresh, hdistinct'⟩ := List.nodup_cons.1 hdistinct
    obtain ⟨hfound, hleft⟩ := Store.looks_readKey (K := Seen s step.parentKey (p :: rest)) s p
      step.parentKey ⟨p, hp, .inl rfl⟩ (fun id hid => ⟨p, hp, .inr hid⟩) _ hagree
    obtain ⟨v, key, hread, h⟩ := attachAll_cons_ok h
    have hfirst : s.hasKey p step.parentKey = true := by
      rw [Store.hasKey, ← hfound, hread]
      rfl
    -- the keys of the later parents are those of the first store: nothing they hold was touched
    have hrest : s.Agree (Seen s step.parentKey rest) (supplied step lifetime p
        (membersOf groups key) (σ.store.readKey p step.parentKey).2) :=
      agree_later (hagree.trans (hleft.alike.agree _)) hfresh (membersOf_subset hmembers key)
        (fun q hq => hapart q (hlater hq)) fun q hq => hheld q (hlater hq)
    refine List.forall_mem_cons.2 ⟨hfirst, ih hrest hdistinct' (fun q hq => hapart q (hlater hq))
      (fun q hq id hid htouched => ?_) h⟩
    exact hheld q (hlater hq) id hid (htouched.mono hlater fun _ hc => hc)

/-- What is attached has a key that can be told, and so has what it is attached to. -/
theorem hasKey_of_attach (hdistinct : parents.Nodup) (hapart : ∀ p ∈ parents, p ∉ children)
    (hheld : ∀ p ∈ parents, ∀ id, σ.store.Holds (σ.store.value p step.parentKey) id →
      ¬ Touched step parents children id)
    (h : attach step parents children σ = (.ok (), τ)) :
    (∀ p ∈ parents, σ.store.hasKey p step.parentKey = true) ∧
      ∀ c ∈ children, σ.store.hasKey c step.childKey = true := by
  obtain ⟨hkeys, t, groups, halike, hmembers, h⟩ := attach_ok h
  exact ⟨hasKey_of_attachAll (halike.agree _) hdistinct hapart hheld hmembers h, hkeys⟩

end Loader

/-! ## Children of a parent -/

/-- The number of children in the slot of a parent. -/
def LoadStep.held (step : LoadStep) (s : Store) (parent : Nat) : Nat :=
  (s.value parent step.node.slot).inside.length

/-- The children of a parent, by their keys. -/
def LoadStep.family (step : LoadStep) (s : Store) (children : List Nat) (parent : Nat) : List Nat :=
  children.filter (step.pairs s parent)

/-- The number of children that a slot shows where some were attached. -/
def LoadStep.shownCount (step : LoadStep) (now : Number) (lifetime : Option Number)
    (mine : List Nat) : Nat :=
  (Record.shown now (Loader.slotValue step.relation.isToMany mine) lifetime now).inside.length

namespace LoadStep
variable {step : LoadStep} {s : Store} {children : List Nat} {parent : Nat} {v : Value}

theorem Belongs.eq_slotValue (h : step.Belongs s children parent v) :
    v = Loader.slotValue step.relation.isToMany (step.family s children parent) := by
  unfold Loader.slotValue family
  cases hmany : step.relation.isToMany with
  | true => exact h.many hmany
  | false =>
    rw [if_neg Bool.false_ne_true, List.head?_filter]
    exact h.one hmany

theorem shownCount_nil (step : LoadStep) (now : Number) (lifetime : Option Number) :
    step.shownCount now lifetime [] = 0 := by
  unfold shownCount Record.shown
  split
  · rw [inside_slotValue]
    split <;> rfl
  · rfl

end LoadStep

namespace Loader
variable {σ : Session} {step : LoadStep} {parents children : List Nat}

/-- After attaching, a slot shows the family of its parent. -/
theorem attach_held (hdistinct : parents.Nodup)
    (hthere : ∀ p ∈ parents, p < σ.store.records.size) (hapart : ∀ p ∈ parents, p ∉ children)
    (hparents : ∀ p ∈ parents, σ.store.hasKey p step.parentKey = true)
    (hchildren : ∀ c ∈ children, σ.store.hasKey c step.childKey = true)
    (hheld : ∀ p ∈ parents, ∀ id, σ.store.Holds (σ.store.value p step.parentKey) id →
      ¬ Touched step parents children id) :
    ∃ t, attach step parents children σ = (.ok (), { σ with store := t }) ∧
      t.now = σ.store.now ∧ t.records.size = σ.store.records.size ∧
      ∀ p ∈ parents, step.held t p = step.shownCount σ.store.now
        (step.relation.lifetime.or σ.relationLifetime) (step.family σ.store children p) := by
  obtain ⟨t, hattach, hagree, hslots⟩ :=
    attach_sorts hdistinct hthere hapart hparents hchildren hheld
  refine ⟨t, hattach, hagree.now, hagree.size, fun p hp => ?_⟩
  obtain ⟨⟨v, hbelongs, hkeeps⟩, -⟩ := hslots p hp
  rw [LoadStep.held, LoadStep.shownCount, ← hbelongs.eq_slotValue, ← hagree.now]
  exact congrArg (fun v => v.inside.length) (hkeeps t.now)

end Loader

end PolyQuery
