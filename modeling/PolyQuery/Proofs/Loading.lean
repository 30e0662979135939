import PolyQuery.Proofs.Passage

/-! What loading does to slots, where no lifetime ends. Attaching children fills the slot of each
parent and the inverse slots of the children, and leaves the other slots: `attach_fills`. So a visit
whose batch only adds records fills the slots of its frame, and of the records that were there
before it leaves all other slots as they were: `visit_isLocal`. -/
namespace PolyQuery

namespace Record
variable {r : Record} {now : Number} {slot : String} {v : Value} {lifetime : Option Number}
  {visible : Bool}

theorem readCache_attach (hlasting : endingLifetime lifetime = none) (other : String) :
    ((r.attach now slot v lifetime visible).readCache now other).1 =
      if other = slot then some v else (r.readCache now other).1 := by
  have hentry : (r.attach now slot v lifetime visible).cache.lookup other =
      if other = slot then some ⟨v, none⟩ else r.cache.lookup other := by
    show (Fields.put r.cache slot ⟨v, (endingLifetime lifetime).map now.add⟩).lookup other = _
    rw [lookup_put, hlasting]
    rfl
  unfold readCache
  rw [hentry]
  by_cases hother : other = slot
  · rw [if_pos hother, if_pos hother]
    rfl
  · rw [if_neg hother, if_neg hother]
    rcases r.cache.lookup other with _ | e
    · rfl
    · dsimp only
      split <;> rfl

theorem readCache_clear (r : Record) (now : Number) (slot other : String) :
    ((r.clear (some slot)).readCache now other).1 =
      if other = slot then none else (r.readCache now other).1 := by
  have hentry : (r.clear (some slot)).cache.lookup other =
      if other = slot then none else r.cache.lookup other := lookup_without ..
  unfold readCache
  rw [hentry]
  by_cases hother : other = slot
  · rw [if_pos hother, if_pos hother]
  · rw [if_neg hother, if_neg hother]
    rcases r.cache.lookup other with _ | e
    · rfl
    · dsimp only
      split <;> rfl

end Record

namespace Store
variable {s t u : Store} {W : Nat → String → Prop} {id : Nat} {slot : String} {v : Value}
  {lifetime : Option Number} {visible : Bool}

/-- The value of a slot, if it is loaded. -/
def loaded? (s : Store) (id : Nat) (slot : String) : Option Value := (s.cached? id slot).1

theorem loaded?_eq (s : Store) (id : Nat) (slot : String) :
    s.loaded? id slot = ((s.record id).readCache s.now slot).1 := rfl

theorem Alike.loaded? (h : s.Alike t) (id : Nat) (slot : String) :
    t.loaded? id slot = s.loaded? id slot := by
  rw [loaded?_eq, loaded?_eq, h.now]
  exact (h.record id trivial).loaded slot

theorem loaded?_attach (s : Store) (id : Nat) (slot : String) (v : Value)
    (hlasting : Record.endingLifetime lifetime = none) (visible : Bool) (other : Nat)
    (property : String) : (s.attach id slot v lifetime visible).loaded? other property =
      if other = id ∧ property = slot ∧ id < s.records.size then some v
      else s.loaded? other property := by
  show (((s.attach id slot v lifetime visible).record other).readCache s.now property).1 =
    ite _ _ ((s.record other).readCache s.now property).1
  rw [attach, record_change]
  by_cases hother : other = id ∧ id < s.records.size
  · rw [if_pos hother, hother.1, Record.readCache_attach hlasting]
    by_cases hproperty : property = slot
    · rw [if_pos hproperty, if_pos ⟨rfl, hproperty, hother.2⟩]
    · rw [if_neg hproperty, if_neg fun h => hproperty h.2.1]
  · rw [if_neg hother, if_neg fun h => hother ⟨h.1, h.2.2⟩]

theorem loaded?_clear (s : Store) (id : Nat) (slot : String) (other : Nat) (property : String) :
    (s.clear id (some slot)).loaded? other property =
      if other = id ∧ property = slot then none else s.loaded? other property := by
  show (((s.clear id (some slot)).record other).readCache s.now property).1 =
    ite _ _ ((s.record other).readCache s.now property).1
  rw [clear, record_change]
  by_cases hother : other = id ∧ id < s.records.size
  · rw [if_pos hother, Record.readCache_clear, hother.1]
    by_cases hproperty : property = slot
    · rw [if_pos hproperty, if_pos ⟨rfl, hproperty⟩]
    · rw [if_neg hproperty, if_neg fun h => hproperty h.2]
  · rw [if_neg hother]
    split
    · next h =>
      -- there is no such record, and what is not there has nothing loaded
      have hbeyond : s.records.size ≤ other :=
        Nat.le_of_not_lt fun hthere => hother ⟨h.1, h.1 ▸ hthere⟩
      have hblank : s.record other = .blank := by
        rw [record, Array.getElem?_eq_none hbeyond]
        rfl
      rw [hblank]
      rfl
    · rfl

/-- Only some slots change, and none that is loaded is emptied. -/
structure Fills (W : Nat → String → Prop) (s t : Store) : Prop where
  now : t.now = s.now
  size : t.records.size = s.records.size
  kept : ∀ id slot, ¬ W id slot → t.loaded? id slot = s.loaded? id slot
  filled : ∀ id slot, (s.loaded? id slot).isSome = true → (t.loaded? id slot).isSome = true

theorem Fills.refl (W : Nat → String → Prop) (s : Store) : s.Fills W s :=
  ⟨rfl, rfl, fun _ _ _ => rfl, fun _ _ h => h⟩

theorem Fills.trans (h : s.Fills W t) (h' : t.Fills W u) : s.Fills W u where
  now := h'.now.trans h.now
  size := h'.size.trans h.size
  kept id slot hout := (h'.kept id slot hout).trans (h.kept id slot hout)
  filled id slot hloaded := h'.filled id slot (h.filled id slot hloaded)

theorem Alike.fills (h : s.Alike t) (W : Nat → String → Prop) : s.Fills W t where
  now := h.now
  size := h.size
  kept id slot _ := h.loaded? id slot
  filled id slot hloaded := (h.loaded? id slot).symm ▸ hloaded

theorem fills_attach (s : Store) (v : Value) (visible : Bool)
    (hlasting : Record.endingLifetime lifetime = none) (hslot : W id slot) :
    s.Fills W (s.attach id slot v lifetime visible) where
  now := rfl
  size := size_change ..
  kept other property hout := by
    have hother : ¬ (other = id ∧ property = slot ∧ id < s.records.size) := by
      rintro ⟨rfl, rfl, _⟩
      exact hout hslot
    rw [loaded?_attach s id slot v hlasting, if_neg hother]
  filled other property hloaded := by
    rw [loaded?_attach s id slot v hlasting]
    split
    · rfl
    · exact hloaded

theorem fills_attachEach {ids : List Nat} (s : Store)
    (hlasting : Record.endingLifetime lifetime = none) (hslots : ∀ id ∈ ids, W id slot) :
    s.Fills W (attachEach ids slot v lifetime visible s) := by
  induction ids generalizing s with
  | nil => exact .refl W s
  | cons id rest ih =>
    have hfirst := s.fills_attach v visible hlasting (hslots id (List.mem_cons_self ..))
    exact hfirst.trans (ih _ fun other hother => hslots other (List.mem_cons_of_mem _ hother))

/-- Rows are added behind the records that are there, and change none of these. -/
theorem addRows_spec (s : Store) (rows : List Row) :
    (s.addRows rows).1 = List.range' s.records.size rows.length ∧
      (s.addRows rows).2.now = s.now ∧
      (s.addRows rows).2.records.size = s.records.size + rows.length ∧
      ∀ id, id < s.records.size → (s.addRows rows).2.record id = s.record id := by
  induction rows generalizing s with
  | nil => exact ⟨rfl, rfl, rfl, fun _ _ => rfl⟩
  | cons row rest ih =>
    obtain ⟨hids, hnow, hsize, hrecord⟩ := ih (s.add (.ofRow row)).2
    have hadded : (s.add (.ofRow row)).2.records.size = s.records.size + 1 := Array.size_push ..
    rw [hadded] at hids hsize hrecord
    refine ⟨?_, hnow, ?_, ?_⟩
    · show s.records.size :: ((s.add (.ofRow row)).2.addRows rest).1 = _
      rw [hids]
      rfl
    · show ((s.add (.ofRow row)).2.addRows rest).2.records.size = _
      rw [hsize, List.length_cons, Nat.add_assoc, Nat.add_comm 1]
    -- a row is put behind the records that are there
    · intro id hid
      have hrest := hrecord id (Nat.lt_succ_of_lt hid)
      have hpushed : (s.add (.ofRow row)).2.record id = s.record id := by
        show (s.records.push _)[id]?.getD .blank = s.records[id]?.getD .blank
        rw [Array.getElem?_push, if_neg (Nat.ne_of_lt hid)]
      exact hrest.trans hpushed

end Store

namespace Loader
variable {σ τ : Session} {step : LoadStep} {lifetime : Option Number} {parent : Nat}
  {parents children : List Nat} {groups : List (String × List Nat)}

/-- The slots to which children are attached, and those in which they point back. -/
def Writes (step : LoadStep) (parents children : List Nat) (id : Nat) (slot : String) : Prop :=
  id ∈ parents ∧ slot = step.node.slot ∨
    id ∈ children ∧ step.relation.inverseSlot = some slot

theorem fills_supplied {W : Nat → String → Prop} {mine : List Nat} (s : Store)
    (hlasting : Record.endingLifetime lifetime = none) (hparent : W parent step.node.slot)
    (hmine : ∀ c ∈ mine, ∀ slot, step.relation.inverseSlot = some slot → W c slot) :
    s.Fills W (supplied step lifetime parent mine s) := by
  have hfirst := s.fills_attach (slotValue step.relation.isToMany mine) true hlasting hparent
  unfold supplied
  cases hinverse : step.relation.inverseSlot with
  | none => exact hfirst
  | some slot =>
    exact hfirst.trans (Store.fills_attachEach _ hlasting fun c hc => hmine c hc slot hinverse)

theorem supplied_loaded {mine : List Nat} {s : Store}
    (hlasting : Record.endingLifetime lifetime = none) (hthere : parent < s.records.size) :
    ((supplied step lifetime parent mine s).loaded? parent step.node.slot).isSome = true := by
  have hfirst : ((s.attach parent step.node.slot (slotValue step.relation.isToMany mine) lifetime
      true).loaded? parent step.node.slot).isSome = true := by
    rw [Store.loaded?_attach s parent step.node.slot _ hlasting, if_pos ⟨rfl, rfl, hthere⟩]
    rfl
  unfold supplied
  cases step.relation.inverseSlot with
  | none => exact hfirst
  | some slot =>
    have heach : Store.Fills (fun _ _ => True) (s.attach parent step.node.slot
        (slotValue step.relation.isToMany mine) lifetime true) (Store.attachEach mine slot
          (.record parent) lifetime false (s.attach parent step.node.slot
            (slotValue step.relation.isToMany mine) lifetime true)) :=
      Store.fills_attachEach _ hlasting fun _ _ => trivial
    exact heach.filled _ _ hfirst

/-- Parent by parent, the slot of each is filled, and stays so. -/
theorem attachAll_fills {W : Nat → String → Prop}
    (hlasting : Record.endingLifetime lifetime = none)
    (hmembers : ∀ k, ∀ c ∈ (groups.lookup k).getD [], c ∈ children)
    (hparents : ∀ p ∈ parents, W p step.node.slot)
    (hchildren : ∀ c ∈ children, ∀ slot, step.relation.inverseSlot = some slot → W c slot)
    (h : attachAll step lifetime groups parents σ = (.ok (), τ)) :
    σ.store.Fills W τ.store ∧ ∀ p ∈ parents, p < σ.store.records.size →
      (τ.store.loaded? p step.node.slot).isSome = true := by
  induction parents generalizing σ with
  | nil =>
    cases h
    exact ⟨.refl W _, fun _ hp => nomatch hp⟩
  | cons p rest ih =>
    obtain ⟨v, key, _, h⟩ := attachAll_cons_ok h
    have hleft := (Store.looks_readKey (K := fun _ => True) σ.store p step.parentKey trivial
      (fun _ _ => trivial) _ (.refl _ _)).2.alike.fills W
    -- which store the key was read in, and which children were found, does not matter from here on
    generalize (σ.store.readKey p step.parentKey).2 = t at hleft h
    have hmine := membersOf_subset hmembers key
    generalize membersOf groups key = mine at hmine h
    have hsupplied := fills_supplied t hlasting (hparents p (List.mem_cons_self ..))
      fun c hc => hchildren c (hmine hc)
    obtain ⟨hrest, hloaded⟩ := ih (fun q hq => hparents q (List.mem_cons_of_mem _ hq)) h
    refine ⟨(hleft.trans hsupplied).trans hrest, List.forall_mem_cons.2 ⟨?_, ?_⟩⟩
    · intro hthere
      exact hrest.filled _ _ (supplied_loaded hlasting (hleft.size ▸ hthere))
    · intro q hq hthere
      exact hloaded q hq ((hleft.trans hsupplied).size ▸ hthere)

/-- Attaching fills the slot of each parent, and writes nothing but these and the inverse slots of
the children. -/
theorem attach_fills
    (hlasting : Record.endingLifetime (step.relation.lifetime.or σ.relationLifetime) = none)
    (h : attach step parents children σ = (.ok (), τ)) :
    σ.store.Fills (Writes step parents children) τ.store ∧
      ∀ p ∈ parents, p < σ.store.records.size →
        (τ.store.loaded? p step.node.slot).isSome = true := by
  obtain ⟨-, t, groups, halike, hmembers, h⟩ := attach_ok h
  obtain ⟨hfills, hloaded⟩ := attachAll_fills (W := Writes step parents children) hlasting
    hmembers (fun p hp => .inl ⟨hp, rfl⟩) (fun c hc slot hslot => .inr ⟨hc, hslot⟩) h
  refine ⟨(Store.Alike.fills halike _).trans hfills, ?_⟩
  intro p hp hthere
  exact hloaded p hp (Store.Agree.size halike ▸ hthere)

/-! ## Visits -/

variable {fetch : Builder → Run (List Nat)} {ctx : LoadContext} {report : LoadReport}
  {f : LoadFrame} {rest : List LoadFrame}

/-- A visit that is done has attached what its batch brought, if there was one. -/
theorem attached_of_visit {asked : Bool} {children : List Nat}
    (h : visit fetch ctx report f rest σ = (.ok (asked, children), τ)) :
    (asked = false ∧ ∃ t, σ.store.Alike t ∧ children = [] ∧
      attach f.step f.parents [] { σ with store := t } = (.ok (), τ)) ∨
    asked = true ∧ ∃ b s received, Asks ctx f σ b s ∧ fetch b s = (.ok children, received) ∧
      attach f.step f.parents children received = (.ok (), τ) := by
  cases begins ctx f σ with
  | refused _ _ _ hvisit =>
    cases (hvisit fetch ctx.watched report rest).symm.trans h
  | unbuilt _ _ _ hvisit =>
    cases (hvisit fetch ctx.watched report rest).symm.trans h
  | @idle t _ _ halike hvisit =>
    obtain ⟨_, _, hattach, hpure⟩ :=
      Run.bind_eq_ok ((hvisit fetch ctx.watched report rest).symm.trans h)
    cases hpure
    exact .inl ⟨rfl, t, halike, rfl, hattach⟩
  | @asks b s hasks =>
    have hturn : turn fetch ctx report f rest b s = (.ok (asked, children), τ) :=
      (hasks.turns fetch ctx.watched report rest).symm.trans h
    -- a load that stops at the signal has no children, so this one went on
    have hgoes : (ctx.watched && aborted s) = false := by
      refine Bool.eq_false_iff.2 fun hstop => ?_
      obtain ⟨log, hcancel⟩ := cancel_apply ctx report (f :: rest) s
      cases hcancel.symm.trans ((turn_stopped fetch report f rest b hstop).symm.trans hturn)
    rw [turn_goes hgoes] at hturn
    obtain ⟨ids, received, hids, hattaches⟩ := Run.bind_eq_ok hturn
    obtain ⟨_, _, hattach, hpure⟩ := Run.bind_eq_ok hattaches
    cases hpure
    exact .inr ⟨rfl, b, s, received, hasks, hids, hattach⟩

/-- A visit that asked for a batch came to one. -/
theorem asks_of_visit {watched : Bool}
    (h : (visit fetch (heeding ctx watched) report f rest σ).1.toOption.map Prod.fst =
      some true) : ∃ b s, Asks ctx f σ b s := by
  rcases hvisit : visit fetch (heeding ctx watched) report f rest σ with ⟨e | ⟨asked, ids⟩, τ⟩
  · rw [hvisit] at h
    cases h
  · rw [hvisit] at h
    cases h
    obtain ⟨hidle, _⟩ | ⟨_, b, s, _, hasks, _⟩ := attached_of_visit hvisit
    · cases hidle
    · exact ⟨b, s, hasks.accepted, hasks.asked, hasks.query, hasks.quiet, hasks.turns⟩

/-- A query that adds records to those that are there, and does nothing else to them. -/
def OnlyAdds (fetch : Builder → Run (List Nat)) (b : Builder) : Prop :=
  ∀ s ids τ, fetch b s = (.ok ids, τ) → ∃ rows, s.store.addRows rows = (ids, τ.store)

/-- What a visit does to slots: it fills those of its frame and leaves the others of the records
that were there, and its children are new. -/
structure Visit.IsLocal (v : Visit) : Prop where
  size : v.before.store.records.size ≤ v.after.store.records.size
  fresh : ∀ c ∈ v.children,
    v.before.store.records.size ≤ c ∧ c < v.after.store.records.size
  kept : ∀ id slot, id < v.before.store.records.size →
    ¬ (id ∈ v.parents ∧ slot = v.step.node.slot) →
      v.after.store.loaded? id slot = v.before.store.loaded? id slot
  loaded : ∀ p ∈ v.parents, p < v.before.store.records.size →
    (v.after.store.loaded? p v.step.node.slot).isSome = true

theorem visit_isLocal {v : Visit} (hproceeds : ∀ b, (fetch b).Proceeds)
    (hadds : ∀ b s, Asks ctx v.frame v.before b s → OnlyAdds fetch b)
    (hlasting : Record.endingLifetime
      (v.step.relation.lifetime.or v.before.relationLifetime) = none)
    (h : visit fetch ctx report v.frame rest v.before =
      (.ok (v.batch.isSome, v.children), v.after)) : v.IsLocal := by
  obtain ⟨_, t, halike, hchildren, hattach⟩ | ⟨_, b, s, received, hasks, hfetch, hattach⟩ :=
    attached_of_visit h
  · obtain ⟨hfills, hloaded⟩ := attach_fills (σ := { v.before with store := t }) hlasting hattach
    have hsize : v.after.store.records.size = v.before.store.records.size :=
      hfills.size.trans halike.size
    refine ⟨Nat.le_of_eq hsize.symm, ?_, ?_, ?_⟩
    · rw [hchildren]
      exact fun _ hc => nomatch hc
    · intro id slot _ hout
      refine (hfills.kept id slot ?_).trans (halike.loaded? id slot)
      rintro (hparent | ⟨hchild, _⟩)
      · exact hout hparent
      · cases hchild
    · intro p hp hthere
      exact hloaded p hp (halike.size.symm ▸ hthere)
  · obtain ⟨rows, hrows⟩ := hadds b s hasks s v.children received hfetch
    have honward := hproceeds b s
    rw [hfetch] at honward
    obtain ⟨t, warnings, log, halike, rfl⟩ := hasks.quiet
    have hlasting' : Record.endingLifetime
        (v.step.relation.lifetime.or received.relationLifetime) = none := by
      rw [honward.lifetime]
      exact hlasting
    obtain ⟨hids, hnow, hadded, hrecord⟩ := t.addRows_spec rows
    have hsize : t.records.size = v.before.store.records.size := halike.size
    rw [hrows, hsize] at hids hadded hrecord
    rw [hrows] at hnow
    dsimp only at hids hnow hadded hrecord
    obtain ⟨hfills, hloaded⟩ := attach_fills hlasting' hattach
    have hbefore {id : Nat} (hid : id < v.before.store.records.size) (slot : String) :
        received.store.loaded? id slot = v.before.store.loaded? id slot := by
      rw [Store.loaded?_eq, hrecord id hid, hnow, ← Store.loaded?_eq, halike.loaded?]
    have hchild {c : Nat} (hc : c ∈ v.children) :
        v.before.store.records.size ≤ c ∧ c < v.after.store.records.size := by
      rw [hids, List.mem_range'_1] at hc
      rw [hfills.size, hadded]
      exact hc
    refine ⟨?_, fun c hc => hchild hc, ?_, ?_⟩
    · rw [hfills.size, hadded]
      exact Nat.le_add_right ..
    · intro id slot hid hout
      refine (hfills.kept id slot ?_).trans (hbefore hid slot)
      rintro (hparent | ⟨hc, _⟩)
      · exact hout hparent
      · exact Nat.not_lt.2 (hchild hc).1 hid
    · intro p hp hthere
      refine hloaded p hp ?_
      rw [hadded]
      exact Nat.lt_add_right _ hthere

/-- A query without relations of its own only adds records. -/
theorem onlyAdds_allWithin (w : Waiting) (depth : Nat) (watched : Bool) {b : Builder}
    (h : b.requests = []) : OnlyAdds (Run.allWithin w depth watched) b := by
  intro s ids τ hrun
  cases depth with
  | zero =>
    cases hrun
    exact ⟨[], rfl⟩
  | succ depth =>
    have hplan : b.loadPlan? s.models = .ok none := by
      rw [Builder.loadPlan?, h]
      rfl
    rw [Run.allWithin_succ, hplan] at hrun
    obtain ⟨c, υ, hchannel, hrecords⟩ := Run.bind_eq_ok hrun
    obtain ⟨rows, φ, hrows, hadded⟩ := Run.bind_eq_ok hrecords
    -- neither opening the channel nor fetching the rows changes the store
    have hstore : φ.store = s.store := by
      have hserved := Run.serves_builderChannel b s
      rw [hchannel] at hserved
      have hfetched := Run.serves_fetchRows w c b.fields b.plan υ
      rw [hrows] at hfetched
      exact hfetched.store.trans hserved.store
    rw [Run.onStore_apply, hstore] at hadded
    cases hadded
    exact ⟨rows, rfl⟩

end Loader
end PolyQuery
