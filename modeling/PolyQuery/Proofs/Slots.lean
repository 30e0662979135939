import PolyQuery.Proofs.Looking

/-! Slots and keys of records. A slot reads as what was attached to it for as long as this lasts,
and attaching changes nothing else: `value_attach`. Reading a key looks at the record, and at
those that the key holds: `looks_readKey`. -/
namespace PolyQuery

namespace Record
variable {r : Record} {now : Number} {slot : String} {v : Value} {lifetime : Option Number}
  {visible : Bool}

/-- What a slot reads as at a time, after a value was put into it with a lifetime. -/
def shown (now : Number) (v : Value) (lifetime : Option Number) (n : Number) : Value :=
  if isLive n ⟨v, (endingLifetime lifetime).map now.add⟩ then v else .undefined

theorem lookup_put {α : Type} (entries : List (String × α)) (key other : String) (a : α) :
    (Fields.put entries key a).lookup other =
      if other = key then some a else entries.lookup other := by
  induction entries with
  | nil =>
    rw [Fields.put, lookup_cons_eq]
  | cons e rest ih =>
    obtain ⟨k, b⟩ := e
    rw [Fields.put]
    by_cases hk : k = key
    · rw [if_pos hk, lookup_cons_eq, lookup_cons_eq, hk]
      split <;> rfl
    · rw [if_neg hk, lookup_cons_eq, lookup_cons_eq, ih]
      by_cases ho : other = k
      · rw [if_pos ho, if_pos ho, if_neg fun h => hk (ho.symm.trans h)]
      · rw [if_neg ho, if_neg ho]

theorem lookup_openSlot (properties : List (String × Property)) (slot : String) (visible : Bool) :
    ∃ listed, (openSlot properties slot visible).lookup slot = some (.slot listed) := by
  unfold openSlot
  split
  · next listed hlisted => exact ⟨listed, hlisted⟩
  · exact ⟨visible, by rw [lookup_put, if_pos rfl]⟩

theorem lookup_openSlot_other {properties : List (String × Property)} {other : String}
    (h : other ≠ slot) : (openSlot properties slot visible).lookup other =
      properties.lookup other := by
  unfold openSlot
  split
  · rfl
  · rw [lookup_put, if_neg h]

/-- A slot reads as what was attached, at every time at which this has not expired. -/
theorem read_attach (r : Record) (now : Number) (slot : String) (v : Value)
    (lifetime : Option Number) (visible : Bool) (n : Number) :
    ((r.attach now slot v lifetime visible).read n slot).1 = shown now v lifetime n := by
  -- the property is a slot now, and its entry is the one that was put there
  obtain ⟨listed, hlisted⟩ : ∃ listed,
      (r.attach now slot v lifetime visible).properties.lookup slot = some (.slot listed) :=
    lookup_openSlot r.properties slot visible
  have hentry : (r.attach now slot v lifetime visible).cache.lookup slot =
      some ⟨v, (endingLifetime lifetime).map now.add⟩ := by
    show (Fields.put r.cache slot _).lookup slot = _
    rw [lookup_put, if_pos rfl]
  unfold Record.read readCache shown
  rw [hlisted, hentry]
  dsimp only
  split <;> rfl

/-- Attaching to a slot leaves the other properties. -/
theorem read_attach_other {property : String} (h : property ≠ slot) (n : Number) :
    ((r.attach now slot v lifetime visible).read n property).1 = (r.read n property).1 := by
  have hproperty : (r.attach now slot v lifetime visible).properties.lookup property =
      r.properties.lookup property := lookup_openSlot_other h
  have hentry : (r.attach now slot v lifetime visible).cache.lookup property =
      r.cache.lookup property := by
    show (Fields.put r.cache slot _).lookup property = _
    rw [lookup_put, if_neg h]
  unfold Record.read readCache
  rw [hproperty, hentry]
  rcases r.properties.lookup property with _ | ⟨_ | _⟩
  · rfl
  · rfl
  · rcases r.cache.lookup property with _ | e
    · rfl
    · dsimp only
      split <;> rfl

end Record

namespace Store
variable {s t : Store} {K : Nat → Prop}

/-- The value of a property, as it is read. -/
def value (s : Store) (id : Nat) (property : String) : Value := (s.read id property).1

/-- Reads a property and its match key. -/
def readKey (id : Nat) (property : String) (s : Store) :
    Except Error (Value × Option String) × Store :=
  ((matchKey (s.read id property).1 (s.read id property).2).1.map
      fun key => ((s.read id property).1, key),
    (matchKey (s.read id property).1 (s.read id property).2).2)

/-- The match key of a property, none where the property has no key or is refused one. -/
def key? (s : Store) (id : Nat) (property : String) : Option String :=
  match (s.readKey id property).1 with
  | .ok (_, key) => key
  | .error _ => none

/-- Whether the match key of a property can be told. -/
def hasKey (s : Store) (id : Nat) (property : String) : Bool := (s.readKey id property).1.isOk

/-- Reading a key looks at the record, and at those that the key holds. -/
theorem looks_readKey (s : Store) (id : Nat) (property : String) (hid : K id)
    (hheld : ∀ other, s.Holds (s.value id property) other → K other) :
    Looks K s (readKey id property) :=
  (looks_read hid property).bind (k := fun v t =>
    ((matchKey v t).1.map fun key => (v, key), (matchKey v t).2))
    ((looks_matchKey hheld).map _)

theorem readKey_ok {id : Nat} {property : String} (h : s.hasKey id property = true) :
    (s.readKey id property).1 = .ok (s.value id property, s.key? id property) := by
  unfold hasKey at h
  unfold key?
  unfold readKey at h ⊢
  dsimp only at h ⊢
  unfold value
  cases hkey : (matchKey (s.read id property).1 (s.read id property).2).1 with
  | error e =>
    rw [hkey] at h
    cases h
  | ok key => rfl

theorem Agree.value {id : Nat} (h : s.Agree K t) (hid : K id) (property : String) :
    t.value id property = s.value id property := by
  show ((t.record id).read t.now property).1 = ((s.record id).read s.now property).1
  rw [h.now]
  exact (h.record id hid).read property

end Store

namespace Store
variable {s t : Store} {K : Nat → Prop} {id other : Nat} {slot property : String} {v : Value}
  {lifetime : Option Number} {visible : Bool}

/-- Attaching to a record leaves the others. -/
theorem agree_attach (s : Store) (slot : String) (v : Value) (lifetime : Option Number)
    (visible : Bool) (h : ¬ K id) : s.Agree K (s.attach id slot v lifetime visible) :=
  agree_change s _ h

theorem record_attach (slot : String) (v : Value) (lifetime : Option Number) (visible : Bool)
    (hid : id < s.records.size) :
    (s.attach id slot v lifetime visible).record id =
      (s.record id).attach s.now slot v lifetime visible := by
  rw [attach, record_change, if_pos ⟨rfl, hid⟩]

/-- Attaching changes what is read from the slot of the record, and nothing else. -/
theorem value_attach (s : Store) (id : Nat) (slot : String) (v : Value) (lifetime : Option Number)
    (visible : Bool) (other : Nat) (property : String) :
    (s.attach id slot v lifetime visible).value other property =
      if other = id ∧ property = slot ∧ id < s.records.size then
        Record.shown s.now v lifetime s.now
      else s.value other property := by
  show (((s.attach id slot v lifetime visible).record other).read s.now property).1 =
    ite _ _ ((s.record other).read s.now property).1
  rw [attach, record_change]
  by_cases hother : other = id ∧ id < s.records.size
  · rw [if_pos hother, hother.1]
    by_cases hproperty : property = slot
    · rw [if_pos ⟨rfl, hproperty, hother.2⟩, hproperty, Record.read_attach]
    · rw [if_neg fun h => hproperty h.2.1, Record.read_attach_other hproperty]
  · rw [if_neg hother, if_neg fun h => hother ⟨h.1, h.2.2⟩]

/-- The same attached to several records. -/
def attachEach (ids : List Nat) (slot : String) (v : Value) (lifetime : Option Number)
    (visible : Bool) (s : Store) : Store :=
  ids.foldl (fun s id => s.attach id slot v lifetime visible) s

theorem value_attachEach (s : Store) (ids : List Nat) (slot : String) (v : Value)
    (lifetime : Option Number) (visible : Bool) (id : Nat) (property : String) :
    (attachEach ids slot v lifetime visible s).value id property =
      if id ∈ ids ∧ property = slot ∧ id < s.records.size then
        Record.shown s.now v lifetime s.now
      else s.value id property := by
  induction ids generalizing s with
  | nil => exact (if_neg fun h => nomatch h.1).symm
  | cons first rest ih =>
    have hsize : (s.attach first slot v lifetime visible).records.size = s.records.size :=
      size_change ..
    refine (ih _).trans ?_
    rw [hsize, value_attach]
    show ite _ (Record.shown s.now v lifetime s.now) _ = _
    by_cases hid : id = first
    · subst hid
      simp only [List.mem_cons_self, true_and]
      split <;> simp_all
    · simp only [List.mem_cons, hid, false_or, false_and, if_false]

theorem agree_attachEach {ids : List Nat} (h : ∀ id ∈ ids, ¬ K id) :
    s.Agree K (attachEach ids slot v lifetime visible s) := by
  induction ids generalizing s with
  | nil => exact .refl K s
  | cons id rest ih =>
    have hfirst := agree_attach s slot v lifetime visible (h id (List.mem_cons_self ..))
    exact hfirst.trans (ih fun other hother => h other (List.mem_cons_of_mem _ hother))

theorem record_attachEach {ids : List Nat} (h : other ∉ ids) :
    (attachEach ids slot v lifetime visible s).record other = s.record other := by
  induction ids generalizing s with
  | nil => rfl
  | cons id rest ih =>
    have hne : ¬ (other = id ∧ id < s.records.size) := fun heq => h (heq.1 ▸ List.mem_cons_self ..)
    have hfirst : (s.attach id slot v lifetime visible).record other = s.record other := by
      rw [attach, record_change, if_neg hne]
    exact (ih fun hrest => h (List.mem_cons_of_mem _ hrest)).trans hfirst

/-- A slot holds a value until the lifetime has passed. -/
def Keeps (s : Store) (id : Nat) (slot : String) (v : Value) (lifetime : Option Number) : Prop :=
  ∀ n, ((s.record id).read n slot).1 = Record.shown s.now v lifetime n

/-- A slot holds a value now, unless the lifetime ended before it began. -/
def Shows (s : Store) (id : Nat) (slot : String) (v : Value) (lifetime : Option Number) : Prop :=
  s.value id slot = Record.shown s.now v lifetime s.now

end Store
end PolyQuery
