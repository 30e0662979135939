import PolyQuery.Relation.Key

/-! What readers see of a store. Reading removes entries that have expired, which no reader can
tell: `Record.Alike` is the sameness of records up to such entries, and `Store.Agree` that of
stores as far as some of their records go. A reader that looks only at records on which two stores
agree finds the same in both, and leaves both as they were to every reader: `Looks`. The match key
of a value looks only at the records that the value holds: `looks_matchKey`. -/
namespace PolyQuery

namespace Record
variable {r r' r'' : Record} {now : Number}

/-- The same properties, and the same in every slot. -/
structure Alike (now : Number) (r r' : Record) : Prop where
  properties : r'.properties = r.properties
  loaded : ∀ slot, (r'.readCache now slot).1 = (r.readCache now slot).1

theorem Alike.refl (now : Number) (r : Record) : r.Alike now r := ⟨rfl, fun _ => rfl⟩

theorem Alike.trans (h : r.Alike now r') (h' : r'.Alike now r'') : r.Alike now r'' :=
  ⟨h'.properties.trans h.properties, fun slot => (h'.loaded slot).trans (h.loaded slot)⟩

theorem Alike.read (h : r.Alike now r') (property : String) :
    (r'.read now property).1 = (r.read now property).1 := by
  unfold Record.read
  rw [h.properties]
  split
  · rfl
  · exact congrArg (Option.getD · .undefined) (h.loaded property)
  · rfl

theorem Alike.visibleNames (h : r.Alike now r') : r'.visibleNames = r.visibleNames := by
  unfold Record.visibleNames
  rw [h.properties]

theorem lookup_cons_eq {α : Type} (key other : String) (a : α) (rest : List (String × α)) :
    ((key, a) :: rest).lookup other = if other = key then some a else rest.lookup other := by
  rw [List.lookup_cons]
  by_cases h : other = key
  · rw [if_pos h, beq_iff_eq.2 h]
  · rw [if_neg h, beq_false_of_ne h]

theorem lookup_without {α : Type} (key other : String) (entries : List (String × α)) :
    (without key entries).lookup other = if other = key then none else entries.lookup other := by
  induction entries with
  | nil => split <;> rfl
  | cons e rest ih =>
    obtain ⟨k, a⟩ := e
    rw [without, List.filter_cons, lookup_cons_eq]
    by_cases hk : k = key
    · rw [if_neg (by simp [hk]), ← without, ih, hk]
      split <;> rfl
    · rw [if_pos (by simp [hk]), lookup_cons_eq, ← without, ih]
      by_cases ho : other = key
      · rw [if_pos ho, if_pos ho, if_neg fun h => hk (h.symm.trans ho)]
      · rw [if_neg ho, if_neg ho]

/-- Reading a slot changes nothing that can be read. -/
theorem alike_readCache (r : Record) (now : Number) (slot : String) :
    r.Alike now (r.readCache now slot).2 := by
  unfold readCache
  cases hentry : r.cache.lookup slot with
  | none => exact .refl now r
  | some e =>
    dsimp only
    cases hlive : isLive now e with
    | true => exact .refl now r
    | false =>
      -- the entry is removed, but it had expired and was not read before
      refine ⟨rfl, fun other => ?_⟩
      unfold readCache
      rw [if_neg Bool.false_ne_true, lookup_without]
      by_cases ho : other = slot
      · rw [if_pos ho, ho, hentry]
        simp only [hlive]
        rfl
      · rw [if_neg ho]
        rcases r.cache.lookup other with _ | e'
        · rfl
        · dsimp only
          split <;> rfl

theorem alike_read (r : Record) (now : Number) (property : String) :
    r.Alike now (r.read now property).2 := by
  unfold Record.read
  split
  · exact .refl now r
  · exact alike_readCache r now property
  · exact .refl now r

end Record

namespace Store
variable {s t u : Store} {K L : Nat → Prop} {α β : Type}

/-- The same time, and as many records, of which some are the same to every reader. -/
structure Agree (K : Nat → Prop) (s t : Store) : Prop where
  now : t.now = s.now
  size : t.records.size = s.records.size
  record : ∀ id, K id → (s.record id).Alike s.now (t.record id)

/-- The same to every reader. -/
def Alike (s t : Store) : Prop := s.Agree (fun _ => True) t

theorem Agree.refl (K : Nat → Prop) (s : Store) : s.Agree K s := ⟨rfl, rfl, fun _ _ => .refl _ _⟩

theorem Agree.trans (h : s.Agree K t) (h' : t.Agree K u) : s.Agree K u := by
  refine ⟨h'.now.trans h.now, h'.size.trans h.size, ?_⟩
  intro id hid
  have hrecord := h'.record id hid
  rw [h.now] at hrecord
  exact (h.record id hid).trans hrecord

theorem Agree.mono (h : s.Agree L t) (hKL : ∀ id, K id → L id) : s.Agree K t :=
  ⟨h.now, h.size, fun id hid => h.record id (hKL id hid)⟩

theorem Alike.agree (h : s.Alike t) (K : Nat → Prop) : s.Agree K t := h.mono fun _ _ => trivial

theorem Alike.trans (h : s.Alike t) (h' : t.Alike u) : s.Alike u := Agree.trans h h'

theorem record_change (s : Store) (id : Nat) (f : Record → Record) (other : Nat) :
    (s.change id f).record other =
      if other = id ∧ id < s.records.size then f (s.record id) else s.record other := by
  unfold record change
  dsimp only
  rw [Array.getElem?_modify]
  by_cases ho : id = other
  · subst ho
    by_cases hid : id < s.records.size
    · simp [hid]
    · simp [hid]
  · simp [ho, Ne.symm ho]

theorem size_change (s : Store) (id : Nat) (f : Record → Record) :
    (s.change id f).records.size = s.records.size := Array.size_modify ..

/-- A change of one record leaves the others. -/
theorem agree_change (s : Store) {id : Nat} (f : Record → Record) (hid : ¬ K id) :
    s.Agree K (s.change id f) := by
  refine ⟨rfl, size_change s id f, ?_⟩
  intro other hother
  have hne : ¬ (other = id ∧ id < s.records.size) := fun h => hid (h.1 ▸ hother)
  rw [record_change, if_neg hne]
  exact .refl _ _

theorem alike_change (s : Store) (id : Nat) (f : Record → Record)
    (h : (s.record id).Alike s.now (f (s.record id))) : s.Alike (s.change id f) := by
  refine ⟨rfl, size_change s id f, ?_⟩
  intro other _
  rw [record_change]
  split
  · next hother => exact hother.1 ▸ h
  · exact .refl _ _

/-! ## Readers -/

/-- What a reader leaves of a store: the same to every reader, and the very same records where it
does not look. -/
structure Left (K : Nat → Prop) (s t : Store) : Prop where
  alike : s.Alike t
  beyond : ∀ id, ¬ K id → t.record id = s.record id

theorem Left.refl (K : Nat → Prop) (s : Store) : s.Left K s := ⟨Agree.refl _ s, fun _ _ => rfl⟩

theorem Left.trans (h : s.Left K t) (h' : t.Left K u) : s.Left K u :=
  ⟨h.alike.trans h'.alike, fun id hid => (h'.beyond id hid).trans (h.beyond id hid)⟩

/-- A reader that looks at some records only: wherever they are as in a store it finds the same,
and it changes nothing that can be read. -/
def Looks (K : Nat → Prop) (s : Store) (look : Store → β × Store) : Prop :=
  ∀ t, s.Agree K t → (look t).1 = (look s).1 ∧ t.Left K (look t).2

theorem Looks.pure (b : β) : Looks K s fun t => (b, t) := fun t _ => ⟨rfl, .refl K t⟩

/-- A reader goes on as what it found says. -/
theorem Looks.bind {look : Store → α × Store} {k : α → Store → β × Store}
    (h : Looks K s look) (hnext : Looks K s (k (look s).1)) :
    Looks K s fun t => k (look t).1 (look t).2 := by
  have hs := (hnext (look s).2 ((h s (.refl K s)).2.alike.agree K)).1
  intro t ht
  obtain ⟨hfound, hleft⟩ := h t ht
  obtain ⟨hfound', hleft'⟩ := hnext (look t).2 (ht.trans (hleft.alike.agree K))
  dsimp only
  rw [hfound, hfound', hs]
  exact ⟨rfl, hleft.trans hleft'⟩

theorem Looks.map {look : Store → α × Store} (h : Looks K s look) (f : α → β) :
    Looks K s fun t => (f (look t).1, (look t).2) :=
  h.bind (k := fun a t => (f a, t)) (.pure _)

theorem looks_read {id : Nat} (hid : K id) (property : String) :
    Looks K s fun t => t.read id property := by
  intro t ht
  constructor
  · show ((t.record id).read t.now property).1 = ((s.record id).read s.now property).1
    rw [ht.now]
    exact (ht.record id hid).read property
  · refine ⟨t.alike_change id _ (Record.alike_read _ t.now property), ?_⟩
    intro other hother
    have hne : ¬ (other = id ∧ id < t.records.size) := fun h => hother (h.1 ▸ hid)
    exact (record_change t id _ other).trans (if_neg hne)

end Store

/-! ## Values that hold records -/

mutual

/-- The records in a value, in lists and in objects. -/
def Value.inside : Value → List Nat
  | .record id => [id]
  | .array items => Value.insideItems items
  | .object fields => Value.insideFields fields
  | _ => []

/-- The same for items. -/
def Value.insideItems : List Value → List Nat
  | [] => []
  | v :: vs => v.inside ++ Value.insideItems vs

/-- The same for fields. -/
def Value.insideFields : List (String × Value) → List Nat
  | [] => []
  | (_, v) :: fs => v.inside ++ Value.insideFields fs

end

namespace Store
variable {s t : Store} {K : Nat → Prop} {β : Type}

/-- A record is in a value, or in what a listing shows of a record that the value holds. -/
inductive Holds (s : Store) : Value → Nat → Prop where
  | here {v : Value} {id : Nat} (hid : id ∈ v.inside) : Holds s v id
  | further {v : Value} {id other : Nat} {name : String} (hid : id ∈ v.inside)
      (hname : name ∈ (s.record id).visibleNames) (hother : Holds s (s.read id name).1 other) :
      Holds s v other

/-- A value without records in it holds none. -/
theorem not_holds {v : Value} (h : v.inside = []) (id : Nat) : ¬ s.Holds v id := by
  intro hholds
  cases hholds with
  | here hid | further hid _ _ =>
    rw [h] at hid
    cases hid

section Mapping
variable {leaf : Value → β} {list : List β → β} {object : List (String × β) → β}
  {onRecord : Nat → Store → β × Store}

mutual

theorem looks_mapValue : (v : Value) → (∀ id ∈ v.inside, Looks K s (onRecord id)) →
    Looks K s (mapValue leaf list object onRecord v)
  | .record id, h => h id (List.mem_singleton_self id)
  | .array items, h => (looks_mapItems items h).map list
  | .object fields, h => (looks_mapFields fields h).map object
  | .null, _ | .undefined, _ | .bool _, _ | .number _, _ | .bigint _, _ | .string _, _
  | .date _, _ | .bytes _ _, _ | .node _, _ | .foreign _, _ | .callable, _ => .pure _

theorem looks_mapItems : (items : List Value) →
    (∀ id ∈ Value.insideItems items, Looks K s (onRecord id)) →
    Looks K s (mapItems leaf list object onRecord items)
  | [], _ => .pure _
  | v :: vs, h =>
    (looks_mapValue v fun id hid => h id (List.mem_append_left _ hid)).bind
      (k := fun x t =>
        (x :: (mapItems leaf list object onRecord vs t).1,
          (mapItems leaf list object onRecord vs t).2))
      ((looks_mapItems vs fun id hid => h id (List.mem_append_right _ hid)).map _)

theorem looks_mapFields : (fields : List (String × Value)) →
    (∀ id ∈ Value.insideFields fields, Looks K s (onRecord id)) →
    Looks K s (mapFields leaf list object onRecord fields)
  | [], _ => .pure _
  | (name, v) :: fs, h =>
    (looks_mapValue v fun id hid => h id (List.mem_append_left _ hid)).bind
      (k := fun x t =>
        ((name, x) :: (mapFields leaf list object onRecord fs t).1,
          (mapFields leaf list object onRecord fs t).2))
      ((looks_mapFields fs fun id hid => h id (List.mem_append_right _ hid)).map _)

end

end Mapping

/-- Looking at properties of a record one by one. -/
theorem looks_seeAll {see : Value → Store → β × Store} {id : Nat} (hid : K id)
    (names : List String) (h : ∀ name ∈ names, Looks K s (see (s.read id name).1)) :
    Looks K s (seeAll see id names) := by
  induction names with
  | nil => exact .pure _
  | cons name rest ih =>
    have hrest := ih fun other hother => h other (List.mem_cons_of_mem _ hother)
    have hsee := h name (List.mem_cons_self ..)
    have hnext : Looks K s fun t =>
        ((name, (see (s.read id name).1 t).1) ::
            (seeAll see id rest (see (s.read id name).1 t).2).1,
          (seeAll see id rest (see (s.read id name).1 t).2).2) :=
      hsee.bind (k := fun x t =>
        ((name, x) :: (seeAll see id rest t).1, (seeAll see id rest t).2)) (hrest.map _)
    exact (looks_read hid name).bind (k := fun v t =>
      ((name, (see v t).1) :: (seeAll see id rest (see v t).2).1,
        (seeAll see id rest (see v t).2).2)) hnext

/-- A plain copy looks at the records that the value holds. -/
theorem looks_plainWithin (fuel : Nat) (outer : List Nat) (v : Value)
    (h : ∀ id, s.Holds v id → K id) : Looks K s (plainWithin fuel outer v) := by
  induction fuel generalizing outer v with
  | zero => exact .pure _
  | succ fuel ih =>
    refine looks_mapValue v ?_
    intro id hid
    -- a record within itself ends the copy, and another one is copied property by property
    by_cases houter : outer.contains id = true
    · simp only [houter, if_true]
      exact .pure _
    · simp only [houter]
      have hnames : Looks K s fun t => ((t.record id).visibleNames, t) :=
        fun t ht => ⟨(ht.record id (h id (.here hid))).visibleNames, .refl K t⟩
      refine hnames.bind (k := fun names t =>
        (allFields (seeAll (plainWithin fuel (id :: outer)) id names t).1,
          (seeAll (plainWithin fuel (id :: outer)) id names t).2)) ?_
      refine (looks_seeAll (h id (.here hid)) _ ?_).map allFields
      intro name hname
      exact ih _ _ fun other hother => h other (.further hid hname hother)

theorem looks_plain? {v : Value} (h : ∀ id, s.Holds v id → K id) :
    Looks K s fun t => t.plain? v := by
  have hsize : Looks K s fun t => (t.records.size + 2, t) :=
    fun t ht => ⟨congrArg (· + 2) ht.size, .refl K t⟩
  exact hsize.bind (k := fun fuel t => plainWithin fuel [] v t) (looks_plainWithin _ _ v h)

/-- The JSON text of a value, from the value with its records made plain. -/
def textOfPlain (plain : Option Value) : Except Error (Option String) :=
  plain.elim (.error .noJsonText) fun p => (Json.text? p).mapError fun _ => .noJsonText

theorem jsonText_eq (v : Value) (t : Store) :
    t.jsonText v = (textOfPlain (t.plain? v).1, (t.plain? v).2) := by
  unfold jsonText
  rcases t.plain? v with ⟨_ | _, _⟩ <;> rfl

theorem looks_jsonText {v : Value} (h : ∀ id, s.Holds v id → K id) :
    Looks K s fun t => t.jsonText v := by
  rw [funext (jsonText_eq v)]
  exact (looks_plain? h).map textOfPlain

/-- The match key of an object, from its JSON text. -/
def objectKey (text : Except Error (Option String)) : Except Error (Option String) :=
  text.map fun text => some ("json:" ++ text.getD "undefined")

/-- Values whose match key is their JSON text. -/
def keyedByText : Value → Bool
  | .array _ | .object _ | .node _ | .foreign _ | .record _ => true
  | _ => false

theorem matchKey_eq {v : Value} (h : keyedByText v = true) (t : Store) :
    matchKey v t = (objectKey (t.jsonText v).1, (t.jsonText v).2) := by
  cases v with
  | array _ | object _ | node _ | foreign _ | record _ =>
    unfold matchKey
    dsimp only
    split <;> (rename_i hjson; rw [hjson]; rfl)
  | _ => cases h

/-- A match key looks at the records that the value holds. -/
theorem looks_matchKey {v : Value} (h : ∀ id, s.Holds v id → K id) : Looks K s (matchKey v) := by
  by_cases hv : keyedByText v = true
  · rw [funext (matchKey_eq hv)]
    exact (looks_jsonText h).map objectKey
  · cases v with
    | date ms => cases ms <;> exact .pure _
    | array _ | object _ | node _ | foreign _ | record _ => exact (hv rfl).elim
    | _ => exact .pure _

/-- Only nothing has no key. -/
theorem isMissing_of_matchKey {v : Value} (h : (matchKey v s).1 = .ok none) :
    v.isMissing = true := by
  by_cases hv : keyedByText v = true
  · rw [matchKey_eq hv] at h
    unfold objectKey at h
    dsimp only at h
    cases hjson : (s.jsonText v).1 with
    | error e =>
      rw [hjson] at h
      cases h
    | ok text =>
      rw [hjson] at h
      cases h
  · cases v with
    | null | undefined => rfl
    | date ms => cases ms <;> cases h
    | array _ | object _ | node _ | foreign _ | record _ => exact (hv rfl).elim
    | _ => cases h

end Store
end PolyQuery
