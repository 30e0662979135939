import PolyQuery.Proofs.Columns
import PolyQuery.Proofs.SlotHistory
import PolyQuery.Store.View

/-! Which slots a listing of a record shows. A slot keeps the visibility with which it was opened:
attaching to it again, clearing it and reading it leave the properties of the record. So among all
that was attached to a slot the first one decides: `Store.listing?_through`. A copy of the record
and its JSON text list what the record lists. -/
namespace PolyQuery

namespace SlotEvent

/-- The visibility that an event asks for a slot, where it attaches to it. -/
def asked? (id : Nat) (slot : String) : SlotEvent → Option Bool
  | .attached i s _ _ visible => if i = id ∧ s = slot then some visible else none
  | _ => none

/-- The properties of a record after an event. -/
def opening (id : Nat) (properties : List (String × Property)) :
    SlotEvent → List (String × Property)
  | .attached i slot _ _ visible =>
    if i = id then Record.openSlot properties slot visible else properties
  | _ => properties

end SlotEvent

namespace Record
variable {r : Record} {slot : String}

/-- Whether listings show a slot, none where the property is no slot. -/
def listing? (r : Record) (slot : String) : Option Bool :=
  match r.properties.lookup slot with
  | some (.slot visible) => some visible
  | _ => none

/-- No property has two entries. -/
def IsDistinct (r : Record) : Prop := (r.properties.map Prod.fst).Nodup

theorem isDistinct_ofRow (row : Row) : (ofRow row).IsDistinct := by
  unfold IsDistinct ofRow
  rw [List.map_map]
  exact Fields.nodup_ofList row

theorem nodup_openSlot {properties : List (String × Property)}
    (h : (properties.map Prod.fst).Nodup) (slot : String) (visible : Bool) :
    ((openSlot properties slot visible).map Prod.fst).Nodup := by
  unfold openSlot
  split
  · exact h
  · exact Fields.nodup_put h slot _

/-- The names of the properties of a kind. -/
theorem mem_names (h : r.IsDistinct) (kind : Property → Bool) :
    slot ∈ (Fields.arrange (r.properties.filter fun p => kind p.2)).map Prod.fst ↔
      ∃ p, r.properties.lookup slot = some p ∧ kind p = true := by
  rw [((Fields.perm_arrange _).map Prod.fst).mem_iff, List.mem_map]
  constructor
  · rintro ⟨⟨name, p⟩, hmem, rfl⟩
    obtain ⟨hentry, hkind⟩ := List.mem_filter.1 hmem
    exact ⟨p, lookup_of_mem h hentry, hkind⟩
  · rintro ⟨p, hp, hkind⟩
    obtain ⟨before, behind, hsplit, -⟩ := List.lookup_eq_some_iff.1 hp
    have hentry : (slot, p) ∈ r.properties :=
      hsplit ▸ List.mem_append_right _ List.mem_cons_self
    exact ⟨(slot, p), List.mem_filter.2 ⟨hentry, hkind⟩, rfl⟩

/-- A record lists all columns of its row. -/
theorem mem_names_ofRow {row : Row} {name : String} :
    name ∈ (ofRow row).visibleNames ↔ name ∈ row.map Prod.fst := by
  have hall : (ofRow row).properties.filter (fun p => isVisible p.2) = (ofRow row).properties := by
    refine List.filter_eq_self.2 ?_
    intro p hp
    obtain ⟨f, -, rfl⟩ := List.mem_map.1 hp
    rfl
  unfold visibleNames
  rw [((Fields.perm_arrange _).map Prod.fst).mem_iff, hall, ofRow, List.map_map]
  exact Fields.mem_ofList

/-- A slot is listed, or it is hidden. -/
theorem mem_names_of_listing {visible : Bool} (h : r.IsDistinct) (hslot : r.listing? slot = some visible) :
    (slot ∈ r.visibleNames ↔ visible = true) ∧ (slot ∈ r.hiddenNames ↔ visible = false) := by
  have hlookup : r.properties.lookup slot = some (.slot visible) := by
    unfold listing? at hslot
    split at hslot
    · next listed hlisted => rw [hlisted, Option.some.inj hslot]
    · cases hslot
  unfold visibleNames hiddenNames
  rw [mem_names h, mem_names h fun p => !isVisible p, hlookup]
  simp [isVisible]

end Record

namespace Store
variable {s : Store} {id : Nat} {slot : String}

/-- Attaching to a record may open a slot, and no other event changes the properties of a record. -/
theorem properties_happen (hid : id < s.records.size) (e : SlotEvent) :
    ((s.happen e).record id).properties = e.opening id (s.record id).properties := by
  -- an event at another record, or one that keeps the properties, changes none here
  have hchange (other : Nat) (f : Record → Record)
      (hf : (f (s.record other)).properties = (s.record other).properties) :
      ((s.change other f).record id).properties = (s.record id).properties := by
    rw [record_change]
    split
    · next hother => rw [hother.1, hf]
    · rfl
  cases e with
  | attached other written v lifetime visible =>
    show ((s.change other _).record id).properties = ite _ _ _
    rw [record_change]
    by_cases hother : other = id
    · subst hother
      rw [if_pos ⟨rfl, hid⟩, if_pos rfl]
      rfl
    · rw [if_neg fun h => hother h.1.symm, if_neg hother]
  | cleared other cleared =>
    refine hchange other (fun r => r.clear cleared) ?_
    cases cleared <;> rfl
  | looked other written =>
    exact hchange other (fun _ => ((s.record other).readCache s.now written).2)
      (Record.properties_readCache ..)
  | read other property =>
    exact hchange other (fun _ => ((s.record other).read s.now property).2)
      (Record.properties_read ..)
  | ticked n => rfl

theorem isDistinct_happen (hid : id < s.records.size) (h : (s.record id).IsDistinct)
    (e : SlotEvent) : ((s.happen e).record id).IsDistinct := by
  unfold Record.IsDistinct at h ⊢
  rw [properties_happen hid]
  cases e with
  | attached other written v lifetime visible =>
    unfold SlotEvent.opening
    dsimp only
    split
    · exact Record.nodup_openSlot h written visible
    · exact h
  | _ => exact h

/-- A slot that is one keeps its visibility, and a property that is none becomes one when something
is attached to it. -/
theorem listing?_happen (hid : id < s.records.size) (e : SlotEvent) :
    ((s.happen e).record id).listing? slot =
      ((s.record id).listing? slot).or (e.asked? id slot) := by
  unfold Record.listing?
  rw [properties_happen hid]
  cases e with
  | attached other written v lifetime visible =>
    unfold SlotEvent.opening SlotEvent.asked?
    dsimp only
    by_cases hother : other = id
    · by_cases hslot : slot = written
      · subst hslot
        rw [if_pos hother, if_pos ⟨hother, rfl⟩]
        unfold Record.openSlot
        -- a slot that is there keeps its place, a column that is there becomes a slot, and else a
        -- slot is added
        cases hlookup : (s.record id).properties.lookup slot with
        | none => simp [Record.lookup_put]
        | some p =>
          cases p with
          | data v => simp [Record.lookup_put]
          | slot listed => simp [hlookup]
      · rw [if_pos hother, if_neg fun h => hslot h.2.symm, Record.lookup_openSlot_other hslot,
          Option.or_none]
    · rw [if_neg hother, if_neg fun h => hother h.1, Option.or_none]
  | _ => exact Option.or_none.symm

theorem isDistinct_through (hid : id < s.records.size) (h : (s.record id).IsDistinct)
    (history : List SlotEvent) : ((s.through history).record id).IsDistinct := by
  induction history generalizing s with
  | nil => exact h
  | cons e history ih => exact ih ((size_happen s e).symm ▸ hid) (isDistinct_happen hid h e)

/-- After a history a slot has the visibility that it had before, or that the first attach to it
asked for. -/
theorem listing?_through (hid : id < s.records.size) (history : List SlotEvent) :
    ((s.through history).record id).listing? slot =
      ((s.record id).listing? slot).or (history.findSome? (SlotEvent.asked? id slot)) := by
  induction history generalizing s with
  | nil => exact Option.or_none.symm
  | cons e history ih =>
    refine (ih ((size_happen s e).symm ▸ hid)).trans ?_
    rw [listing?_happen hid, Option.or_assoc, List.findSome?_cons]
    cases e.asked? id slot <;> rfl

/-! ## Copies and JSON texts -/

theorem names_readAll (s : Store) (id : Nat) (names : List String) :
    (s.readAll id names).1.map Prod.fst = names := by
  induction names generalizing s with
  | nil => rfl
  | cons name rest ih => exact congrArg (name :: ·) (ih _)

theorem names_seeAll {β : Type} (see : Value → Store → β × Store) (id : Nat) (names : List String)
    (s : Store) : (seeAll see id names s).1.map Prod.fst = names := by
  induction names generalizing s with
  | nil => rfl
  | cons name rest ih => exact congrArg (name :: ·) (ih _)

/-- A copy of a record lists what the record lists. -/
theorem mem_names_copy (s : Store) (id : Nat) (name : String) :
    name ∈ ((s.copy id).2.record (s.copy id).1).visibleNames ↔
      name ∈ (s.record id).visibleNames := by
  obtain ⟨row, t, hrow⟩ : ∃ row t, s.readAll id (s.record id).visibleNames = (row, t) :=
    ⟨_, _, rfl⟩
  have hnames : row.map Prod.fst = (s.record id).visibleNames :=
    (congrArg (fun p => p.1.map Prod.fst) hrow).symm.trans (names_readAll s id _)
  have hcopy : (s.copy id).2.record (s.copy id).1 = .ofRow row := by
    unfold copy
    rw [hrow]
    show ((t.records.push (.ofRow row))[t.records.size]?).getD .blank = _
    rw [Array.getElem?_push_size]
    rfl
  rw [hcopy, ← hnames]
  exact Record.mem_names_ofRow

theorem names_allFields {seen : List (String × Option Value)} {plain : Value}
    (h : allFields seen = some plain) :
    ∃ fields, plain = .object fields ∧ fields.map Prod.fst = seen.map Prod.fst := by
  unfold allFields at h
  obtain ⟨fields, hpresent, rfl⟩ := Option.map_eq_some_iff.1 h
  refine ⟨fields, rfl, ?_⟩
  clear h
  induction seen generalizing fields with
  | nil =>
    cases hpresent
    rfl
  | cons f rest ih =>
    rw [List.mapM_cons] at hpresent
    obtain ⟨first, hfirst, hpresent⟩ := Option.bind_eq_some_iff.1 hpresent
    obtain ⟨others, hothers, hpresent⟩ := Option.bind_eq_some_iff.1 hpresent
    cases hpresent
    obtain ⟨v, -, rfl⟩ := Option.map_eq_some_iff.1 hfirst
    exact congrArg (f.1 :: ·) (ih others hothers)

/-- The plain copy of a record, and so its JSON text, lists what the record lists. -/
theorem names_plain? {plain : Value} (h : (s.plain? (.record id)).1 = some plain) :
    ∃ fields, plain = .object fields ∧ fields.map Prod.fst = (s.record id).visibleNames := by
  have hfields : allFields (seeAll (plainWithin (s.records.size + 1) [id]) id
      (s.record id).visibleNames s).1 = some plain := h
  rw [← names_seeAll (plainWithin (s.records.size + 1) [id]) id (s.record id).visibleNames s]
  exact names_allFields hfields

/-! ## What is attached last, and what was attached first -/

/-- The visibility of a slot after attaches, of which the last one asks for the given one. -/
def opened (s : Store) (id : Nat) (slot : String) (earlier : List SlotEvent) (visible : Bool) : Bool :=
  (((s.record id).listing? slot).or (earlier.findSome? (SlotEvent.asked? id slot))).getD visible

/-- A listing, a copy and a JSON text of a record show a slot that is attached to if it was to be
shown when it was opened: as a slot before the history, by the first attach to it, or by this one.
So what the latest attach asks for is followed where the slot was opened with the same visibility,
and nowhere else. -/
theorem listing_history (s : Store) (id : Nat) (slot : String) (earlier later : List SlotEvent)
    (v : Value) (lifetime : Option Number) (visible : Bool) (hid : id < s.records.size)
    (hdistinct : (s.record id).IsDistinct) (hlater : ∀ e ∈ later, e.asked? id slot = none) :
    let t := s.through (earlier ++ .attached id slot v lifetime visible :: later)
    (slot ∈ (t.record id).visibleNames ↔ s.opened id slot earlier visible = true) ∧
    (slot ∈ (t.record id).hiddenNames ↔ s.opened id slot earlier visible = false) ∧
    (slot ∈ ((t.copy id).2.record (t.copy id).1).visibleNames ↔
      s.opened id slot earlier visible = true) ∧
    (∀ fields, (t.plain? (.record id)).1 = some (.object fields) →
      (slot ∈ fields.map Prod.fst ↔ s.opened id slot earlier visible = true)) ∧
    ((slot ∈ (t.record id).visibleNames ↔ visible = true) ↔
      s.opened id slot earlier visible = visible) := by
  intro t
  have hlisting : (t.record id).listing? slot = some (s.opened id slot earlier visible) := by
    -- what was asked for first decides, and later events ask for nothing
    have hasked : (later.findSome? (SlotEvent.asked? id slot)) = none :=
      List.findSome?_eq_none_iff.2 hlater
    have hthis : (SlotEvent.attached id slot v lifetime visible).asked? id slot = some visible :=
      if_pos ⟨rfl, rfl⟩
    rw [listing?_through hid, List.findSome?_append, List.findSome?_cons, hthis, ← Option.or_assoc,
      opened]
    exact Option.or_some
  have hdistinct := isDistinct_through hid hdistinct
    (earlier ++ .attached id slot v lifetime visible :: later)
  obtain ⟨hshown, hhidden⟩ := Record.mem_names_of_listing hdistinct hlisting
  refine ⟨hshown, hhidden, (mem_names_copy t id slot).trans hshown, ?_, ?_⟩
  · intro fields hplain
    obtain ⟨_, heq, hnames⟩ := names_plain? hplain
    cases heq
    exact hnames ▸ hshown
  · rw [hshown]
    exact Bool.eq_iff_iff.symm

/-- An inverse slot that is cleared and filled again stays hidden. -/
theorem listing_history_inverse :
    let t := (Store.mk #[.ofRow [("id", .number (.int 7)), ("author", .number (.int 1))]]
      (.int 100)).through
        [.attached 0 "author" (.string "ann") none false, .cleared 0 (some "author"),
          .attached 0 "author" (.string "bea") (some (.int 20)) false, .read 0 "author",
          .attached 0 "tags" (.array []) none true]
    "author" ∈ (t.record 0).hiddenNames ∧
      ("author" ∈ (t.record 0).visibleNames ↔ false = true) := by
  have hlisting := listing_history
    ⟨#[.ofRow [("id", .number (.int 7)), ("author", .number (.int 1))]], .int 100⟩ 0 "author"
    [.attached 0 "author" (.string "ann") none false, .cleared 0 (some "author")]
    [.read 0 "author", .attached 0 "tags" (.array []) none true]
    (.string "bea") (some (.int 20)) false Nat.zero_lt_one (Record.isDistinct_ofRow _) (by decide)
  exact ⟨hlisting.2.1.2 rfl, hlisting.2.2.2.2.2 rfl⟩

/-- A slot that an inverse opened stays hidden when its relation is loaded, and one that was loaded
stays listed when an inverse fills it. -/
theorem listing_of_opened_otherwise :
    "author" ∉ (((Store.mk #[.ofRow [("id", .number (.int 7))]] (.int 100)).through
      [.attached 0 "author" (.string "ann") none false,
        .attached 0 "author" (.string "bea") none true]).record 0).visibleNames ∧
    "author" ∈ (((Store.mk #[.ofRow [("id", .number (.int 7))]] (.int 100)).through
      [.attached 0 "author" (.string "ann") none true, .cleared 0 none,
        .attached 0 "author" (.string "bea") none false]).record 0).visibleNames := by
  decide +kernel

end Store
end PolyQuery
