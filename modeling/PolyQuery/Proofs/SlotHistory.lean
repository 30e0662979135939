import PolyQuery.Proofs.History
import PolyQuery.Proofs.NumberOrder
import PolyQuery.Proofs.Slots
import PolyQuery.Table

/-! The history of a slot. What a slot reports at a time is what the latest attach put there, unless
it was cleared since or its lifetime has passed: `Store.slot_history`. Expired entries are removed
when they are read, so the store and the history are related by `Mirrors`: an entry that is missing
from the store has expired, and stays so while the clock does not go back. -/
namespace PolyQuery

/-- What may happen to the slots of records: a value is attached with a lifetime, a slot or all
slots of a record are cleared, a slot is looked up or a property is read, or the clock is set. -/
inductive SlotEvent where
  | attached (id : Nat) (slot : String) (v : Value) (lifetime : Option Number) (visible : Bool)
  | cleared (id : Nat) (slot : Option String)
  | looked (id : Nat) (slot : String)
  | read (id : Nat) (property : String)
  | ticked (now : Number)

/-- The store after an event. -/
def Store.happen (s : Store) : SlotEvent → Store
  | .attached id slot v lifetime visible => s.attach id slot v lifetime visible
  | .cleared id slot => s.clear id slot
  | .looked id slot => (s.cached? id slot).2
  | .read id property => (s.read id property).2
  | .ticked now => { s with now := now }

/-- A value that was attached, the time of that and the lifetime. -/
structure Load where
  since : Number
  value : Value
  lifetime : Option Number

/-- The value counts as loaded: it was to last until it is cleared, or its lifetime has not
passed. -/
def Load.Lasts (l : Load) (now : Number) : Prop :=
  ∀ n, l.lifetime = some n → n.isZero = true ∨ now.lt (l.since.add n) = true

/-- When the value stops to count as loaded, if ever. -/
def Load.expiry (l : Load) : Option Number := (Record.endingLifetime l.lifetime).map l.since.add

namespace SlotEvent
variable {e : SlotEvent} {history before after : List SlotEvent} {id : Nat} {slot : String}
  {now start : Number}

/-- The clock after an event. -/
def clock (now : Number) : SlotEvent → Number
  | .ticked n => n
  | _ => now

/-- The clock after a history. -/
def time (start : Number) (history : List SlotEvent) : Number := history.foldl clock start

/-- The event attaches to a slot, or clears it. -/
def Concerns (id : Nat) (slot : String) : SlotEvent → Prop
  | .attached i s _ _ _ => i = id ∧ s = slot
  | .cleared i s => i = id ∧ (s = none ∨ s = some slot)
  | _ => False

/-- The event only looks. -/
def isReading : SlotEvent → Bool
  | .looked _ _ => true
  | .read _ _ => true
  | _ => false

/-- The clock does not go back, and lifetimes are integers. -/
def Follows (now : Number) : SlotEvent → Prop
  | .ticked n => n.IsOrdered ∧ now.le n = true
  | .attached _ _ _ lifetime _ => ∀ n, lifetime = some n → n.isInteger = true
  | _ => True

/-- A history in which the clock does not go back and lifetimes are integers. -/
def Orderly (now : Number) : List SlotEvent → Prop
  | [] => True
  | e :: history => e.Follows now ∧ Orderly (e.clock now) history

/-- What is known of a slot after an event, from what was known before, with the clock. -/
def remember (id : Nat) (slot : String) (known : Number × Option Load) : SlotEvent →
    Number × Option Load
  | .attached i s v lifetime _ =>
    (known.1, if i = id ∧ s = slot then some ⟨known.1, v, lifetime⟩ else known.2)
  | .cleared i s => (known.1, if i = id ∧ (s = none ∨ s = some slot) then none else known.2)
  | .ticked n => (n, known.2)
  | _ => known

/-- What the latest attach to a slot put there, unless it was cleared since. -/
def remembered (start : Number) (id : Nat) (slot : String) (history : List SlotEvent) :
    Option Load :=
  (history.foldl (remember id slot) (start, none)).2

theorem remember_clock (id : Nat) (slot : String) (known : Number × Option Load) (e : SlotEvent) :
    (remember id slot known e).1 = e.clock known.1 := by
  cases e <;> rfl

theorem foldl_remember_clock (id : Nat) (slot : String) (known : Number × Option Load)
    (history : List SlotEvent) :
    (history.foldl (remember id slot) known).1 = time known.1 history := by
  induction history generalizing known with
  | nil => rfl
  | cons e history ih => rw [List.foldl_cons, ih, remember_clock]; rfl

/-- An event that does not concern a slot leaves what is known of it. -/
theorem remember_of_not_concerns (h : ¬ e.Concerns id slot) (known : Number × Option Load) :
    (remember id slot known e).2 = known.2 := by
  cases e with
  | attached i s v lifetime visible => exact if_neg h
  | cleared i s => exact if_neg h
  | _ => rfl

theorem remembered_concat (start : Number) (id : Nat) (slot : String)
    (history : List SlotEvent) (e : SlotEvent) :
    remembered start id slot (history ++ [e]) =
      (remember id slot (time start history, remembered start id slot history) e).2 := by
  unfold remembered
  rw [List.foldl_append, List.foldl_cons, List.foldl_nil,
    ← foldl_remember_clock id slot (start, none) history]

/-- A value is remembered if it was attached, and the slot was neither attached to nor cleared
since. -/
theorem remembered_iff {l : Load} : remembered start id slot history = some l ↔
    Since
      (fun before e => ∃ visible,
        e = .attached id slot l.value l.lifetime visible ∧ l.since = time start before)
      (fun e => ¬ e.Concerns id slot) history := by
  induction history using List.reverseRecOn with
  | nil => exact ⟨fun h => (nomatch h), fun h => absurd h not_since_nil⟩
  | append_singleton history e ih =>
    rw [remembered_concat, since_concat]
    by_cases hc : e.Concerns id slot
    · -- the latest event decides, whatever was remembered before
      have hlast : (remember id slot (time start history, remembered start id slot history) e).2 =
          some l ↔ ∃ visible,
            e = .attached id slot l.value l.lifetime visible ∧ l.since = time start history := by
        cases e with
        | attached i s v lifetime visible =>
          obtain ⟨rfl, rfl⟩ := hc
          rw [remember, if_pos ⟨rfl, rfl⟩]
          constructor
          · rintro ⟨⟩
            exact ⟨visible, rfl, rfl⟩
          · rintro ⟨visible', heq, hsince⟩
            cases heq
            rw [← hsince]
        | cleared i s =>
          have hnone : (remember id slot (time start history, remembered start id slot history)
              (.cleared i s)).2 = none := if_pos hc
          rw [hnone]
          constructor
          · exact fun h => nomatch h
          · rintro ⟨visible, heq, -⟩
            cases heq
        | _ => exact hc.elim
      rw [hlast]
      exact ⟨.inl, fun h => h.resolve_right fun hkept => hkept.1 hc⟩
    · rw [remember_of_not_concerns hc, ih]
      constructor
      · exact fun h => .inr ⟨hc, h⟩
      · rintro (⟨visible, rfl, -⟩ | ⟨-, h⟩)
        · exact absurd ⟨rfl, rfl⟩ hc
        · exact h

theorem isOrdered_time (hnow : now.IsOrdered) (h : Orderly now history) :
    (time now history).IsOrdered := by
  induction history generalizing now with
  | nil => exact hnow
  | cons e history ih =>
    obtain ⟨hfollows, hrest⟩ := h
    cases e with
    | ticked n => exact ih hfollows.1 hrest
    | _ => exact ih hnow hrest

theorem orderly_filter (h : Orderly now history) :
    Orderly now (history.filter fun e => !e.isReading) := by
  induction history generalizing now with
  | nil => trivial
  | cons e history ih =>
    obtain ⟨hfollows, hrest⟩ := h
    cases e with
    | looked i s => exact ih hrest
    | read i p => exact ih hrest
    | attached | cleared | ticked => exact ⟨hfollows, ih hrest⟩

/-- What looking at slots does not change is the same without it. -/
theorem foldl_filter_reading {α : Type} {f : α → SlotEvent → α}
    (hf : ∀ x e, e.isReading = true → f x e = x) (history : List SlotEvent) (x : α) :
    (history.filter fun e => !e.isReading).foldl f x = history.foldl f x := by
  have hsame : (fun x e => if (!SlotEvent.isReading e) = true then f x e else x) = f := by
    funext x e
    cases hreading : e.isReading with
    | true => exact (hf x e hreading).symm
    | false => rfl
  rw [List.foldl_filter, hsame]

/-- Looking at slots is not remembered. -/
theorem remembered_filter (start : Number) (id : Nat) (slot : String)
    (history : List SlotEvent) :
    remembered start id slot (history.filter fun e => !e.isReading) =
      remembered start id slot history := by
  refine congrArg Prod.snd (foldl_filter_reading ?_ history (start, none))
  intro known e hreading
  cases e with
  | looked i s => rfl
  | read i p => rfl
  | attached | cleared | ticked => cases hreading

theorem time_filter (start : Number) (history : List SlotEvent) :
    time start (history.filter fun e => !e.isReading) = time start history := by
  refine foldl_filter_reading ?_ history start
  intro now e hreading
  cases e with
  | looked i s => rfl
  | read i p => rfl
  | attached | cleared | ticked => cases hreading

end SlotEvent

/-! ## The store and what is remembered -/

/-- A time and a lifetime whose sum is in order. -/
def Load.IsTimed (l : Load) : Prop :=
  l.since.IsOrdered ∧ ∀ n, l.lifetime = some n → n.isInteger = true

theorem Load.IsTimed.expiry {l : Load} (h : l.IsTimed) {n : Number} (hn : l.expiry = some n) :
    n.IsOrdered := by
  obtain ⟨x, hx, rfl⟩ := Option.map_eq_some_iff.1 hn
  exact Number.isOrdered_add h.1 (h.2 x (Option.filter_eq_some_iff.1 hx).1)

theorem Record.endingLifetime_eq_some {lifetime : Option Number} {n : Number}
    (h : ∀ n, lifetime = some n → n.isInteger = true) :
    endingLifetime lifetime = some n ↔ lifetime = some n ∧ n.isZero = false := by
  rw [endingLifetime, Option.filter_eq_some_iff]
  refine and_congr_right ?_
  intro hn
  have hnumber : (n == .nan) = false := by
    have hinteger := h n hn
    cases n with
    | nan => cases hinteger
    | _ => rfl
  rw [hnumber, Bool.or_false, Bool.not_eq_true']

theorem Record.isLive_eq_false {now : Number} {e : CacheEntry} :
    isLive now e = false ↔ ∃ n, e.expiry = some n ∧ n.le now = true := by
  unfold isLive
  cases e.expiry with
  | none => simp
  | some n => simp

/-- A value lasts exactly as long as its entry is live. -/
theorem Load.lasts_iff {l : Load} (h : l.IsTimed) {now : Number} (hnow : now.IsOrdered) :
    l.Lasts now ↔ Record.isLive now ⟨l.value, l.expiry⟩ = true := by
  rw [← Bool.not_eq_false, Record.isLive_eq_false]
  constructor
  · rintro hlasts ⟨n, hn, hexpired⟩
    obtain ⟨x, hx, rfl⟩ := Option.map_eq_some_iff.1 hn
    obtain ⟨hlifetime, hnonzero⟩ := (Record.endingLifetime_eq_some h.2).1 hx
    rcases hlasts x hlifetime with hzero | hless
    · rw [hzero] at hnonzero
      cases hnonzero
    · rw [Number.lt_eq_not_le hnow (h.expiry hn), hexpired] at hless
      cases hless
  · intro hlive x hlifetime
    cases hzero : x.isZero with
    | true => exact .inl rfl
    | false =>
      have hn : l.expiry = some (l.since.add x) := by
        rw [Load.expiry, (Record.endingLifetime_eq_some h.2).2 ⟨hlifetime, hzero⟩]
        rfl
      rw [Number.lt_eq_not_le hnow (h.expiry hn), Bool.not_eq_true']
      exact .inr (Bool.eq_false_iff.2 fun hexpired => hlive ⟨_, hn, hexpired⟩)

/-- An entry of the store holds what is remembered, or is missing since this has expired. -/
def Mirrors (now : Number) (entry : Option CacheEntry) : Option Load → Prop
  | none => entry = none
  | some l => l.IsTimed ∧
    (entry = some ⟨l.value, l.expiry⟩ ∨
      entry = none ∧ ∃ n, l.expiry = some n ∧ n.le now = true)

/-- Looking at a record leaves an entry, or removes it as expired. -/
def Pruned (now : Number) (entry entry' : Option CacheEntry) : Prop :=
  entry' = entry ∨ entry' = none ∧ ∃ e, entry = some e ∧ Record.isLive now e = false

theorem Mirrors.pruned {now : Number} {entry entry' : Option CacheEntry} {known : Option Load}
    (h : Mirrors now entry known) (hpruned : Pruned now entry entry') :
    Mirrors now entry' known := by
  rcases hpruned with rfl | ⟨rfl, e, rfl, hexpired⟩
  · exact h
  · cases known with
    | none => cases h
    | some l =>
      obtain ⟨htimed, heq | ⟨hnone, -⟩⟩ := h
      · obtain rfl := Option.some.inj heq
        exact ⟨htimed, .inr ⟨rfl, Record.isLive_eq_false.1 hexpired⟩⟩
      · cases hnone

/-- What has expired stays expired while the clock does not go back. -/
theorem Mirrors.later {now later : Number} {entry : Option CacheEntry} {known : Option Load}
    (h : Mirrors now entry known) (hnow : now.IsOrdered) (hlater : later.IsOrdered)
    (hle : now.le later = true) : Mirrors later entry known := by
  cases known with
  | none => exact h
  | some l =>
    obtain ⟨htimed, hentry | ⟨hnone, n, hn, hexpired⟩⟩ := h
    · exact ⟨htimed, .inl hentry⟩
    · have hpassed := Number.le_trans (htimed.expiry hn) hnow hlater hexpired hle
      exact ⟨htimed, .inr ⟨hnone, n, hn, hpassed⟩⟩

namespace Record
variable {r : Record} {now : Number} {slot : String}

/-- A property of a record is a slot. -/
def IsSlot (r : Record) (property : String) : Prop :=
  ∃ visible, r.properties.lookup property = some (.slot visible)

theorem pruned_readCache (r : Record) (now : Number) (other slot : String) :
    Pruned now (r.cache.lookup slot) ((r.readCache now other).2.cache.lookup slot) := by
  unfold readCache
  cases hentry : r.cache.lookup other with
  | none => exact .inl rfl
  | some e =>
    dsimp only
    cases hlive : isLive now e with
    | true => exact .inl rfl
    | false =>
      rw [if_neg Bool.false_ne_true, lookup_without]
      by_cases heq : slot = other
      · rw [if_pos heq, heq]
        exact .inr ⟨rfl, e, hentry, hlive⟩
      · rw [if_neg heq]
        exact .inl rfl

theorem pruned_read (r : Record) (now : Number) (property slot : String) :
    Pruned now (r.cache.lookup slot) ((r.read now property).2.cache.lookup slot) := by
  unfold Record.read
  split
  · exact .inl rfl
  · exact pruned_readCache r now property slot
  · exact .inl rfl

/-- Looking at a record leaves its properties. -/
theorem properties_readCache (r : Record) (now : Number) (slot : String) :
    (r.readCache now slot).2.properties = r.properties := by
  unfold readCache
  split
  · rfl
  · split <;> rfl

theorem properties_read (r : Record) (now : Number) (property : String) :
    (r.read now property).2.properties = r.properties := by
  unfold Record.read
  split
  · rfl
  · exact properties_readCache r now property
  · rfl

/-- A slot holds a live entry, or nothing. -/
theorem readCache_eq_some {v : Value} :
    (r.readCache now slot).1 = some v ↔
      ∃ e, r.cache.lookup slot = some e ∧ isLive now e = true ∧ e.value = v := by
  unfold readCache
  cases hentry : r.cache.lookup slot with
  | none => simp
  | some e =>
    cases hlive : isLive now e with
    | true => simp [hlive]
    | false => simp [hlive]

theorem IsSlot.attach (h : r.IsSlot slot) (now : Number) (written : String) (v : Value)
    (lifetime : Option Number) (visible : Bool) :
    (r.attach now written v lifetime visible).IsSlot slot := by
  show ∃ listed, (openSlot r.properties written visible).lookup slot = some (.slot listed)
  by_cases hslot : slot = written
  · subst hslot
    exact lookup_openSlot ..
  · rwa [lookup_openSlot_other hslot]

end Record

namespace Store
variable {s : Store} {id : Nat} {slot : String} {e : SlotEvent} {history : List SlotEvent}

/-- The entry of a slot, expired or not. -/
def entry (s : Store) (id : Nat) (slot : String) : Option CacheEntry :=
  (s.record id).cache.lookup slot

/-- The store after a history. -/
def through (s : Store) (history : List SlotEvent) : Store := history.foldl happen s

theorem now_happen (s : Store) (e : SlotEvent) : (s.happen e).now = e.clock s.now := by
  cases e <;> rfl

theorem size_happen (s : Store) (e : SlotEvent) :
    (s.happen e).records.size = s.records.size := by
  cases e with
  | ticked n => rfl
  | _ => exact size_change ..

theorem now_through (s : Store) (history : List SlotEvent) :
    (s.through history).now = SlotEvent.time s.now history := by
  induction history generalizing s with
  | nil => rfl
  | cons e history ih => exact (ih (s.happen e)).trans (by rw [now_happen]; rfl)

/-- Looking at records prunes their entries. -/
theorem pruned_change (s : Store) (other : Nat) (f : Record → Record)
    (h : Pruned s.now (s.entry other slot) ((f (s.record other)).cache.lookup slot)) :
    Pruned s.now (s.entry id slot) ((s.change other f).entry id slot) := by
  unfold entry at h ⊢
  rw [record_change]
  split
  · next hid =>
    obtain ⟨rfl, -⟩ := hid
    exact h
  · exact .inl rfl

theorem entry_attach (hid : id < s.records.size) (other : Nat) (written : String) (v : Value)
    (lifetime : Option Number) (visible : Bool) :
    (s.attach other written v lifetime visible).entry id slot =
      if id = other ∧ slot = written then
        some ⟨v, (Record.endingLifetime lifetime).map s.now.add⟩
      else s.entry id slot := by
  unfold entry attach
  rw [record_change]
  by_cases hother : id = other
  · subst hother
    rw [if_pos ⟨rfl, hid⟩]
    by_cases hslot : slot = written
    · rw [if_pos ⟨rfl, hslot⟩]
      exact (Record.lookup_put ..).trans (if_pos hslot)
    · rw [if_neg fun h => hslot h.2]
      exact (Record.lookup_put ..).trans (if_neg hslot)
  · rw [if_neg fun h => hother h.1, if_neg fun h => hother h.1]

theorem entry_clear (hid : id < s.records.size) (other : Nat) (cleared : Option String) :
    (s.clear other cleared).entry id slot =
      if id = other ∧ (cleared = none ∨ cleared = some slot) then none else s.entry id slot := by
  unfold entry clear
  rw [record_change]
  by_cases hother : id = other
  · subst hother
    rw [if_pos ⟨rfl, hid⟩]
    cases cleared with
    | none => exact (if_pos ⟨rfl, .inl rfl⟩).symm
    | some name =>
      show (Record.without name (s.record id).cache).lookup slot = _
      rw [Record.lookup_without]
      by_cases hslot : slot = name
      · rw [if_pos hslot, if_pos ⟨rfl, .inr (congrArg some hslot.symm)⟩]
      · rw [if_neg hslot, if_neg]
        rintro ⟨-, hnone | hname⟩
        · cases hnone
        · exact hslot (Option.some.inj hname).symm
  · rw [if_neg fun h => hother h.1, if_neg fun h => hother h.1]

/-- An event keeps the entry of a slot in line with what is remembered of it. -/
theorem mirrors_happen {known : Option Load} (hid : id < s.records.size) (hnow : s.now.IsOrdered)
    (hfollows : e.Follows s.now) (h : Mirrors s.now (s.entry id slot) known) :
    Mirrors (s.happen e).now ((s.happen e).entry id slot)
      (SlotEvent.remember id slot (s.now, known) e).2 := by
  cases e with
  | attached other written v lifetime visible =>
    show Mirrors s.now ((s.attach other written v lifetime visible).entry id slot)
      (if other = id ∧ written = slot then some ⟨s.now, v, lifetime⟩ else known)
    rw [entry_attach hid]
    by_cases hpair : id = other ∧ slot = written
    · -- whatever was in the slot, the new entry is what is remembered from now on
      rw [if_pos hpair, if_pos ⟨hpair.1.symm, hpair.2.symm⟩]
      exact ⟨⟨hnow, hfollows⟩, .inl rfl⟩
    · rw [if_neg hpair, if_neg fun hsame => hpair ⟨hsame.1.symm, hsame.2.symm⟩]
      exact h
  | cleared other cleared =>
    show Mirrors s.now ((s.clear other cleared).entry id slot)
      (if other = id ∧ (cleared = none ∨ cleared = some slot) then none else known)
    rw [entry_clear hid]
    by_cases hcovered : id = other ∧ (cleared = none ∨ cleared = some slot)
    · rw [if_pos hcovered, if_pos ⟨hcovered.1.symm, hcovered.2⟩]
      rfl
    · rw [if_neg hcovered, if_neg fun hsame => hcovered ⟨hsame.1.symm, hsame.2⟩]
      exact h
  | looked other written =>
    exact h.pruned (pruned_change s other _ (Record.pruned_readCache _ s.now written slot))
  | read other property =>
    exact h.pruned (pruned_change s other _ (Record.pruned_read _ s.now property slot))
  | ticked n => exact h.later hnow hfollows.1 hfollows.2

/-- The entry of a slot is in line with its history. -/
theorem mirrors_through (hid : id < s.records.size) (hentry : s.entry id slot = none)
    (hnow : s.now.IsOrdered) (hhistory : SlotEvent.Orderly s.now history) :
    Mirrors (s.through history).now ((s.through history).entry id slot)
      (SlotEvent.remembered s.now id slot history) := by
  -- what is known at the beginning varies in the induction, which goes event by event
  suffices h : ∀ known : Option Load, Mirrors s.now (s.entry id slot) known →
      Mirrors (s.through history).now ((s.through history).entry id slot)
        (history.foldl (SlotEvent.remember id slot) (s.now, known)).2 from h none hentry
  clear hentry
  induction history generalizing s with
  | nil => exact fun known h => h
  | cons e history ih =>
    intro known h
    obtain ⟨hfollows, hrest⟩ := hhistory
    have hnow' : (s.happen e).now.IsOrdered := by
      cases e with
      | ticked n => exact hfollows.1
      | _ => exact hnow
    have hstep := mirrors_happen hid hnow hfollows h
    have hknown : SlotEvent.remember id slot (s.now, known) e =
        ((s.happen e).now, (SlotEvent.remember id slot (s.now, known) e).2) := by
      rw [now_happen, ← SlotEvent.remember_clock id slot (s.now, known) e]
    rw [List.foldl_cons, hknown]
    exact ih ((size_happen s e).symm ▸ hid) hnow' (now_happen s e ▸ hrest) _ hstep

/-! ## Properties that are slots -/

theorem isSlot_change {other : Nat} {f : Record → Record}
    (hf : (s.record other).IsSlot slot → (f (s.record other)).IsSlot slot)
    (h : (s.record id).IsSlot slot) : ((s.change other f).record id).IsSlot slot := by
  rw [record_change]
  split
  · next hid => exact hf (hid.1 ▸ h)
  · exact h

/-- A slot stays a slot. -/
theorem isSlot_happen (h : (s.record id).IsSlot slot) (e : SlotEvent) :
    ((s.happen e).record id).IsSlot slot := by
  cases e with
  | attached other written v lifetime visible =>
    exact isSlot_change (fun hother => hother.attach s.now written v lifetime visible) h
  | cleared other cleared =>
    refine isSlot_change (f := fun r => r.clear cleared) ?_ h
    intro hother
    cases cleared <;> exact hother
  | looked other written =>
    refine isSlot_change (f := fun _ => ((s.record other).readCache s.now written).2) ?_ h
    intro hother
    rwa [Record.IsSlot, Record.properties_readCache]
  | read other property =>
    refine isSlot_change (f := fun _ => ((s.record other).read s.now property).2) ?_ h
    intro hother
    rwa [Record.IsSlot, Record.properties_read]
  | ticked n => exact h

theorem isSlot_through (h : (s.record id).IsSlot slot) (history : List SlotEvent) :
    ((s.through history).record id).IsSlot slot := by
  induction history generalizing s with
  | nil => exact h
  | cons e history ih => exact ih (isSlot_happen h e)

/-- A property that was attached to is a slot. -/
theorem isSlot_of_attached (hid : id < s.records.size) {v : Value} {lifetime : Option Number}
    {visible : Bool} (h : .attached id slot v lifetime visible ∈ history) :
    ((s.through history).record id).IsSlot slot := by
  induction history generalizing s with
  | nil => cases h
  | cons e history ih =>
    rcases List.mem_cons.1 h with rfl | h
    · refine isSlot_through ?_ history
      show ((s.attach id slot v lifetime visible).record id).IsSlot slot
      rw [record_attach slot v lifetime visible hid]
      exact Record.lookup_openSlot ..
    · exact ih ((size_happen s e).symm ▸ hid) h

theorem read_of_isSlot (h : (s.record id).IsSlot slot) :
    (s.read id slot).1 = (s.cached? id slot).1.getD .undefined := by
  obtain ⟨visible, h⟩ := h
  show ((s.record id).read s.now slot).1 =
    ((s.record id).readCache s.now slot).1.getD .undefined
  unfold Record.read
  rw [h]

/-! ## What a slot reports -/

/-- A slot reports what is remembered of it, for as long as this lasts. -/
theorem cached?_through (hid : id < s.records.size) (hentry : s.entry id slot = none)
    (hnow : s.now.IsOrdered) (hhistory : SlotEvent.Orderly s.now history) (v : Value) :
    ((s.through history).cached? id slot).1 = some v ↔
      ∃ l, SlotEvent.remembered s.now id slot history = some l ∧ l.value = v ∧
        l.Lasts (SlotEvent.time s.now history) := by
  have hmirrors := mirrors_through hid hentry hnow hhistory
  have hordered := SlotEvent.isOrdered_time hnow hhistory
  rw [now_through] at hmirrors
  show (((s.through history).record id).readCache (s.through history).now slot).1 = some v ↔ _
  rw [Record.readCache_eq_some, now_through]
  generalize SlotEvent.remembered s.now id slot history = known at hmirrors ⊢
  generalize SlotEvent.time s.now history = now at hmirrors hordered ⊢
  unfold entry at hmirrors
  cases known with
  | none =>
    constructor
    · rintro ⟨e, he, -⟩
      cases hmirrors.symm.trans he
    · rintro ⟨l, hl, -⟩
      cases hl
  | some l =>
    obtain ⟨htimed, hmirrors⟩ := hmirrors
    have hlasts := Load.lasts_iff htimed hordered
    constructor
    · rintro ⟨e, he, hlive, rfl⟩
      rcases hmirrors with heq | ⟨hnone, -⟩
      · obtain rfl := Option.some.inj (heq.symm.trans he)
        exact ⟨l, rfl, rfl, hlasts.2 hlive⟩
      · cases hnone.symm.trans he
    · rintro ⟨_, ⟨⟩, rfl, hl⟩
      have hlive := hlasts.1 hl
      rcases hmirrors with heq | ⟨-, hexpired⟩
      · exact ⟨_, heq, hlive, rfl⟩
      · -- an entry is missing only after it has expired, but this value lasts
        rw [Record.isLive_eq_false.2 hexpired] at hlive
        cases hlive

/-- Looking at slots in between changes nothing about what a slot reports. -/
theorem cached?_through_filter (hid : id < s.records.size) (hentry : s.entry id slot = none)
    (hnow : s.now.IsOrdered) (hhistory : SlotEvent.Orderly s.now history) :
    ((s.through (history.filter fun e => !e.isReading)).cached? id slot).1 =
      ((s.through history).cached? id slot).1 := by
  refine Option.ext ?_
  intro v
  rw [cached?_through hid hentry hnow hhistory,
    cached?_through hid hentry hnow (SlotEvent.orderly_filter hhistory),
    SlotEvent.remembered_filter, SlotEvent.time_filter]

/-- A slot is loaded with a value exactly when the latest attach to it put this value there,
nothing cleared it since, and the lifetime, if it has one, has not passed. All ways of looking agree
on this, and looking changes nothing about what is seen later. -/
theorem slot_history (s : Store) (id : Nat) (slot : String) (history : List SlotEvent)
    (hid : id < s.records.size) (hentry : s.entry id slot = none) (hnow : s.now.IsOrdered)
    (hhistory : SlotEvent.Orderly s.now history) :
    (∀ v, ((s.through history).cached? id slot).1 = some v ↔
      ∃ l : Load, l.value = v ∧ l.Lasts (SlotEvent.time s.now history) ∧
        Since
          (fun before e => ∃ visible, e = .attached id slot l.value l.lifetime visible ∧
            l.since = SlotEvent.time s.now before)
          (fun e => ¬ e.Concerns id slot) history) ∧
    (∀ session : Session, session.store = s.through history →
      (Table.cached id slot session).1 = .ok ((s.through history).cached? id slot).1 ∧
      (Table.slotState id slot session).1 =
        .ok (if ((s.through history).cached? id slot).1.isSome then .loaded else .notLoaded)) ∧
    ((∃ v lifetime visible, .attached id slot v lifetime visible ∈ history) →
      ((s.through history).read id slot).1 =
        ((s.through history).cached? id slot).1.getD .undefined) ∧
    ((s.through (history.filter fun e => !e.isReading)).cached? id slot).1 =
      ((s.through history).cached? id slot).1 := by
  refine ⟨?_, ?_, ?_, cached?_through_filter hid hentry hnow hhistory⟩
  · intro v
    rw [cached?_through hid hentry hnow hhistory]
    -- the load that is remembered is the latest one, if nothing concerned the slot since
    constructor
    · rintro ⟨l, hl, hv, hlasts⟩
      exact ⟨l, hv, hlasts, SlotEvent.remembered_iff.1 hl⟩
    · rintro ⟨l, hv, hlasts, hsince⟩
      exact ⟨l, SlotEvent.remembered_iff.2 hsince, hv, hlasts⟩
  · rintro session hstore
    rw [← hstore]
    exact ⟨rfl, rfl⟩
  · rintro ⟨v, lifetime, visible, hmem⟩
    exact read_of_isSlot (isSlot_of_attached hid hmem)

/-- A slot that is attached to again holds the new value for the new lifetime. -/
theorem slot_history_again :
    (((Store.mk #[.blank] (.int 100)).through
      [.attached 0 "posts" (.number (.int 1)) (some (.int 20)) true, .ticked (.int 120),
        .looked 0 "posts", .attached 0 "posts" (.number (.int 2)) (some (.int 30)) true,
        .ticked (.int 149), .read 0 "posts"]).cached? 0 "posts").1 = some (.number (.int 2)) := by
  have horderly : SlotEvent.Orderly (.int 100)
      [.attached 0 "posts" (.number (.int 1)) (some (.int 20)) true, .ticked (.int 120),
        .looked 0 "posts", .attached 0 "posts" (.number (.int 2)) (some (.int 30)) true,
        .ticked (.int 149), .read 0 "posts"] := by
    refine ⟨?_, ⟨trivial, by decide⟩, trivial, ?_, ⟨trivial, by decide⟩, trivial, trivial⟩
    · rintro _ ⟨⟩
      rfl
    · rintro _ ⟨⟩
      rfl
  refine ((slot_history ⟨#[.blank], .int 100⟩ 0 "posts" _ (by decide) rfl trivial
    horderly).1 _).2 ⟨⟨.int 120, .number (.int 2), some (.int 30)⟩, rfl, ?_, ?_⟩
  · rintro _ ⟨⟩
    exact .inr (by decide)
  -- the second load began anew, ten units before the first one would have ended
  · refine ⟨[.attached 0 "posts" (.number (.int 1)) (some (.int 20)) true, .ticked (.int 120),
      .looked 0 "posts"], _, [.ticked (.int 149), .read 0 "posts"], rfl, ⟨true, rfl, rfl⟩, ?_⟩
    intro later hlater
    rw [List.mem_cons, List.mem_singleton] at hlater
    rcases hlater with rfl | rfl <;> exact id

end Store

end PolyQuery
