import Mathlib.Data.List.Perm.Subperm
import PolyQuery.Proofs.Looking

/-! How deep values are seen. A view goes into records that it is not inside of already, so it is
inside of as many records as there are, at most, and behind the last one are only records that are
not there and have no properties. So any depth beyond the number of records shows the same:
`Store.view_deep`, and the same holds of plain copies: `Store.plain?_deep`. -/
namespace PolyQuery
namespace Store
variable {α β : Type} {n : Nat}

/-- In stores of so many records two readers find the same, and they leave as many. -/
def Matches (n : Nat) (look look' : Store → β × Store) : Prop :=
  ∀ t : Store, t.records.size = n → look t = look' t ∧ (look t).2.records.size = n

theorem Matches.pure (b : β) : Matches n (fun t => (b, t)) fun t => (b, t) := fun _ ht => ⟨rfl, ht⟩

theorem Matches.bind {look look' : Store → α × Store} {k l : α → Store → β × Store}
    (h : Matches n look look') (hnext : ∀ a, Matches n (k a) (l a)) :
    Matches n (fun t => k (look t).1 (look t).2) fun t => l (look' t).1 (look' t).2 := by
  intro t ht
  obtain ⟨hsame, hsize⟩ := h t ht
  dsimp only
  rw [← hsame]
  exact hnext _ _ hsize

theorem Matches.map {look look' : Store → α × Store} (h : Matches n look look') (f : α → β) :
    Matches n (fun t => (f (look t).1, (look t).2)) fun t => (f (look' t).1, (look' t).2) :=
  h.bind (k := fun a t => (f a, t)) (l := fun a t => (f a, t)) fun _ => .pure _

theorem matches_read (id : Nat) (property : String) :
    Matches n (fun t => t.read id property) fun t => t.read id property :=
  fun t ht => ⟨rfl, (size_change t id _).trans ht⟩

section Mapping
variable {leaf : Value → β} {list : List β → β} {object : List (String × β) → β}
  {f g : Nat → Store → β × Store}

mutual

theorem matches_mapValue (h : ∀ id, Matches n (f id) (g id)) : (v : Value) →
    Matches n (mapValue leaf list object f v) (mapValue leaf list object g v)
  | .record id => h id
  | .array items => (matches_mapItems h items).map list
  | .object fields => (matches_mapFields h fields).map object
  | .null | .undefined | .bool _ | .number _ | .bigint _ | .string _ | .date _ | .bytes _ _
  | .node _ | .foreign _ | .callable => .pure _

theorem matches_mapItems (h : ∀ id, Matches n (f id) (g id)) : (items : List Value) →
    Matches n (mapItems leaf list object f items) (mapItems leaf list object g items)
  | [] => .pure _
  | v :: vs =>
    (matches_mapValue h v).bind
      (k := fun x t => (x :: (mapItems leaf list object f vs t).1,
        (mapItems leaf list object f vs t).2))
      (l := fun x t => (x :: (mapItems leaf list object g vs t).1,
        (mapItems leaf list object g vs t).2))
      fun _ => (matches_mapItems h vs).map _

theorem matches_mapFields (h : ∀ id, Matches n (f id) (g id)) :
    (fields : List (String × Value)) →
    Matches n (mapFields leaf list object f fields) (mapFields leaf list object g fields)
  | [] => .pure _
  | (name, v) :: fs =>
    (matches_mapValue h v).bind
      (k := fun x t => ((name, x) :: (mapFields leaf list object f fs t).1,
        (mapFields leaf list object f fs t).2))
      (l := fun x t => ((name, x) :: (mapFields leaf list object g fs t).1,
        (mapFields leaf list object g fs t).2))
      fun _ => (matches_mapFields h fs).map _

end

end Mapping

theorem matches_seeAll {see see' : Value → Store → β × Store} (h : ∀ v, Matches n (see v) (see' v))
    (id : Nat) (names : List String) : Matches n (seeAll see id names) (seeAll see' id names) := by
  induction names with
  | nil => exact .pure _
  | cons name rest ih =>
    have hnext (v : Value) : Matches n
        (fun t => ((name, (see v t).1) :: (seeAll see id rest (see v t).2).1,
          (seeAll see id rest (see v t).2).2))
        fun t => ((name, (see' v t).1) :: (seeAll see' id rest (see' v t).2).1,
          (seeAll see' id rest (see' v t).2).2) :=
      (h v).bind (k := fun x t => ((name, x) :: (seeAll see id rest t).1,
          (seeAll see id rest t).2))
        (l := fun x t => ((name, x) :: (seeAll see' id rest t).1, (seeAll see' id rest t).2))
        fun _ => ih.map _
    exact (matches_read id name).bind
      (k := fun v t => ((name, (see v t).1) :: (seeAll see id rest (see v t).2).1,
        (seeAll see id rest (see v t).2).2))
      (l := fun v t => ((name, (see' v t).1) :: (seeAll see' id rest (see' v t).2).1,
        (seeAll see' id rest (see' v t).2).2)) hnext

/-! ## Depth -/

/-- The records that something is inside of, each once, all of a store with so many. -/
structure Inside (n : Nat) (outer : List Nat) : Prop where
  distinct : outer.Nodup
  there : ∀ id ∈ outer, id < n

theorem Inside.nil (n : Nat) : Inside n [] := ⟨.nil, fun _ h => nomatch h⟩

theorem Inside.length_le {outer : List Nat} (h : Inside n outer) : outer.length ≤ n := by
  have hsubset : outer ⊆ List.range n := fun id hid => List.mem_range.2 (h.there id hid)
  have hlength := (h.distinct.subperm hsubset).length_le
  rwa [List.length_range] at hlength

theorem Inside.cons {outer : List Nat} (h : Inside n outer) {id : Nat} (hid : id < n)
    (hnew : ¬ outer.contains id = true) : Inside n (id :: outer) where
  distinct := List.nodup_cons.2 ⟨fun hmem => hnew (List.contains_iff_mem.2 hmem), h.distinct⟩
  there := List.forall_mem_cons.2 ⟨hid, h.there⟩

/-- A record that is not there has no properties. -/
theorem record_beyond {t : Store} {id : Nat} (h : ¬ id < t.records.size) : t.record id = .blank := by
  rw [record, Array.getElem?_eq_none (Nat.le_of_not_lt h)]
  rfl

/-- Two readers of records that go into no record a second time match if they do so inside of one
record more, and at one that is not there. -/
theorem matches_onRecord {outer : List Nat} (hinside : Inside n outer) {b : Nat → β}
    {f g : Nat → Store → β × Store} (hinner : ∀ id, Inside n (id :: outer) → Matches n (f id) (g id))
    (hblank : ∀ id t, t.record id = .blank → f id t = g id t ∧ (f id t).2 = t) (id : Nat) :
    Matches n (fun t => if outer.contains id then (b id, t) else f id t)
      fun t => if outer.contains id then (b id, t) else g id t := by
  intro t ht
  dsimp only
  by_cases houter : outer.contains id = true
  · rw [if_pos houter, if_pos houter]
    exact ⟨rfl, ht⟩
  · rw [if_neg houter, if_neg houter]
    by_cases hid : id < n
    · exact hinner id (hinside.cons hid houter) t ht
    · obtain ⟨hsame, hleft⟩ := hblank id t (record_beyond (ht ▸ hid))
      exact ⟨hsame, (congrArg (fun t : Store => t.records.size) hleft).trans ht⟩

theorem matches_viewWithin {fuel m : Nat} {outer : List Nat} (hinside : Inside n outer)
    (h : n + 2 ≤ fuel + outer.length) (h' : n + 2 ≤ m + outer.length) (v : Value) :
    Matches n (viewWithin fuel outer v) (viewWithin m outer v) := by
  have hlength := hinside.length_le
  induction fuel generalizing m outer v with
  | zero => omega
  | succ fuel ih =>
    obtain ⟨m, rfl⟩ : ∃ k, m = k + 1 := ⟨m - 1, by omega⟩
    refine matches_mapValue (matches_onRecord hinside (fun id hinner t ht => ?_) fun id t ht => ?_) v
    · have hdeeper : (id :: outer).length = outer.length + 1 := List.length_cons
      have hsee (v : Value) := ih (m := m) hinner (by omega) (by omega) v hinner.length_le
      have hvisible := matches_seeAll hsee id (t.record id).visibleNames t ht
      have hhidden := matches_seeAll hsee id (t.record id).hiddenNames _ hvisible.2
      dsimp only
      rw [← hvisible.1, ← hhidden.1]
      exact ⟨rfl, hhidden.2⟩
    · dsimp only
      rw [ht]
      exact ⟨rfl, rfl⟩

theorem matches_plainWithin {fuel m : Nat} {outer : List Nat} (hinside : Inside n outer)
    (h : n + 2 ≤ fuel + outer.length) (h' : n + 2 ≤ m + outer.length) (v : Value) :
    Matches n (plainWithin fuel outer v) (plainWithin m outer v) := by
  have hlength := hinside.length_le
  induction fuel generalizing m outer v with
  | zero => omega
  | succ fuel ih =>
    obtain ⟨m, rfl⟩ : ∃ k, m = k + 1 := ⟨m - 1, by omega⟩
    refine matches_mapValue (matches_onRecord hinside (fun id hinner t ht => ?_) fun id t ht => ?_) v
    · have hdeeper : (id :: outer).length = outer.length + 1 := List.length_cons
      have hsee (v : Value) := ih (m := m) hinner (by omega) (by omega) v hinner.length_le
      have hfields := matches_seeAll hsee id (t.record id).visibleNames t ht
      dsimp only
      rw [← hfields.1]
      exact ⟨rfl, hfields.2⟩
    · dsimp only
      rw [ht]
      exact ⟨rfl, rfl⟩

/-- Any depth beyond the number of records shows the same view. -/
theorem view_deep {s : Store} {v : Value} {depth : Nat} (h : s.records.size + 2 ≤ depth) :
    s.view v = viewWithin depth [] v s :=
  (matches_viewWithin (.nil _) (Nat.le_refl _) h v s rfl).1

/-- Any depth beyond the number of records gives the same copy. -/
theorem plain?_deep {s : Store} {v : Value} {depth : Nat} (h : s.records.size + 2 ≤ depth) :
    s.plain? v = plainWithin depth [] v s :=
  (matches_plainWithin (.nil _) (Nat.le_refl _) h v s rfl).1

end Store
end PolyQuery
