import Mathlib.Data.List.Induction
import PolyQuery.Proofs.Attachment

/-! The keys of parents. Those that differ are found in the order in which they first occur:
`distinctKeys_spec`. Where there are none, nothing is attached to the parents, and no key is
refused: `attach_nothing`. -/
namespace PolyQuery

/-! ## Distinct keys -/

namespace Loader
variable {σ : Session} {s : Store} {property : String} {ids : List Nat}

/-- The keys among records in order of first occurrence, each with the value that has it first. -/
structure FirstKeys (s : Store) (property : String) (ids : List Nat)
    (keys : List (String × Value)) : Prop where
  texts : keys.map Prod.fst = (ids.filterMap fun id => s.key? id property).eraseDups
  values : ∀ f ∈ keys, ∃ id, ids.find? (fun id => s.key? id property == some f.1) = some id ∧
    s.value id property = f.2

/-- The keys with that of one more record. -/
def noteKey (s : Store) (property : String) (found : List (String × Value)) (id : Nat) :
    List (String × Value) :=
  match s.key? id property with
  | some key => addKey found key (s.value id property)
  | none => found

theorem eraseDups_concat (texts : List String) (key : String) : (texts ++ [key]).eraseDups =
    if key ∈ texts then texts.eraseDups else texts.eraseDups ++ [key] := by
  rw [List.eraseDups_append, List.removeAll, List.filter_cons]
  by_cases h : key ∈ texts
  · rw [if_pos h, if_neg (by simpa using h)]
    exact List.append_nil _
  · rw [if_neg h, if_pos (by simpa using h)]
    rfl

theorem firstKeys_foldl (s : Store) (property : String) (ids : List Nat) :
    FirstKeys s property ids (ids.foldl (noteKey s property) []) := by
  induction ids using List.reverseRecOn with
  | nil => exact ⟨rfl, fun _ h => nomatch h⟩
  | append_singleton ids id ih =>
    rw [List.foldl_append, List.foldl_cons, List.foldl_nil]
    generalize ids.foldl (noteKey s property) [] = found at ih ⊢
    -- a record that is the first with its key stays so when another one comes behind
    have hearlier : ∀ f ∈ found, ∃ other,
        (ids ++ [id]).find? (fun id => s.key? id property == some f.1) = some other ∧
          s.value other property = f.2 := by
      intro f hf
      obtain ⟨other, hother, hvalue⟩ := ih.values f hf
      exact ⟨other, by rw [List.find?_append, hother]; rfl, hvalue⟩
    unfold noteKey
    cases hkey : s.key? id property with
    | none =>
      refine ⟨?_, hearlier⟩
      rw [ih.texts, List.filterMap_append, List.filterMap_cons, hkey]
      exact congrArg List.eraseDups (List.append_nil _).symm
    | some key =>
      have htexts : (ids ++ [id]).filterMap (fun id => s.key? id property) =
          ids.filterMap (fun id => s.key? id property) ++ [key] := by
        rw [List.filterMap_append, List.filterMap_cons, hkey]
        rfl
      have hany : (found.any fun f => f.1 == key) = true ↔
          key ∈ ids.filterMap fun id => s.key? id property := by
        rw [List.any_eq_true, ← List.mem_eraseDups, ← ih.texts, List.mem_map]
        simp only [beq_iff_eq]
      dsimp only
      rw [addKey]
      by_cases hmem : key ∈ ids.filterMap fun id => s.key? id property
      · rw [if_pos (hany.2 hmem)]
        refine ⟨?_, hearlier⟩
        rw [htexts, eraseDups_concat, if_pos hmem, ih.texts]
      · rw [if_neg fun h => hmem (hany.1 h)]
        refine ⟨?_, ?_⟩
        · rw [htexts, eraseDups_concat, if_neg hmem, List.map_append, ih.texts]
          rfl
        · intro f hf
          obtain hf | hf := List.mem_append.1 hf
          · exact hearlier f hf
          · obtain rfl := List.mem_singleton.1 hf
            refine ⟨id, ?_, rfl⟩
            have hnone : ids.find? (fun id => s.key? id property == some key) = none := by
              rw [List.find?_eq_none]
              intro other hother hother'
              exact hmem (List.mem_filterMap.2 ⟨other, hother, beq_iff_eq.1 hother'⟩)
            rw [List.find?_append, hnone]
            simp [hkey]

/-- No key is found only where no record has one. -/
theorem FirstKeys.keyless {property : String} {ids : List Nat} (h : FirstKeys s property ids [])
    {id : Nat} (hid : id ∈ ids) : s.key? id property = none := by
  cases hkey : s.key? id property with
  | none => rfl
  | some key =>
    have hmem : key ∈ (ids.filterMap fun id => s.key? id property).eraseDups :=
      List.mem_eraseDups.2 (List.mem_filterMap.2 ⟨id, hid, hkey⟩)
    rw [← h.texts] at hmem
    cases hmem

/-- A record whose key is refused stops the reading, and nothing else does. -/
theorem distinctKeys_spec (property : String) (ids : List Nat) (halike : s.Alike σ.store)
    (found : List (String × Value)) :
    ∃ t, s.Alike t ∧
      ((∀ id ∈ ids, s.hasKey id property = true) ∧ distinctKeys property found ids σ =
          (.ok (ids.foldl (noteKey s property) found), { σ with store := t }) ∨
        ∃ e, (∃ id ∈ ids, (s.readKey id property).1 = .error e) ∧
          distinctKeys property found ids σ = (.error e, { σ with store := t })) :=
  keyLoop_spec
    (fun found _ v key =>
      match key with
      | some k => addKey found k v
      | none => found)
    (fun _ => rfl) (fun _ _ _ => rfl) ids halike found

/-- A value as it is bound: records in it are plain objects, if they can be. -/
def boundValue (s : Store) (v : Value) : Value := (s.plain? v).1.getD v

theorem mapM_bindable (halike : s.Alike σ.store) (keys : List (String × Value)) :
    ∃ t, s.Alike t ∧ (keys.mapM fun k => bindable k.2) σ =
      (.ok (keys.map fun k => boundValue s k.2), { σ with store := t }) := by
  induction keys generalizing σ with
  | nil => exact ⟨σ.store, halike, rfl⟩
  | cons k rest ih =>
    obtain ⟨hplain, hleft⟩ := Store.looks_plain? (s := s) (v := k.2) (K := fun _ => True)
      (fun _ _ => trivial) _ halike
    have hfirst : bindable k.2 σ =
        (.ok (boundValue s k.2), { σ with store := (σ.store.plain? k.2).2 }) := by
      rw [bindable, Run.bind_ok (Run.onStore_apply _ σ), hplain]
      rfl
    obtain ⟨t, ht, hrest⟩ := ih (σ := { σ with store := (σ.store.plain? k.2).2 })
      (halike.trans hleft.alike)
    refine ⟨t, ht, ?_⟩
    rw [List.mapM_cons, Run.bind_ok hfirst, Run.bind_ok hrest]
    rfl

end Loader

/-! ## Attaching nothing -/

namespace Loader
variable {σ : Session} {s : Store} {step : LoadStep} {parents children : List Nat}
  {lifetime : Option Number}

/-- Nothing to attach: no children, or no child. -/
def nothing (step : LoadStep) : Value := slotValue step.relation.isToMany []

/-- Values that have no key, or that of no children. -/
def Idle (v : Value) : Prop := v = .null ∨ v = .undefined ∨ v = .array []

theorem idle_nothing (step : LoadStep) : Idle (nothing step) := by
  unfold nothing
  cases step.relation.isToMany with
  | true => exact .inr (.inr rfl)
  | false => exact .inl rfl

theorem idle_of_keyless {id : Nat} {property : String} (h : s.hasKey id property = true)
    (hnone : s.key? id property = none) : Idle (s.value id property) := by
  have hread := Store.readKey_ok h
  rw [hnone] at hread
  -- the key is none because the value is missing, and not because it was refused
  cases hkey : (matchKey (s.value id property) (s.read id property).2).1 with
  | error e =>
    have herror : (s.readKey id property).1 = .error e := by
      show Except.map _ (matchKey (s.value id property) (s.read id property).2).1 = _
      rw [hkey]
      rfl
    rw [hread] at herror
    cases herror
  | ok key =>
    have hok : (s.readKey id property).1 = .ok (s.value id property, key) := by
      show Except.map _ (matchKey (s.value id property) (s.read id property).2).1 = _
      rw [hkey]
      rfl
    rw [hread] at hok
    obtain rfl : none = key := congrArg Prod.snd (Except.ok.inj hok)
    have hmissing := Store.isMissing_of_matchKey hkey
    unfold Idle
    cases hv : s.value id property with
    | null => exact .inl rfl
    | undefined => exact .inr (.inl rfl)
    | _ =>
      rw [hv] at hmissing
      cases hmissing

theorem idle_readKey {id : Nat} {property : String} (h : Idle (s.value id property)) :
    ∃ key, (s.readKey id property).1 = .ok (s.value id property, key) := by
  have hmatch (t : Store) : ∃ key, (matchKey (s.value id property) t).1 = .ok key := by
    obtain h | h | h := h
    · exact ⟨none, by rw [h]; rfl⟩
    · exact ⟨none, by rw [h]; rfl⟩
    · exact ⟨some "json:[]", by rw [h]; rfl⟩
  obtain ⟨key, hkey⟩ := hmatch (s.read id property).2
  refine ⟨key, ?_⟩
  show Except.map _ (matchKey (s.value id property) (s.read id property).2).1 = _
  rw [hkey]
  rfl

/-- What was attached without a key among the parents is idle itself, also once it has expired. -/
theorem idle_shown (step : LoadStep) (lifetime : Option Number) (now n : Number) :
    Idle (Record.shown now (nothing step) lifetime n) := by
  unfold Record.shown
  split
  · exact idle_nothing step
  · exact .inr (.inl rfl)

theorem supplied_nothing (step : LoadStep) (lifetime : Option Number) (parent : Nat) (s : Store) :
    supplied step lifetime parent [] s =
      s.attach parent step.node.slot (nothing step) lifetime true := by
  unfold supplied
  cases step.relation.inverseSlot <;> rfl

/-- The slot of a parent shows nothing once nothing was attached to it, and goes on to do so while
nothing is attached to others. -/
theorem shows_nothing {t : Store} {parent id : Nat} (halike : s.Alike t)
    (h : id = parent ∧ parent < s.records.size ∨
      s.Shows id step.node.slot (nothing step) lifetime) :
    (t.attach parent step.node.slot (nothing step) lifetime true).Shows id step.node.slot
      (nothing step) lifetime := by
  unfold Store.Shows at h ⊢
  rw [Store.value_attach]
  split
  · rfl
  · next hother =>
    obtain ⟨hid, hthere⟩ | hshows := h
    · exact (hother ⟨hid, rfl, halike.size ▸ hthere⟩).elim
    · rw [halike.value trivial, hshows, ← halike.now]
      rfl

/-- Where no parent has a key, each gets nothing. -/
theorem attachAll_nothing (lifetime : Option Number) {all : List Nat}
    (hparents : ∀ p ∈ parents, p ∈ all) (hidle : ∀ p ∈ all, Idle (σ.store.value p step.parentKey)) :
    ∃ t, attachAll step lifetime [] parents σ = (.ok (), { σ with store := t }) ∧
      ∀ p, p ∈ parents ∧ p < σ.store.records.size ∨
          σ.store.Shows p step.node.slot (nothing step) lifetime →
        t.Shows p step.node.slot (nothing step) lifetime := by
  induction parents generalizing σ with
  | nil => exact ⟨σ.store, rfl, fun p hp => hp.elim (fun h => nomatch h.1) id⟩
  | cons p rest ih =>
    obtain ⟨key, hread⟩ := idle_readKey (hidle p (hparents p (List.mem_cons_self ..)))
    have hkey := keyOf_apply p step.parentKey σ
    rw [hread] at hkey
    have hmine : membersOf [] key = [] := by cases key <;> rfl
    rw [attachAll_cons hkey, hmine, supplied_nothing]
    have hleft := (Store.looks_readKey (K := fun _ => True) σ.store p step.parentKey trivial
      (fun _ _ => trivial) _ (.refl _ _)).2.alike
    dsimp only
    generalize (σ.store.readKey p step.parentKey).2 = t₁ at hleft ⊢
    -- a key that is read from the slot itself is idle too, once nothing was attached to it
    have hidle' : ∀ q ∈ all, Idle ((t₁.attach p step.node.slot (nothing step) lifetime true).value q
        step.parentKey) := by
      intro q hq
      rw [Store.value_attach]
      split
      · exact idle_shown step lifetime t₁.now t₁.now
      · rw [hleft.value trivial]
        exact hidle q hq
    obtain ⟨t, hrun, ht⟩ := ih
      (σ := { σ with store := t₁.attach p step.node.slot (nothing step) lifetime true })
      (fun q hq => hparents q (List.mem_cons_of_mem _ hq)) hidle'
    refine ⟨t, hrun, ?_⟩
    intro q hq
    refine ht q ?_
    have hsize : (t₁.attach p step.node.slot (nothing step) lifetime true).records.size =
        σ.store.records.size := (Store.size_change ..).trans hleft.size
    rw [hsize]
    obtain ⟨hq, hthere⟩ | hshows := hq
    · obtain rfl | hq := List.mem_cons.1 hq
      · exact .inr (shows_nothing hleft (.inl ⟨rfl, hthere⟩))
      · exact .inl ⟨hq, hthere⟩
    · exact .inr (shows_nothing hleft (.inr hshows))

/-- Without a key among the parents nothing is refused, and the slot of each parent shows nothing.
-/
theorem attach_nothing (hidle : ∀ p ∈ parents, Idle (σ.store.value p step.parentKey)) :
    ∃ t, attach step parents [] σ = (.ok (), { σ with store := t }) ∧
      ∀ p ∈ parents, p < σ.store.records.size →
        t.Shows p step.node.slot (nothing step) (step.relation.lifetime.or σ.relationLifetime) := by
  obtain ⟨t, hrun, hshows⟩ := attachAll_nothing (step.relation.lifetime.or σ.relationLifetime)
    (fun _ hp => hp) hidle
  refine ⟨t, ?_, fun p hp hthere => hshows p (.inl ⟨hp, hthere⟩)⟩
  have hgroups : groupChildren step.childKey [] [] σ = (.ok [], σ) := rfl
  rw [attach, Run.bind_ok (lifetimeOf_apply step σ), Run.bind_ok hgroups, hrun]

/-! ## Refused keys -/

theorem attachAll_refused {groups : List (String × List Nat)} {e : Error} {τ : Session}
    (h : attachAll step lifetime groups parents σ = (.error e, τ)) :
    ∃ p ∈ parents, ∃ u : Store, (u.readKey p step.parentKey).1 = .error e := by
  induction parents generalizing σ with
  | nil => cases h
  | cons p rest ih =>
    have hkey := keyOf_apply p step.parentKey σ
    cases hread : (σ.store.readKey p step.parentKey).1 with
    | error e' =>
      rw [hread] at hkey
      rw [attachAll, Run.bind_error hkey] at h
      cases h
      exact ⟨p, List.mem_cons_self .., σ.store, hread⟩
    | ok read =>
      rw [hread] at hkey
      rw [attachAll_cons hkey] at h
      obtain ⟨q, hq, he⟩ := ih h
      exact ⟨q, List.mem_cons_of_mem _ hq, he⟩

/-- Attaching fails only where a key is refused. -/
theorem attach_refused {e : Error} {τ : Session}
    (h : attach step parents children σ = (.error e, τ)) :
    (∃ c ∈ children, (σ.store.readKey c step.childKey).1 = .error e) ∨
      ∃ p ∈ parents, ∃ u : Store, (u.readKey p step.parentKey).1 = .error e := by
  rw [attach, Run.bind_ok (lifetimeOf_apply step σ)] at h
  obtain ⟨t, _, ⟨_, hgroups⟩ | ⟨e', hrefused, hgroups⟩⟩ :=
    groupChildren_spec step.childKey children (Store.Agree.refl _ σ.store) []
  · rw [Run.bind_ok hgroups] at h
    exact .inr (attachAll_refused h)
  · rw [Run.bind_error hgroups] at h
    cases h
    exact .inl hrefused

end Loader
end PolyQuery
