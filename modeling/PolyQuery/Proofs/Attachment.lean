import PolyQuery.Proofs.Action
import PolyQuery.Proofs.Slots
import PolyQuery.Relation.Loader

/-! Attaching children to parents. The keys are those that the store holds before anything is
attached, as long as no key holds a record to which something is attached: `attach_sorts`. -/
namespace PolyQuery

namespace Loader
variable {σ : Session} {s : Store} {K : Nat → Prop}

theorem keyOf_apply (id : Nat) (property : String) (σ : Session) : keyOf id property σ =
    ((σ.store.readKey id property).1, { σ with store := (σ.store.readKey id property).2 }) := by
  rw [keyOf, Run.bind_ok (Run.onStore_apply _ σ), Run.bind_apply, Run.onStoreOrFail_apply]
  unfold Store.readKey
  dsimp only
  rcases matchKey (σ.store.read id property).1 (σ.store.read id property).2 with ⟨_ | _, _⟩ <;> rfl

/-- In a store that is the same to every reader, the same key is read. -/
theorem keyOf_alike (halike : s.Alike σ.store) (id : Nat) (property : String) :
    ∃ t, s.Alike t ∧ keyOf id property σ = ((s.readKey id property).1, { σ with store := t }) := by
  obtain ⟨hfound, hleft⟩ := Store.looks_readKey (K := fun _ => True) s id property trivial
    (fun _ _ => trivial) _ halike
  refine ⟨_, halike.trans hleft.alike, ?_⟩
  rw [keyOf_apply, hfound]

/-- A loop over records that reads the key of each, and goes on with what the key says: a record
whose key is refused stops it, and nothing else does. -/
theorem keyLoop_spec {β : Type} {property : String} {loop : β → List Nat → Run β}
    (next : β → Nat → Value → Option String → β) (hnil : ∀ found, loop found [] = pure found)
    (hcons : ∀ found id rest, loop found (id :: rest) =
      keyOf id property >>= fun read => loop (next found id read.1 read.2) rest)
    (ids : List Nat) (halike : s.Alike σ.store) (found : β) :
    ∃ t, s.Alike t ∧
      ((∀ id ∈ ids, s.hasKey id property = true) ∧ loop found ids σ =
          (.ok (ids.foldl (fun found id =>
            next found id (s.value id property) (s.key? id property)) found),
            { σ with store := t }) ∨
        ∃ e, (∃ id ∈ ids, (s.readKey id property).1 = .error e) ∧
          loop found ids σ = (.error e, { σ with store := t })) := by
  induction ids generalizing σ found with
  | nil => exact ⟨σ.store, halike, .inl ⟨fun _ h => (nomatch h), by rw [hnil]; rfl⟩⟩
  | cons id rest ih =>
    -- reading a key leaves a store that is the same to every reader, so the next keys are the same
    obtain ⟨t, ht, hkey⟩ := keyOf_alike halike id property
    cases hread : (s.readKey id property).1 with
    | error e =>
      rw [hread] at hkey
      refine ⟨t, ht, .inr ⟨e, ⟨id, List.mem_cons_self .., hread⟩, ?_⟩⟩
      rw [hcons, Run.bind_error hkey]
    | ok read =>
      have hid : s.hasKey id property = true := by
        rw [Store.hasKey, hread]
        rfl
      rw [Store.readKey_ok hid] at hkey
      obtain ⟨u, hu, hrest⟩ := ih (σ := { σ with store := t }) ht
        (next found id (s.value id property) (s.key? id property))
      refine ⟨u, hu, ?_⟩
      rw [hcons, Run.bind_ok hkey, List.foldl_cons]
      obtain ⟨hkeys, hrun⟩ | ⟨e, ⟨other, hother, he⟩, hrun⟩ := hrest
      · exact .inl ⟨List.forall_mem_cons.2 ⟨hid, hkeys⟩, hrun⟩
      · exact .inr ⟨e, ⟨other, List.mem_cons_of_mem _ hother, he⟩, hrun⟩

/-! ## Groups -/

theorem lookup_addToGroup (groups : List (String × List Nat)) (key k : String) (child : Nat) :
    ((addToGroup groups key child).lookup k).getD [] =
      (groups.lookup k).getD [] ++ if k = key then [child] else [] := by
  induction groups with
  | nil =>
    rw [addToGroup, Record.lookup_cons_eq]
    split <;> rfl
  | cons group rest ih =>
    obtain ⟨other, members⟩ := group
    rw [addToGroup]
    by_cases hother : other = key
    · rw [if_pos hother, Record.lookup_cons_eq, Record.lookup_cons_eq, hother]
      by_cases hk : k = key
      · rw [if_pos hk, if_pos hk, if_pos hk]
        rfl
      · rw [if_neg hk, if_neg hk, if_neg hk, List.append_nil]
    · rw [if_neg hother, Record.lookup_cons_eq, Record.lookup_cons_eq]
      by_cases hk : k = other
      · rw [if_pos hk, if_pos hk, if_neg fun h => hother (hk.symm.trans h)]
        exact (List.append_nil members).symm
      · rw [if_neg hk, if_neg hk, ih]

/-- The groups with one more child, if it has a key. -/
def withChild (s : Store) (property : String) (groups : List (String × List Nat)) (child : Nat) :
    List (String × List Nat) :=
  match s.key? child property with
  | some key => addToGroup groups key child
  | none => groups

/-- The group of a key holds the children with this key, in their order. -/
theorem lookup_withChild (s : Store) (property : String) (groups : List (String × List Nat))
    (children : List Nat) (key : String) :
    ((children.foldl (withChild s property) groups).lookup key).getD [] =
      (groups.lookup key).getD [] ++ children.filter fun c => s.key? c property = some key := by
  induction children generalizing groups with
  | nil => exact (List.append_nil _).symm
  | cons child rest ih =>
    rw [List.foldl_cons, ih, List.filter_cons]
    unfold withChild
    cases hchild : s.key? child property with
    | none => rw [if_neg (by simp)]
    | some k =>
      dsimp only
      rw [lookup_addToGroup, List.append_assoc]
      by_cases hk : key = k
      · rw [if_pos hk, if_pos (by simp [hk])]
        rfl
      · rw [if_neg hk, if_neg (by simp [Ne.symm hk])]
        rfl

/-- A child whose key is refused stops the grouping, and nothing else does. -/
theorem groupChildren_spec (property : String) (children : List Nat) (halike : s.Alike σ.store)
    (groups : List (String × List Nat)) :
    ∃ t, s.Alike t ∧
      ((∀ c ∈ children, s.hasKey c property = true) ∧ groupChildren property groups children σ =
          (.ok (children.foldl (withChild s property) groups), { σ with store := t }) ∨
        ∃ e, (∃ c ∈ children, (s.readKey c property).1 = .error e) ∧
          groupChildren property groups children σ = (.error e, { σ with store := t })) :=
  keyLoop_spec
    (fun groups child _ key =>
      match key with
      | some k => addToGroup groups k child
      | none => groups)
    (fun _ => rfl) (fun _ _ _ => rfl) children halike groups

end Loader

/-! ## Parents -/

namespace Loader
variable {σ σ' : Session} {s : Store} {K : Nat → Prop} {step : LoadStep} {lifetime : Option Number}
  {parent : Nat} {parents children : List Nat} {groups : List (String × List Nat)}

/-- The store after a parent got its children, and they their parent. -/
def supplied (step : LoadStep) (lifetime : Option Number) (parent : Nat) (children : List Nat)
    (s : Store) : Store :=
  let t := s.attach parent step.node.slot (slotValue step.relation.isToMany children) lifetime true
  match step.relation.inverseSlot with
  | some slot => Store.attachEach children slot (.record parent) lifetime false t
  | none => t

/-- The members of the group of a key. -/
def membersOf (groups : List (String × List Nat)) (key : Option String) : List Nat :=
  (key.bind fun k => groups.lookup k).getD []

theorem attachAll_cons {v : Value} {key : Option String}
    (h : keyOf parent step.parentKey σ = (.ok (v, key), σ')) :
    attachAll step lifetime groups (parent :: parents) σ =
      attachAll step lifetime groups parents
        { σ' with store := supplied step lifetime parent (membersOf groups key) σ'.store } := by
  rw [attachAll, Run.bind_ok h]
  dsimp only
  rw [Run.bind_ok (Run.onStore_apply _ _)]
  unfold supplied attachInverse membersOf
  cases step.relation.inverseSlot with
  | none => rfl
  | some slot =>
    dsimp only
    rw [Run.bind_ok (Run.onStore_apply _ _)]
    rfl

/-- Where all parents got their children the key of the first one was told. -/
theorem attachAll_cons_ok (h : attachAll step lifetime groups (parent :: parents) σ = (.ok (), σ')) :
    ∃ v key, (σ.store.readKey parent step.parentKey).1 = .ok (v, key) ∧
      attachAll step lifetime groups parents { σ with
        store := supplied step lifetime parent (membersOf groups key)
          (σ.store.readKey parent step.parentKey).2 } = (.ok (), σ') := by
  have hkey := keyOf_apply parent step.parentKey σ
  cases hread : (σ.store.readKey parent step.parentKey).1 with
  | error e =>
    rw [hread] at hkey
    rw [attachAll, Run.bind_error hkey] at h
    cases h
  | ok read =>
    rw [hread] at hkey
    rw [attachAll_cons hkey] at h
    exact ⟨read.1, read.2, rfl, h⟩

/-- The lifetime of a step is its own, or that of the session. -/
theorem lifetimeOf_apply (step : LoadStep) (σ : Session) :
    lifetimeOf step σ = (.ok (step.relation.lifetime.or σ.relationLifetime), σ) := rfl

/-- A child whose key is refused ends it before anything is attached. The group of a key has the
children with this key. -/
theorem attach_grouped {r : Except Error Unit} (h : attach step parents children σ = (r, σ')) :
    r ≠ .ok () ∧ σ.store.Alike σ'.store ∨
    (∀ c ∈ children, σ.store.hasKey c step.childKey = true) ∧ ∃ t groups, σ.store.Alike t ∧
      (∀ k, (groups.lookup k).getD [] =
        children.filter fun c => σ.store.key? c step.childKey = some k) ∧
      attachAll step (step.relation.lifetime.or σ.relationLifetime) groups parents
        { σ with store := t } = (r, σ') := by
  rw [attach, Run.bind_ok (lifetimeOf_apply step σ)] at h
  obtain ⟨t, halike, ⟨hkeys, hgroups⟩ | ⟨e, -, hgroups⟩⟩ :=
    groupChildren_spec step.childKey children (Store.Agree.refl _ σ.store) []
  · rw [Run.bind_ok hgroups] at h
    exact .inr ⟨hkeys, t, _, halike, lookup_withChild σ.store step.childKey [] children, h⟩
  · rw [Run.bind_error hgroups] at h
    cases h
    refine .inl ⟨fun hok => ?_, halike⟩
    cases hok

theorem mem_of_grouped (hgroups : ∀ k, (groups.lookup k).getD [] =
      children.filter fun c => s.key? c step.childKey = some k) :
    ∀ k, ∀ c ∈ (groups.lookup k).getD [], c ∈ children := by
  intro k c hc
  rw [hgroups] at hc
  exact (List.mem_filter.1 hc).1

/-- Where children were attached their keys were told, and then each parent got its own. -/
theorem attach_ok (h : attach step parents children σ = (.ok (), σ')) :
    (∀ c ∈ children, σ.store.hasKey c step.childKey = true) ∧ ∃ t groups, σ.store.Alike t ∧
      (∀ k, ∀ c ∈ (groups.lookup k).getD [], c ∈ children) ∧
      attachAll step (step.relation.lifetime.or σ.relationLifetime) groups parents
        { σ with store := t } = (.ok (), σ') := by
  obtain ⟨hkeys, t, groups, halike, hgroups, hall⟩ :=
    (attach_grouped h).resolve_left fun hfailed => hfailed.1 rfl
  exact ⟨hkeys, t, groups, halike, mem_of_grouped hgroups, hall⟩

/-- Something is attached to the parents, and to the children if they point back at them. -/
def Touched (step : LoadStep) (parents children : List Nat) (id : Nat) : Prop :=
  id ∈ parents ∨ step.relation.inverseSlot ≠ none ∧ id ∈ children

theorem Touched.mono {parents' children' : List Nat} {id : Nat}
    (h : Touched step parents children id) (hparents : parents ⊆ parents')
    (hchildren : children ⊆ children') : Touched step parents' children' id :=
  h.imp (fun hid => hparents hid) fun hid => ⟨hid.1, hchildren hid.2⟩

theorem agree_supplied (step : LoadStep) (lifetime : Option Number) (parent : Nat)
    (children : List Nat) (s : Store) :
    s.Agree (fun id => ¬ Touched step [parent] children id)
      (supplied step lifetime parent children s) := by
  unfold supplied
  have hfirst := s.agree_attach (K := fun id => ¬ Touched step [parent] children id)
    step.node.slot (slotValue step.relation.isToMany children) lifetime true
    (fun h => h (.inl (List.mem_singleton_self parent)))
  cases hinverse : step.relation.inverseSlot with
  | none => exact hfirst
  | some slot =>
    have hpointing : step.relation.inverseSlot ≠ none := by simp [hinverse]
    exact hfirst.trans (Store.agree_attachEach fun c hc h => h (.inr ⟨hpointing, hc⟩))

theorem record_supplied {id : Nat} (h : ¬ Touched step [parent] children id) :
    (supplied step lifetime parent children s).record id = s.record id := by
  have hne : ¬ (id = parent ∧ parent < s.records.size) :=
    fun heq => h (.inl (List.mem_singleton.2 heq.1))
  have hfirst : (s.attach parent step.node.slot (slotValue step.relation.isToMany children) lifetime
      true).record id = s.record id := by
    rw [Store.attach, Store.record_change, if_neg hne]
  unfold supplied
  cases hinverse : step.relation.inverseSlot with
  | none => exact hfirst
  | some slot =>
    have hpointing : step.relation.inverseSlot ≠ none := by simp [hinverse]
    exact (Store.record_attachEach fun hid => h (.inr ⟨hpointing, hid⟩)).trans hfirst

/-- A parent that is no child itself is the record that it was, with its children attached. -/
theorem record_supplied_parent (hthere : parent < s.records.size) (hapart : parent ∉ children) :
    (supplied step lifetime parent children s).record parent = (s.record parent).attach s.now
      step.node.slot (slotValue step.relation.isToMany children) lifetime true := by
  have hfirst := Store.record_attach step.node.slot (slotValue step.relation.isToMany children)
    lifetime true hthere
  unfold supplied
  cases step.relation.inverseSlot with
  | none => exact hfirst
  | some slot => exact (Store.record_attachEach hapart).trans hfirst

theorem membersOf_subset (h : ∀ k, ∀ c ∈ (groups.lookup k).getD [], c ∈ children)
    (key : Option String) : membersOf groups key ⊆ children := by
  intro c hc
  cases key with
  | none => cases hc
  | some k => exact h k c hc

/-- What must be known of the store in order to tell the keys of parents: the parents, and the
records that their keys hold. -/
def Seen (s : Store) (property : String) (parents : List Nat) (id : Nat) : Prop :=
  ∃ p ∈ parents, id = p ∨ s.Holds (s.value p property) id

theorem Seen.cons {property : String} {id : Nat} (h : Seen s property parents id) (p : Nat) :
    Seen s property (p :: parents) id := by
  obtain ⟨q, hq, hid⟩ := h
  exact ⟨q, List.mem_cons_of_mem _ hq, hid⟩

/-- What is attached to one parent does not reach what must be known of the others. -/
theorem Seen.not_touched {mine : List Nat} {id : Nat}
    (h : Seen s step.parentKey parents id) (hfresh : parent ∉ parents) (hmine : mine ⊆ children)
    (hapart : ∀ p ∈ parents, p ∉ children)
    (hheld : ∀ p ∈ parents, ∀ id, s.Holds (s.value p step.parentKey) id →
      ¬ Touched step (parent :: parents) children id) :
    ¬ Touched step [parent] mine id := by
  have hparent : [parent] ⊆ parent :: parents := List.cons_subset_cons _ (List.nil_subset _)
  obtain ⟨q, hq, rfl | hid⟩ := h
  · rintro (hid | ⟨_, hid⟩)
    · exact hfresh (List.mem_singleton.1 hid ▸ hq)
    · exact hapart id hq (hmine hid)
  · exact fun htouched => hheld q hq id hid (htouched.mono hparent hmine)

/-- So the keys of the others are told as at first. -/
theorem agree_later {t : Store} {mine : List Nat}
    (hagree : s.Agree (Seen s step.parentKey (parent :: parents)) t) (hfresh : parent ∉ parents)
    (hmine : mine ⊆ children) (hapart : ∀ p ∈ parents, p ∉ children)
    (hheld : ∀ p ∈ parents, ∀ id, s.Holds (s.value p step.parentKey) id →
      ¬ Touched step (parent :: parents) children id) :
    s.Agree (Seen s step.parentKey parents) (supplied step lifetime parent mine t) :=
  (hagree.mono fun _ hid => hid.cons parent).trans ((agree_supplied ..).mono fun _ hid =>
    hid.not_touched hfresh hmine hapart hheld)

/-- Parent by parent, each gets the children of the key that it had at first, and what is not
touched stays. -/
theorem attachAll_spec (lifetime : Option Number)
    (hagree : s.Agree (Seen s step.parentKey parents) σ.store)
    (hdistinct : parents.Nodup) (hthere : ∀ p ∈ parents, p < s.records.size)
    (hkeys : ∀ p ∈ parents, s.hasKey p step.parentKey = true)
    (hapart : ∀ p ∈ parents, p ∉ children)
    (hheld : ∀ p ∈ parents, ∀ id, s.Holds (s.value p step.parentKey) id →
      ¬ Touched step parents children id)
    (hmembers : ∀ k, ∀ c ∈ (groups.lookup k).getD [], c ∈ children) :
    ∃ t, attachAll step lifetime groups parents σ = (.ok (), { σ with store := t }) ∧
      σ.store.Agree (fun id => ¬ Touched step parents children id) t ∧
      (∀ id, ¬ Touched step parents children id → ¬ Seen s step.parentKey parents id →
        t.record id = σ.store.record id) ∧
      ∀ p ∈ parents, ∃ r, (s.record p).Alike s.now r ∧ t.record p = r.attach s.now step.node.slot
        (slotValue step.relation.isToMany (membersOf groups (s.key? p step.parentKey))) lifetime
        true := by
  induction parents generalizing σ with
  | nil => exact ⟨σ.store, rfl, .refl _ _, fun _ _ _ => rfl, fun _ h => nomatch h⟩
  | cons p rest ih =>
    have hp : p ∈ p :: rest := List.mem_cons_self ..
    have hlater : rest ⊆ p :: rest := List.subset_cons_self p rest
    obtain ⟨hfresh, hdistinct'⟩ := List.nodup_cons.1 hdistinct
    -- the key is read as it was at first
    obtain ⟨hfound, hleft⟩ := Store.looks_readKey (K := Seen s step.parentKey (p :: rest)) s p
      step.parentKey ⟨p, hp, .inl rfl⟩ (fun id hid => ⟨p, hp, .inr hid⟩) _ hagree
    rw [Store.readKey_ok (hkeys p hp)] at hfound
    have hkey := keyOf_apply p step.parentKey σ
    rw [hfound] at hkey
    rw [attachAll_cons hkey]
    dsimp only
    have hmine := membersOf_subset hmembers (s.key? p step.parentKey)
    generalize hmembers_eq : membersOf groups (s.key? p step.parentKey) = mine at hmine ⊢
    generalize (σ.store.readKey p step.parentKey).2 = t₁ at hleft ⊢
    have hagree₁ := hagree.trans (hleft.alike.agree _)
    -- what is attached to this parent is touched, and does not reach the keys of the others
    have hfirst {id : Nat} (h : ¬ Touched step (p :: rest) children id) :
        ¬ Touched step [p] mine id :=
      fun htouched => h (htouched.mono (List.cons_subset_cons _ (List.nil_subset _)) hmine)
    have hrest {id : Nat} (h : ¬ Touched step (p :: rest) children id) :
        ¬ Touched step rest children id :=
      fun htouched => h (htouched.mono hlater fun _ hc => hc)
    have hseen {id : Nat} (h : Seen s step.parentKey rest id) : ¬ Touched step [p] mine id :=
      h.not_touched hfresh hmine (fun q hq => hapart q (hlater hq))
        fun q hq => hheld q (hlater hq)
    have hsupplied := agree_supplied step lifetime p mine t₁
    have hagree₂ : s.Agree (Seen s step.parentKey rest) (supplied step lifetime p mine t₁) :=
      agree_later hagree₁ hfresh hmine (fun q hq => hapart q (hlater hq)) fun q hq => hheld q (hlater hq)
    obtain ⟨t, hrun, hagree₃, hbeyond, hrecords⟩ :=
      ih (σ := { σ with store := supplied step lifetime p mine t₁ }) hagree₂ hdistinct'
        (fun q hq => hthere q (hlater hq)) (fun q hq => hkeys q (hlater hq))
        (fun q hq => hapart q (hlater hq))
        (fun q hq id hid => hrest (hheld q (hlater hq) id hid))
    refine ⟨t, hrun, ?_, ?_, ?_⟩
    · have hbefore := (hleft.alike.agree _).trans (hsupplied.mono fun _ => hfirst)
      exact hbefore.trans (hagree₃.mono fun _ => hrest)
    · intro id htouched hid
      calc t.record id = (supplied step lifetime p mine t₁).record id :=
            hbeyond id (hrest htouched) fun h => hid (h.cons p)
        _ = t₁.record id := record_supplied (hfirst htouched)
        _ = σ.store.record id := hleft.beyond id hid
    · intro q hq
      obtain rfl | hq := List.mem_cons.1 hq
      · -- nothing is attached to this parent again, as it is neither a later one nor a child
        have hkept : ¬ Touched step rest children q := by
          rintro (hq' | ⟨_, hq'⟩)
          · exact hfresh hq'
          · exact hapart q hp hq'
        have hself : Touched step [q] mine q := .inl (List.mem_singleton_self q)
        have hthere₁ : q < t₁.records.size := by
          rw [hagree₁.size]
          exact hthere q hp
        refine ⟨t₁.record q, hagree₁.record q ⟨q, hp, .inl rfl⟩, ?_⟩
        rw [hbeyond q hkept fun h => hseen h hself, hmembers_eq]
        show (supplied step lifetime q mine t₁).record q = _
        rw [record_supplied_parent hthere₁ fun h => hapart q hp (hmine h), hagree₁.now]
      · exact hrecords q hq

end Loader

/-! ## What belongs to whom -/

namespace LoadStep
variable {step : LoadStep} {s : Store} {parent child : Nat} {children : List Nat}

/-- Whether a parent and a child have the same match key. -/
def pairs (step : LoadStep) (s : Store) (parent child : Nat) : Bool :=
  match s.key? child step.childKey with
  | some key => s.key? parent step.parentKey == some key
  | none => false

theorem pairs_eq_true {key : String} (h : s.key? child step.childKey = some key) :
    step.pairs s parent child = true ↔ s.key? parent step.parentKey = some key := by
  unfold pairs
  rw [h]
  exact beq_iff_eq

theorem pairs_iff : step.pairs s parent child = true ↔
    ∃ key, s.key? child step.childKey = some key ∧ s.key? parent step.parentKey = some key := by
  cases hkey : s.key? child step.childKey with
  | none =>
    unfold pairs
    rw [hkey]
    simp
  | some key => simp [pairs_eq_true hkey]

/-- The value that belongs into the slot of a parent: the children with the parent's key in their
order, or the first of them. -/
structure Belongs (step : LoadStep) (s : Store) (children : List Nat) (parent : Nat) (v : Value) :
    Prop where
  many : step.relation.isToMany = true →
    v = .array ((children.filter (step.pairs s parent)).map .record)
  one : step.relation.isToMany = false →
    v = ((children.find? (step.pairs s parent)).map Value.record).getD .null
  keyless : s.key? parent step.parentKey = none →
    v = if step.relation.isToMany then .array [] else .null
  orphans : ∀ c ∈ children, s.key? c step.childKey = none → c ∉ v.inside
  members : step.relation.isToMany = true → ∀ c ∈ children, ∀ key,
    s.key? c step.childKey = some key →
      (c ∈ v.inside ↔ s.key? parent step.parentKey = some key)

theorem inside_slotValue (many : Bool) (mine : List Nat) :
    (Loader.slotValue many mine).inside = if many then mine else mine.head?.toList := by
  cases many with
  | true =>
    show Value.insideItems (mine.map Value.record) = mine
    induction mine with
    | nil => rfl
    | cons c rest ih => exact congrArg (c :: ·) ih
  | false => cases mine <;> rfl

theorem mem_of_slotValue {many : Bool} {mine : List Nat} {c : Nat}
    (h : c ∈ (Loader.slotValue many mine).inside) : c ∈ mine := by
  rw [inside_slotValue] at h
  split at h
  · exact h
  · exact List.mem_of_mem_head? (Option.mem_toList.1 h)

/-- The slot value of the paired children belongs to their parent. -/
theorem belongs_slotValue : step.Belongs s children parent
    (Loader.slotValue step.relation.isToMany (children.filter (step.pairs s parent))) := by
  refine ⟨?_, ?_, ?_, ?_, ?_⟩
  -- the value is the list of the children that pair with the parent, or the first of them
  · intro hmany
    rw [hmany]
    rfl
  · intro hone
    rw [hone, ← List.head?_filter]
    rfl
  · intro hkeyless
    have hnone : children.filter (step.pairs s parent) = [] := by
      rw [List.filter_eq_nil_iff]
      intro c _ hpairs
      obtain ⟨key, -, hparent⟩ := pairs_iff.1 hpairs
      rw [hkeyless] at hparent
      cases hparent
    rw [hnone]
    cases step.relation.isToMany <;> rfl
  · intro c _ horphan hmem
    obtain ⟨key, hchild, -⟩ := pairs_iff.1 (List.mem_filter.1 (mem_of_slotValue hmem)).2
    rw [horphan] at hchild
    cases hchild
  · intro hmany c hc key hkey
    rw [inside_slotValue, if_pos hmany, List.mem_filter, pairs_eq_true hkey]
    exact ⟨fun h => h.2, fun h => ⟨hc, h⟩⟩

end LoadStep

namespace Loader
variable {step : LoadStep} {parents children : List Nat} {σ : Session} {s : Store}
  {groups : List (String × List Nat)}

/-- The members of the key of a parent are the children that have it too. -/
theorem membersOf_eq_filter (hgroups : ∀ k, (groups.lookup k).getD [] =
      children.filter fun c => s.key? c step.childKey = some k) (p : Nat) :
    membersOf groups (s.key? p step.parentKey) = children.filter (step.pairs s p) := by
  cases hkey : s.key? p step.parentKey with
  | none =>
    refine (List.filter_eq_nil_iff.2 ?_).symm
    intro c _ hpairs
    obtain ⟨key, -, hparent⟩ := LoadStep.pairs_iff.1 hpairs
    rw [hkey] at hparent
    cases hparent
  | some key =>
    refine (hgroups key).trans (List.filter_congr ?_)
    intro c _
    rw [Bool.eq_iff_iff, decide_eq_true_iff, LoadStep.pairs_iff, hkey]
    simp

/-- Attaching gives every parent what belongs to it, and changes nothing else: no slot but that of
the relation, and, unless children point back at their parents, no other record. The parents are
distinct and none of them is a child, and no key holds a record to which something is attached. -/
theorem attach_sorts (hdistinct : parents.Nodup)
    (hthere : ∀ p ∈ parents, p < σ.store.records.size) (hapart : ∀ p ∈ parents, p ∉ children)
    (hparents : ∀ p ∈ parents, σ.store.hasKey p step.parentKey = true)
    (hchildren : ∀ c ∈ children, σ.store.hasKey c step.childKey = true)
    (hheld : ∀ p ∈ parents, ∀ id, σ.store.Holds (σ.store.value p step.parentKey) id →
      ¬ Touched step parents children id) :
    ∃ t, attach step parents children σ = (.ok (), { σ with store := t }) ∧
      σ.store.Agree (fun id => ¬ Touched step parents children id) t ∧
      ∀ p ∈ parents, (∃ v, step.Belongs σ.store children p v ∧
          t.Keeps p step.node.slot v (step.relation.lifetime.or σ.relationLifetime)) ∧
        ∀ property, property ≠ step.node.slot → t.value p property = σ.store.value p property := by
  obtain ⟨t₁, halike, ⟨_, hgroups⟩ | ⟨e, ⟨c, hc, he⟩, _⟩⟩ :=
    groupChildren_spec step.childKey children (Store.Agree.refl _ σ.store) []
  -- no key is refused, so the children are grouped
  rotate_left
  · have hchild := hchildren c hc
    rw [Store.hasKey, he] at hchild
    cases hchild
  have hlookup := lookup_withChild σ.store step.childKey [] children
  generalize children.foldl (withChild σ.store step.childKey) [] = groups at hgroups hlookup
  obtain ⟨t, hrun, hagree, _, hrecords⟩ := attachAll_spec (σ := { σ with store := t₁ })
    (step.relation.lifetime.or σ.relationLifetime) (halike.agree _) hdistinct hthere
    hparents hapart hheld (mem_of_grouped hlookup)
  have hagree' := (halike.agree _).trans hagree
  refine ⟨t, ?_, hagree', ?_⟩
  · rw [attach, Run.bind_ok (lifetimeOf_apply step σ), Run.bind_ok hgroups, hrun]
  · intro p hp
    obtain ⟨r, hr, hrecord⟩ := hrecords p hp
    rw [membersOf_eq_filter hlookup] at hrecord
    refine ⟨⟨_, LoadStep.belongs_slotValue, ?_⟩, ?_⟩
    · intro n
      rw [hrecord, hagree'.now, Record.read_attach]
    · intro property hproperty
      show ((t.record p).read t.now property).1 = _
      rw [hrecord, hagree'.now, Record.read_attach_other hproperty]
      exact hr.read property

/-- The lines of orders, each of which points back at its order. -/
def lineStep : LoadStep where
  node := ⟨"lines", "lines", none, "lines", false, []⟩
  owner := .make "Order" "orders" none none [] [] none
  target := .make "Line" "lines" none none [] [] none
  relation := ⟨"Line", "orderId", .hasMany none, some "order", some (.int 5000)⟩
  children := []

/-- Two orders with one key, an order without a key, and three lines. -/
def orderLines : Session :=
  { Session.fresh with store := { Store.empty with records := #[
      .ofRow [("id", .number (.int 1))], .ofRow [("id", .string "1")], .ofRow [("id", .null)],
      .ofRow [("orderId", .bigint 1)], .ofRow [("orderId", .undefined)],
      .ofRow [("orderId", .number (.int 1))]] } }

theorem attach_sorts_lines :
    (∀ p ∈ [0, 1, 2], ∀ id,
        orderLines.store.Holds (orderLines.store.value p lineStep.parentKey) id →
          ¬ Touched lineStep [0, 1, 2] [3, 4, 5] id) ∧
    ∃ t, attach lineStep [0, 1, 2] [3, 4, 5] orderLines = (.ok (), { orderLines with store := t }) ∧
      t.Keeps 0 "lines" (.array [.record 3, .record 5]) (some (.int 5000)) ∧
      t.Keeps 1 "lines" (.array [.record 3, .record 5]) (some (.int 5000)) ∧
      t.Keeps 2 "lines" (.array []) (some (.int 5000)) := by
  have hplain : ∀ p ∈ [0, 1, 2], (orderLines.store.value p lineStep.parentKey).inside = [] := by
    decide +kernel
  have hheld : ∀ p ∈ [0, 1, 2], ∀ id,
      orderLines.store.Holds (orderLines.store.value p lineStep.parentKey) id →
        ¬ Touched lineStep [0, 1, 2] [3, 4, 5] id :=
    fun p hp id hid => (Store.not_holds (hplain p hp) id hid).elim
  obtain ⟨t, hrun, _, hslots⟩ := @attach_sorts lineStep [0, 1, 2] [3, 4, 5] orderLines (by decide)
    (by decide +kernel) (by decide) (by decide +kernel) (by decide +kernel) hheld
  -- two orders share their lines, and the third has none
  obtain ⟨⟨v₀, hbelongs₀, hkeeps₀⟩, _⟩ := hslots 0 (by decide)
  obtain ⟨⟨v₁, hbelongs₁, hkeeps₁⟩, _⟩ := hslots 1 (by decide)
  obtain ⟨⟨v₂, hbelongs₂, hkeeps₂⟩, _⟩ := hslots 2 (by decide)
  have hlines₀ : [3, 4, 5].filter (lineStep.pairs orderLines.store 0) = [3, 5] := by decide +kernel
  have hlines₁ : [3, 4, 5].filter (lineStep.pairs orderLines.store 1) = [3, 5] := by decide +kernel
  rw [hbelongs₀.many rfl, hlines₀] at hkeeps₀
  rw [hbelongs₁.many rfl, hlines₁] at hkeeps₁
  rw [hbelongs₂.keyless (by decide +kernel)] at hkeeps₂
  exact ⟨hheld, t, hrun, hkeeps₀, hkeeps₁, hkeeps₂⟩

/-- Pages, each of a note that it refers to. -/
def pageStep : LoadStep where
  node := ⟨"page", "page", none, "page", false, []⟩
  owner := .make "Note" "notes" none none [] [] none
  target := .make "Page" "pages" none none [] [] none
  relation := ⟨"Page", "ref", .belongsTo (some "ref"), none, none⟩
  children := []

/-- A note, a second one that refers to the first, and a page of the second. -/
def notes : Session :=
  { Session.fresh with store := { Store.empty with records := #[
      .ofRow [("ref", .null)], .ofRow [("ref", .record 0)],
      .ofRow [("id", .number (.int 7)), ("ref", .object [("ref", .null)])]] } }

/-- A key that holds a parent changes when something is attached to this parent: the second note
is left without its page. -/
theorem referredNote_loses_page :
    (∀ p ∈ [0, 1], p ∉ [2] ∧ notes.store.hasKey p pageStep.parentKey = true) ∧
      notes.store.hasKey 2 pageStep.childKey = true ∧ pageStep.pairs notes.store 1 2 = true ∧
      (attach pageStep [0, 1] [2] notes).1.isOk = true ∧
      ((attach pageStep [0, 1] [2] notes).2.store.value 1 "page").isMissing = true := by
  refine ⟨?_, ?_, ?_, ?_, ?_⟩ <;> decide +kernel

end Loader
end PolyQuery
