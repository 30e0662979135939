import PolyQuery.Adapter.Registry
import PolyQuery.Proofs.History

/-! Histories of registrations. What a registry knows about a pair of a host type and a
representation is what the latest call said about it. A removal of a whole host type also says
something about the host types whose names continue its name behind a colon, since the two parts of
a pair make one key: `Registry.covers_iff_key`. Apart from that the latest call that names the pair
decides: `Registry.get?_latest`. -/
namespace PolyQuery

/-- A call that changes a registry: an adapter is registered, or a host type is removed, as a whole
or in one representation. -/
inductive Registration where
  | registered (a : Adapter)
  | removed (hostType : String) (representation : Option Representation)

namespace Registration
variable {c : Registration} {history before after : List Registration} {hostType : String}
  {representation : Representation} {told : Registration → Option (Option Adapter)}

/-- What a call that names a pair says about it: the adapter that it registers for the pair, or that
there is none. -/
def names (hostType : String) (representation : Representation) :
    Registration → Option (Option Adapter)
  | .registered a =>
    if a.hostType = hostType ∧ representation ∈ a.representations then some (some a) else none
  | .removed h none => if h = hostType then some none else none
  | .removed h (some rep) => if h = hostType ∧ rep = representation then some none else none

/-- What a call that names a host type says about its preferred adapter. -/
def prefers (hostType : String) : Registration → Option (Option Adapter)
  | .registered a => if a.hostType = hostType then some (some a) else none
  | .removed h none => if h = hostType then some none else none
  | .removed _ (some _) => none

/-- Whether a call removes another host type as a whole, one whose name the host type's name
continues behind a colon. -/
def sweeps (hostType : String) : Registration → Bool
  | .removed outer none => outer != hostType && Registry.covers outer hostType
  | _ => false

/-- What a call says about a pair, whether or not it names it. -/
def tells (hostType : String) (representation : Representation) (c : Registration) :
    Option (Option Adapter) :=
  if c.sweeps hostType = true then some none else c.names hostType representation

/-- What the latest call said that said anything. -/
def latest (told : Registration → Option (Option Adapter)) (history : List Registration) :
    Option Adapter :=
  (history.reverse.findSome? told).getD none

theorem latest_concat (told : Registration → Option (Option Adapter))
    (history : List Registration) (c : Registration) :
    latest told (history ++ [c]) = (told c).getD (latest told history) := by
  unfold latest
  rw [List.reverse_concat, List.findSome?_cons]
  cases told c with
  | none => rfl
  | some x => rfl

/-- A call that sweeps a host type does not name it. -/
theorem names_of_sweeps (h : c.sweeps hostType = true) (representation : Representation) :
    c.names hostType representation = none := by
  rcases c with a | ⟨outer, _ | rep⟩
  · cases h
  · rw [sweeps, Bool.and_eq_true] at h
    exact if_neg (bne_iff_ne.1 h.1)
  · cases h

/-- A pair had an adapter, and since then no call has named the pair, but the removal of another
host type has swept it away. -/
def Swept (hostType : String) (representation : Representation) : List Registration → Prop :=
  Since
    (fun before c =>
      c.sweeps hostType = true ∧ latest (names hostType representation) before ≠ none)
    fun c => c.names hostType representation = none

/-- A pair that was swept away had an adapter by the calls that named it. -/
theorem Swept.latest_ne_none (h : Swept hostType representation history) :
    latest (names hostType representation) history ≠ none := by
  induction history using List.reverseRecOn with
  | nil => exact absurd h not_since_nil
  | append_singleton history c ih =>
    rw [latest_concat]
    rcases since_concat.1 h with ⟨hsweeps, hbefore⟩ | ⟨hnames, hbefore⟩
    · rwa [names_of_sweeps hsweeps, Option.getD_none]
    · rw [hnames, Option.getD_none]
      exact ih hbefore

/-- What was said about a pair is what the calls that named it said, unless it was swept away. -/
theorem latest_tells (hostType : String) (representation : Representation)
    (history : List Registration) :
    (Swept hostType representation history →
      latest (tells hostType representation) history = none) ∧
    (¬ Swept hostType representation history →
      latest (tells hostType representation) history =
        latest (names hostType representation) history) := by
  induction history using List.reverseRecOn with
  | nil => exact ⟨fun h => absurd h not_since_nil, fun _ => rfl⟩
  | append_singleton history c ih =>
    rw [Swept, since_concat, latest_concat, latest_concat, tells]
    by_cases hsweeps : c.sweeps hostType = true
    · -- the last word on the pair is that it is gone, by a call that does not name it
      rw [if_pos hsweeps, names_of_sweeps hsweeps, Option.getD_some, Option.getD_none]
      refine ⟨fun _ => rfl, ?_⟩
      intro hkept
      by_contra hne
      exact hkept (.inl ⟨hsweeps, fun h => hne h.symm⟩)
    · rw [if_neg hsweeps]
      cases hnames : c.names hostType representation with
      | some x =>
        -- what happened before does not count any more
        refine ⟨?_, fun _ => rfl⟩
        rintro (⟨hsweeps', -⟩ | ⟨h, -⟩)
        · exact absurd hsweeps' hsweeps
        · cases h
      | none =>
        rw [Option.getD_none, Option.getD_none]
        constructor
        · rintro (⟨hsweeps', -⟩ | ⟨-, hswept⟩)
          · exact absurd hsweeps' hsweeps
          · exact ih.1 hswept
        · intro hkept
          exact ih.2 fun hswept => hkept (.inr ⟨rfl, hswept⟩)

end Registration

namespace Registry
variable {hostType outer : String} {representation : Representation} {a : Adapter}

/-! ## Keys -/

/-- The key of a pair: its parts joined by a colon. -/
def key (hostType : String) (representation : Representation) : List Char :=
  hostType.toList ++ ':' :: representation.name.toList

theorem colon_not_mem_name (representation : Representation) :
    ':' ∉ representation.name.toList := by
  cases representation <;> decide

/-- The parts of a key around its last colon. -/
theorem takeWhile_key (hostType : String) (representation : Representation) :
    (key hostType representation).reverse.takeWhile (· != ':') =
      representation.name.toList.reverse := by
  have hname : ∀ c ∈ representation.name.toList.reverse, (c != ':') = true := by
    intro c hc
    apply bne_iff_ne.2
    rintro rfl
    exact colon_not_mem_name representation (List.mem_reverse.1 hc)
  rw [key, List.reverse_append, List.reverse_cons, List.append_assoc,
    List.takeWhile_append_of_pos hname, List.singleton_append,
    List.takeWhile_cons_of_neg (by simp), List.append_nil]

theorem ofName?_name (representation : Representation) :
    Representation.ofName? representation.name = some representation := by
  cases representation <;> decide

/-- The word for a representation names the pair with it. -/
theorem pairNamed?_name (hostType : String) (representation : Representation) :
    pairNamed? hostType representation.name = some (hostType, representation) := by
  have hkey : (hostType ++ ":" ++ representation.name).toList = key hostType representation := by
    rw [String.toList_append, String.toList_append, List.append_assoc]
    rfl
  unfold pairNamed?
  dsimp only
  rw [hkey, takeWhile_key, List.reverse_reverse, String.ofList_toList, ofName?_name, key,
    List.reverse_append, List.reverse_cons, List.append_assoc, List.drop_length_add_append,
    List.singleton_append, List.drop_one, List.tail_cons, List.reverse_reverse,
    String.ofList_toList, Option.map_some]

/-- A host type reaches those pairs whose keys begin with its name and a colon. -/
theorem covers_iff_key (outer hostType : String) (representation : Representation) :
    covers outer hostType = true ↔ outer.toList ++ [':'] <+: key hostType representation := by
  have hname := colon_not_mem_name representation
  unfold covers key
  rw [Bool.or_eq_true, beq_iff_eq, List.isPrefixOf_iff_prefix]
  constructor
  · rintro (rfl | ⟨rest, hrest⟩)
    · exact ⟨representation.name.toList, by rw [List.append_assoc]; rfl⟩
    · exact ⟨rest ++ ':' :: representation.name.toList, by rw [← List.append_assoc, hrest]⟩
  · rintro ⟨rest, hrest⟩
    obtain ⟨mid, hhost, -⟩ | ⟨mid, houter, hmid⟩ := List.append_eq_append_iff.1 hrest
    · exact .inr ⟨mid, hhost.symm⟩
    · -- the colon at the end is the one before the representation, which holds none
      cases mid with
      | nil =>
        rw [List.append_nil] at houter
        exact .inr ⟨[], by rw [List.append_nil, houter]⟩
      | cons c mid =>
        obtain ⟨rfl, hrep⟩ := List.cons.inj hmid
        rcases List.eq_nil_or_concat mid with rfl | ⟨mid, last, rfl⟩
        · exact .inl (String.toList_inj.1 (List.append_inj_left' houter rfl)).symm
        · rw [List.concat_eq_append, ← List.cons_append, ← List.append_assoc] at houter
          obtain rfl : ':' = last := List.head_eq_of_cons_eq (List.append_inj_right' houter rfl)
          rw [hrep] at hname
          simp at hname

/-! ## What calls change -/

theorem lookup_set {κ α : Type} [DecidableEq κ] [BEq κ] [LawfulBEq κ] (entries : List (κ × α))
    (key other : κ) (x : α) :
    (set key x entries).lookup other = if other = key then some x else entries.lookup other := by
  induction entries with
  | nil =>
    rw [set, List.lookup_cons, List.lookup_nil]
    by_cases ho : other = key
    · rw [if_pos ho, beq_iff_eq.2 ho]
    · rw [if_neg ho, beq_false_of_ne ho]
  | cons e rest ih =>
    obtain ⟨k, y⟩ := e
    rw [set]
    -- an entry that is there is replaced where it stands, and the ones before it stay in front
    by_cases hk : k = key
    · rw [if_pos hk, List.lookup_cons, List.lookup_cons, hk]
      by_cases ho : other = key
      · rw [if_pos ho, beq_iff_eq.2 ho]
      · rw [if_neg ho, beq_false_of_ne ho]
    · rw [if_neg hk, List.lookup_cons, List.lookup_cons, ih]
      by_cases ho : other = k
      · rw [beq_iff_eq.2 ho]
        dsimp only
        rw [if_neg fun h => hk (ho.symm.trans h)]
      · rw [beq_false_of_ne ho]

theorem lookup_filter {κ α : Type} [BEq κ] [LawfulBEq κ] (kept : κ → Bool) (entries : List (κ × α))
    (other : κ) : (entries.filter fun e => kept e.1).lookup other =
      if kept other = true then entries.lookup other else none := by
  induction entries with
  | nil => split <;> rfl
  | cons e rest ih =>
    obtain ⟨k, y⟩ := e
    rw [List.filter_cons, List.lookup_cons]
    by_cases ho : other = k
    · subst ho
      by_cases hkept : kept other = true
      · rw [if_pos hkept, if_pos hkept, List.lookup_cons, beq_self_eq_true]
      · rw [if_neg hkept, if_neg hkept, ih, if_neg hkept]
    · rw [beq_false_of_ne ho]
      dsimp only
      split
      · rw [List.lookup_cons, beq_false_of_ne ho, ih]
      · exact ih

theorem get?_register (r : Registry) (a : Adapter) (hostType : String)
    (representation : Representation) : (r.register a).get? hostType representation =
      if a.hostType = hostType ∧ representation ∈ a.representations then some a
      else r.get? hostType representation := by
  -- the pairs are set one by one, so the induction is on the representations that are left
  have hfold (reps : List Representation) (entries : List ((String × Representation) × Adapter)) :
      (reps.foldl (fun acc rep => set (a.hostType, rep) a acc) entries).lookup
          (hostType, representation) =
        if a.hostType = hostType ∧ representation ∈ reps then some a
        else entries.lookup (hostType, representation) := by
    induction reps generalizing entries with
    | nil => rw [if_neg fun h => nomatch h.2]; rfl
    | cons rep reps ih =>
      rw [List.foldl_cons, ih, lookup_set]
      grind
  exact hfold a.representations r.pairs

/-- The registry after a call. -/
def apply (r : Registry) : Registration → Registry
  | .registered a => r.register a
  | .removed h rep => r.remove h ((rep.map Representation.name).getD "")

theorem name_ne_empty (representation : Representation) : representation.name ≠ "" := by
  cases representation <;> decide

theorem apply_removed (r : Registry) (hostType : String) (representation : Representation) :
    r.apply (.removed hostType (some representation)) = r.erasePair hostType representation := by
  show r.remove hostType representation.name = _
  rw [remove, if_neg (name_ne_empty _), pairNamed?_name]

theorem get?_erase (r : Registry) (outer hostType : String) (representation : Representation) :
    (r.erase outer).get? hostType representation =
      if covers outer hostType = true then none else r.get? hostType representation := by
  have hpairs := lookup_filter (fun pair : String × Representation => !covers outer pair.1) r.pairs
    (hostType, representation)
  show (r.pairs.filter fun p => !covers outer p.1.1).lookup (hostType, representation) = _
  rw [hpairs]
  dsimp only
  cases covers outer hostType with
  | true => rfl
  | false => rfl

theorem get?_erasePair (r : Registry) (outer hostType : String)
    (rep representation : Representation) :
    (r.erasePair outer rep).get? hostType representation =
      if outer = hostType ∧ rep = representation then none
      else r.get? hostType representation := by
  have hpairs := lookup_filter (fun pair => pair != (outer, rep)) r.pairs (hostType, representation)
  show (r.pairs.filter fun p => p.1 != (outer, rep)).lookup (hostType, representation) = _
  rw [hpairs]
  by_cases heq : outer = hostType ∧ rep = representation
  · obtain ⟨rfl, rfl⟩ := heq
    rw [if_neg (by simp), if_pos ⟨rfl, rfl⟩]
  · rw [if_pos, if_neg heq]
    · rfl
    · apply bne_iff_ne.2
      rintro ⟨⟩
      exact heq ⟨rfl, rfl⟩

/-- What a call says about a pair is so from then on. -/
theorem get?_apply (r : Registry) (c : Registration) (hostType : String)
    (representation : Representation) : (r.apply c).get? hostType representation =
      (c.tells hostType representation).getD (r.get? hostType representation) := by
  rcases c with a | ⟨outer, _ | rep⟩
  · show (r.register a).get? hostType representation =
      (Registration.names hostType representation (.registered a)).getD _
    rw [get?_register, Registration.names]
    split <;> rfl
  · show (r.erase outer).get? hostType representation = _
    rw [get?_erase, Registration.tells, Registration.sweeps, Registration.names]
    by_cases heq : outer = hostType
    · have hcovers : covers outer hostType = true := by
        rw [covers, heq, beq_self_eq_true, Bool.true_or]
      rw [if_pos hcovers, if_neg (by simp [heq]), if_pos heq, Option.getD_some]
    · rw [bne_iff_ne.2 heq, Bool.true_and, if_neg heq]
      split <;> rfl
  · show _ = (Registration.names hostType representation (.removed outer (some rep))).getD _
    rw [apply_removed, get?_erasePair, Registration.names]
    split <;> rfl

theorem preferred?_apply (r : Registry) (c : Registration) (hostType : String) :
    (r.apply c).preferred? hostType = (c.prefers hostType).getD (r.preferred? hostType) := by
  rcases c with a | ⟨outer, _ | rep⟩
  · show (set a.hostType a r.preferred).lookup hostType = _
    rw [lookup_set, Registration.prefers]
    by_cases heq : a.hostType = hostType
    · rw [if_pos heq.symm, if_pos heq, Option.getD_some]
    · rw [if_neg (Ne.symm heq), if_neg heq, Option.getD_none]
      rfl
  · have hpreferred : (r.erase outer).preferred? hostType =
        if (hostType != outer) = true then r.preferred? hostType else none :=
      lookup_filter (fun h => h != outer) r.preferred hostType
    show (r.erase outer).preferred? hostType = _
    rw [hpreferred, Registration.prefers]
    by_cases heq : outer = hostType
    · rw [if_neg (by simp [heq]), if_pos heq, Option.getD_some]
    · rw [if_pos (bne_iff_ne.2 (Ne.symm heq)), if_neg heq, Option.getD_none]
  · rw [apply_removed, Registration.prefers, Option.getD_none]
    rfl

/-- The registry after a history of calls, which begins without adapters. -/
def after (history : List Registration) : Registry := history.foldl apply empty

/-- A view of the registry that goes by what each call says shows what the latest call said. -/
theorem view_after (view : Registry → Option Adapter)
    {told : Registration → Option (Option Adapter)}
    (happly : ∀ r c, view (r.apply c) = (told c).getD (view r)) (hempty : view empty = none)
    (history : List Registration) : view (after history) = Registration.latest told history := by
  induction history using List.reverseRecOn with
  | nil => exact hempty
  | append_singleton history c ih =>
    rw [Registration.latest_concat, ← ih, ← happly, after, after, List.foldl_append,
      List.foldl_cons, List.foldl_nil]

theorem get?_after (history : List Registration) (hostType : String)
    (representation : Representation) : (after history).get? hostType representation =
      Registration.latest (Registration.tells hostType representation) history :=
  view_after (fun r => r.get? hostType representation)
    (fun r c => get?_apply r c hostType representation) rfl history

theorem preferred?_after (history : List Registration) (hostType : String) :
    (after history).preferred? hostType =
      Registration.latest (Registration.prefers hostType) history :=
  view_after (fun r => r.preferred? hostType) (fun r c => preferred?_apply r c hostType) rfl history

/-- The adapter of a pair is that of the latest call which said anything about the pair. It is that
of the latest call which named the pair unless the removal of another host type has swept the pair
away since: one whose name and a colon begin the key of the pair. -/
theorem get?_latest (history : List Registration) (hostType : String)
    (representation : Representation) :
    (after history).get? hostType representation =
      Registration.latest (Registration.tells hostType representation) history ∧
    ((after history).get? hostType representation =
        Registration.latest (Registration.names hostType representation) history ↔
      ¬ Registration.Swept hostType representation history) ∧
    ∀ outer, (Registration.removed outer none).sweeps hostType = true ↔
      outer ≠ hostType ∧ outer.toList ++ [':'] <+: key hostType representation := by
  obtain ⟨hswept, hkept⟩ := Registration.latest_tells hostType representation history
  refine ⟨get?_after history hostType representation, ?_, ?_⟩
  · rw [get?_after]
    constructor
    -- a swept pair has no adapter any more, but the last call that names it still gave it one
    · intro hsame hlost
      exact hlost.latest_ne_none (hsame.symm.trans (hswept hlost))
    · exact hkept
  · intro outer
    rw [Registration.sweeps, Bool.and_eq_true, bne_iff_ne, covers_iff_key]

/-- An adapter for a host type whose name holds a colon. -/
def euroAdapter : Adapter where
  name := "Euro"
  hostType := "money:eur"
  representations := [.text]
  toDatabase := fun v _ _ => .ok v
  fromDatabase := fun v _ _ => .ok v
  detects := none

/-- Removing one host type takes away the adapter of another. -/
theorem euro_removed_with_money :
    (after [.registered euroAdapter, .removed "money" none]).get? "money:eur" .text = none ∧
      Registration.latest (Registration.names "money:eur" .text)
        [.registered euroAdapter, .removed "money" none] = some euroAdapter ∧
      Registration.Swept "money:eur" .text [.registered euroAdapter, .removed "money" none] := by
  refine ⟨rfl, rfl, [.registered euroAdapter], .removed "money" none, [], rfl, ⟨by decide, ?_⟩, ?_⟩
  · exact fun h => nomatch h
  · exact fun c' hc' => nomatch hc'

end Registry

end PolyQuery
