import PolyQuery.Proofs.Registration

/-! What a removal leaves in use. A pair with an adapter always belongs to a host type with a
preferred one, but not the other way round: removing representations one by one leaves the preferred
adapter of the host type where it is. So a removed representation is used again exactly if it is the
first one of the preferred adapter: `Registry.removed_unused`. -/
namespace PolyQuery

namespace Registration
variable {hostType : String} {representation : Representation} {history : List Registration}

/-- A pair was removed, with its host type or alone, and no adapter has been registered for it
since. -/
def Removed (hostType : String) (representation : Representation) : List Registration → Prop :=
  Since (fun _ c => c.names hostType representation = some none)
    fun c => ∀ a, c.names hostType representation ≠ some (some a)

/-- A host type has a preferred adapter, but each of its pairs was removed, was swept away or never
had an adapter. -/
def Hollow (hostType : String) (history : List Registration) : Prop :=
  latest (prefers hostType) history ≠ none ∧
    ∀ representation, latest (tells hostType representation) history = none

/-- A removal that no adapter has followed is the last word on a pair. -/
theorem Removed.latest_eq_none (h : Removed hostType representation history) :
    latest (tells hostType representation) history = none := by
  induction history using List.reverseRecOn with
  | nil => exact absurd h not_since_nil
  | append_singleton history c ih =>
    rw [latest_concat]
    rcases since_concat.1 h with hremoved | ⟨hkept, hbefore⟩
    · rw [tells, hremoved, ite_self, Option.getD_some]
    · rw [ih hbefore, tells]
      split
      · rfl
      · rcases hnames : c.names hostType representation with _ | _ | a
        · rfl
        · rfl
        · exact absurd hnames (hkept a)

end Registration

namespace Registry
variable {r : Registry} {hostType : String} {representation : Representation} {a : Adapter}

theorem knows_name (r : Registry) (hostType : String) (representation : Representation) :
    r.knows hostType representation.name = (r.get? hostType representation).isSome := by
  rw [knows, if_neg (name_ne_empty _), named?, pairNamed?_name]
  rfl

/-- A pair with an adapter belongs to a host type with a preferred one. -/
def Backed (r : Registry) : Prop :=
  ∀ hostType representation, r.get? hostType representation ≠ none → r.preferred? hostType ≠ none

theorem backed_apply (h : r.Backed) (c : Registration) : (r.apply c).Backed := by
  intro hostType representation
  rw [get?_apply, preferred?_apply]
  have hkept := h hostType representation
  rcases c with a | ⟨outer, _ | rep⟩
  · rw [Registration.prefers]
    by_cases heq : a.hostType = hostType
    · exact fun _ => by simp [heq]
    · have hnothing : (Registration.registered a).tells hostType representation = none := by
        show (Registration.registered a).names hostType representation = none
        exact if_neg fun hboth => heq hboth.1
      rw [hnothing, if_neg heq]
      exact hkept
  · rw [Registration.prefers]
    by_cases heq : outer = hostType
    · -- the whole host type is removed
      have hnothing : (Registration.removed outer none).tells hostType representation =
          some none := by
        rw [Registration.tells, Registration.names, if_pos heq, ite_self]
      rw [hnothing]
      exact fun hne => absurd rfl hne
    · rw [if_neg heq, Registration.tells, Registration.names, if_neg heq]
      split
      · exact fun hne => absurd rfl hne
      · exact hkept
  · rw [Registration.prefers]
    show ((Registration.removed outer (some rep)).names hostType representation).getD _ ≠ none → _
    rw [Registration.names]
    split
    · exact fun hne => absurd rfl hne
    · exact hkept

theorem backed_after (history : List Registration) : (after history).Backed := by
  induction history using List.reverseRecOn with
  | nil => exact fun _ _ h => absurd rfl h
  | append_singleton history c ih =>
    rw [after, List.foldl_append]
    exact backed_apply ih c

section Resolving
variable {suggest : String → Option Representation} {override : Override}

/-- Where a representation is asked for, the conversion is by the adapter of the pair. -/
theorem resolve_asked {rep : Representation} (hgiven : override.adapter = none)
    (hasked : override.representation.or (suggest hostType) = some rep) :
    r.resolve (some hostType) suggest override = .ok ⟨some a, some representation⟩ ↔
      rep = representation ∧ rep ≠ .native ∧ r.get? hostType rep = some a := by
  unfold resolve
  rw [hgiven, Option.bind_some, hasked]
  dsimp only
  split
  · next hnative =>
    constructor
    · intro h
      cases h
    · exact fun h => absurd (Option.some.inj hnative) h.2.1
  · next rep hne hrep =>
    obtain rfl := Option.some.inj hrep
    rw [Option.bind_some]
    -- without an adapter for the pair nothing is converted, or the type is refused
    cases hfound : r.get? hostType rep with
    | none =>
      constructor
      · intro h
        dsimp only at h
        split at h <;> cases h
      · exact fun h => nomatch h.2.2
    | some chosen =>
      constructor
      · intro h
        cases h
        exact ⟨rfl, hne, rfl⟩
      · rintro ⟨rfl, -, hchosen⟩
        rw [Option.some.inj hchosen]
  · next hnone => cases hnone

/-- Where none is asked for, it is by the preferred adapter with its first representation. -/
theorem resolve_unasked (hgiven : override.adapter = none)
    (hasked : override.representation.or (suggest hostType) = none)
    (hnative : isNativeType hostType = false) :
    r.resolve (some hostType) suggest override = .ok ⟨some a, some representation⟩ ↔
      r.preferred? hostType = some a ∧ a.representations.head? = some representation := by
  -- a type of the driver is left as it is, and this is none
  have hforeign : isNative (some hostType) = false := hnative
  unfold resolve
  rw [hgiven, Option.bind_some, hasked, hforeign]
  dsimp only
  rw [if_neg Bool.false_ne_true, Option.bind_some]
  cases r.preferred? hostType with
  | none =>
    constructor
    · intro h
      cases h
    · exact fun h => nomatch h.1
  | some chosen =>
    constructor
    · intro h
      have hsame := Except.ok.inj h
      obtain rfl : chosen = a := Option.some.inj (congrArg Resolved.adapter hsame)
      exact ⟨rfl, congrArg Resolved.representation hsame⟩
    · rintro ⟨hchosen, hhead⟩
      rw [Option.some.inj hchosen]
      exact congrArg (fun rep => Except.ok (Resolved.mk (some a) rep)) hhead

end Resolving

/-- A removed representation is used again only by the preferred adapter of its host type, and only
if it is the first one that this adapter lists. -/
theorem removed_unused (history : List Registration) {hostType : String}
    (hnative : isNativeType hostType = false) :
    (∀ representation : Representation,
      (after history).knows hostType representation.name = true →
        (after history).knows hostType "" = true) ∧
    (((after history).knows hostType "" = true ↔
        ∃ representation : Representation,
          (after history).knows hostType representation.name = true) ↔
      ¬ Registration.Hollow hostType history) ∧
    ∀ representation, Registration.Removed hostType representation history →
      ((∀ suggest override a, override.adapter = none →
          (after history).resolve (some hostType) suggest override ≠
            .ok ⟨some a, some representation⟩) ↔
        ∀ a, Registration.latest (Registration.prefers hostType) history = some a →
          a.representations.head? ≠ some representation) := by
  have hbacked := backed_after history hostType
  have hwhole : (after history).knows hostType "" = true ↔
      Registration.latest (Registration.prefers hostType) history ≠ none := by
    rw [← preferred?_after, ← Option.isSome_iff_ne_none]
    rfl
  have hpair (representation : Representation) :
      (after history).knows hostType representation.name = true ↔
        Registration.latest (Registration.tells hostType representation) history ≠ none := by
    rw [knows_name, ← get?_after, Option.isSome_iff_ne_none]
  have hup (representation : Representation) :
      (after history).knows hostType representation.name = true →
        (after history).knows hostType "" = true := by
    rw [hwhole, hpair, ← get?_after, ← preferred?_after]
    exact hbacked representation
  refine ⟨hup, ?_, ?_⟩
  · simp only [Registration.Hollow, ← hwhole, not_and, not_forall, ← hpair]
    constructor
    · exact fun hsame hknown => hsame.1 hknown
    · exact fun hsome => ⟨hsome, fun ⟨representation, hknown⟩ => hup representation hknown⟩
  · intro representation hremoved
    -- the pair itself gives nothing, so only the preferred adapter can bring it back
    have hlost : (after history).get? hostType representation = none := by
      rw [get?_after]
      exact hremoved.latest_eq_none
    constructor
    · intro hunused a ha hhead
      refine hunused (fun _ => none) .nothing a rfl
        ((resolve_unasked rfl rfl hnative).2 ⟨?_, hhead⟩)
      rw [preferred?_after, ha]
    · intro hfirst suggest override a hgiven hresolved
      rcases hasked : override.representation.or (suggest hostType) with _ | rep
      · obtain ⟨hpreferred, hhead⟩ := (resolve_unasked hgiven hasked hnative).1 hresolved
        rw [preferred?_after] at hpreferred
        exact hfirst a hpreferred hhead
      · obtain ⟨rfl, -, hfound⟩ := (resolve_asked hgiven hasked).1 hresolved
        rw [hlost] at hfound
        cases hfound

/-- An adapter with two representations. -/
def moneyAdapter : Adapter where
  name := "Money"
  hostType := "money"
  representations := [.integer, .text]
  toDatabase := fun v _ _ => .ok v
  fromDatabase := fun v _ _ => .ok v
  detects := none

theorem removed_unused_secondChoice :
    isNativeType "money" = false ∧
      Registration.Removed "money" .text [.registered moneyAdapter, .removed "money" (some .text)] ∧
      ∀ suggest override a, override.adapter = none →
        (after [.registered moneyAdapter, .removed "money" (some .text)]).resolve (some "money")
          suggest override ≠ .ok ⟨some a, some .text⟩ := by
  have hremoved : Registration.Removed "money" .text
      [.registered moneyAdapter, .removed "money" (some .text)] :=
    ⟨[.registered moneyAdapter], .removed "money" (some .text), [], rfl, rfl,
      fun c' hc' => nomatch hc'⟩
  have hnative : isNativeType "money" = false := by decide
  have hunused := removed_unused [.registered moneyAdapter, .removed "money" (some .text)] hnative
  refine ⟨hnative, hremoved, (hunused.2.2 .text hremoved).2 ?_⟩
  intro a ha hhead
  obtain rfl : moneyAdapter = a := Option.some.inj ha
  cases hhead

/-- Both representations of an adapter removed, one by one. -/
def bothRemoved : List Registration :=
  [.registered moneyAdapter, .removed "money" (some .integer), .removed "money" (some .text)]

/-- The host type is still known, without any pair, and its first representation is still used. -/
theorem bothRemoved_still_used :
    (after bothRemoved).knows "money" "" = true ∧
      (∀ representation : Representation,
        (after bothRemoved).knows "money" representation.name = false) ∧
      Registration.Removed "money" .integer bothRemoved ∧
      (after bothRemoved).resolve (some "money") (fun _ => none) .nothing =
        .ok ⟨some moneyAdapter, some .integer⟩ := by
  refine ⟨rfl, ?_, ?_, rfl⟩
  · intro representation
    cases representation <;> rfl
  · refine ⟨[.registered moneyAdapter], .removed "money" (some .integer),
      [.removed "money" (some .text)], rfl, rfl, ?_⟩
    intro c' hc' a h
    rw [List.mem_singleton.1 hc'] at h
    cases h

end Registry
end PolyQuery
