import Mathlib.Data.List.Induction

/-! Histories: lists of events, the latest at the end. `Since` says that something has happened and
what has been so since then; a history keeps it or begins it with its latest event: `since_concat`.
-/
namespace PolyQuery
variable {E : Type} {P : List E → E → Prop} {Q : E → Prop} {history : List E} {e : E}

/-- An event with one property has happened, where the history before it may count, and all events
since then have another. -/
def Since (P : List E → E → Prop) (Q : E → Prop) (history : List E) : Prop :=
  ∃ before e after, history = before ++ e :: after ∧ P before e ∧ ∀ later ∈ after, Q later

theorem not_since_nil : ¬ Since P Q [] := by
  rintro ⟨before, e, after, hsplit, -⟩
  simp at hsplit

/-- It begins with the latest event, or was so before and is kept by it. -/
theorem since_concat : Since P Q (history ++ [e]) ↔ P history e ∨ Q e ∧ Since P Q history := by
  constructor
  · rintro ⟨before, first, after, hsplit, hfirst, hafter⟩
    rcases List.eq_nil_or_concat after with rfl | ⟨after, last, rfl⟩
    · obtain ⟨rfl, hlast⟩ := List.append_inj' hsplit rfl
      obtain rfl : e = first := List.head_eq_of_cons_eq hlast
      exact .inl hfirst
    · rw [List.concat_eq_append] at hsplit hafter
      rw [← List.cons_append, ← List.append_assoc] at hsplit
      obtain ⟨rfl, hlast⟩ := List.append_inj' hsplit rfl
      obtain rfl : e = last := List.head_eq_of_cons_eq hlast
      refine .inr ⟨hafter e (List.mem_append_right _ (List.mem_singleton_self e)), ?_⟩
      exact ⟨before, first, after, rfl, hfirst,
        fun later hlater => hafter later (List.mem_append_left _ hlater)⟩
  · rintro (hfirst | ⟨hkept, before, first, after, rfl, hfirst, hafter⟩)
    · exact ⟨history, e, [], rfl, hfirst, fun later hlater => nomatch hlater⟩
    · refine ⟨before, first, after ++ [e], by simp, hfirst, ?_⟩
      intro later hlater
      rcases List.mem_append.1 hlater with hlater | hlater
      · exact hafter later hlater
      · rwa [List.mem_singleton.1 hlater]

end PolyQuery
