import PolyQuery.Session

/-! Actions on a session, step by step. What an action of several parts gives, and in which session
it leaves off, follows from what its parts do one after another: `bind_ok` and `bind_error`. -/
namespace PolyQuery.Run

variable {α β : Type} {x : Run α} {f : α → Run β} {s t : Session} {a : α} {e : Error}

theorem bind_apply (x : Run α) (f : α → Run β) (s : Session) : (x >>= f) s =
    match x s with
    | (.ok a, t) => f a t
    | (.error e, t) => (.error e, t) := by
  show ExceptT.bindCont f (x s).1 (x s).2 = _
  rcases x s with ⟨_ | _, _⟩ <;> rfl

/-- What comes after a part that succeeds goes on from where that part left off. -/
theorem bind_ok (h : x s = (.ok a, t)) : (x >>= f) s = f a t := by
  rw [bind_apply, h]

/-- Nothing comes after a part that fails. -/
theorem bind_error (h : x s = (.error e, t)) : (x >>= f) s = (.error e, t) := by
  rw [bind_apply, h]

theorem bind_congr {y : Run α} (h : x s = y s) : (x >>= f) s = (y >>= f) s := by
  rw [bind_apply, bind_apply, h]

/-- An action that succeeds has done so in all of its parts. -/
theorem bind_eq_ok {b : β} {u : Session} (h : (x >>= f) s = (.ok b, u)) :
    ∃ a t, x s = (.ok a, t) ∧ f a t = (.ok b, u) := by
  rw [bind_apply] at h
  rcases hx : x s with ⟨e | a, t⟩
  · rw [hx] at h
    cases h
  · rw [hx] at h
    exact ⟨a, t, rfl, h⟩

/-- An action that fails has failed in one of its parts. -/
theorem bind_eq_error {u : Session} (h : (x >>= f) s = (.error e, u)) :
    x s = (.error e, u) ∨ ∃ a t, x s = (.ok a, t) ∧ f a t = (.error e, u) := by
  rw [bind_apply] at h
  rcases hx : x s with ⟨e' | a, t⟩
  · rw [hx] at h
    cases h
    exact .inl rfl
  · rw [hx] at h
    exact .inr ⟨a, t, rfl, h⟩

theorem bind_unit {r : Except Error α} (h : x s = (r, t)) :
    (x >>= fun _ => pure ()) s = (r.map fun _ => (), t) := by
  rw [bind_apply, h]
  cases r <;> rfl

theorem session_apply (s : Session) : session s = (.ok s, s) := rfl

theorem ofExcept_ok {r : Except Error α} (h : r = .ok a) (s : Session) :
    ofExcept r s = (.ok a, s) := congrArg (·, s) h

theorem onStore_apply (f : Store → α × Store) (s : Session) :
    onStore f s = (.ok (f s.store).1, { s with store := (f s.store).2 }) := rfl

theorem onStoreOrFail_apply (f : Store → Except Error α × Store) (s : Session) :
    onStoreOrFail f s = ((f s.store).1, { s with store := (f s.store).2 }) := by
  rw [onStoreOrFail, bind_ok (onStore_apply f s)]
  rfl

theorem liftM_eq (x : Run α) : (liftM x : Run α) = x := rfl

/-- A failure that is caught goes on with what is done about it. -/
theorem caught (x : Run α) (handle : Error → Run α) (s : Session) :
    (tryCatchThe Error x handle : Run α) s =
      match x s with
      | (.ok a, t) => (.ok a, t)
      | (.error e, t) => handle e t := by
  simp only [tryCatchThe, MonadExceptOf.tryCatch, ExceptT.tryCatch, ExceptT.mk, bind, StateT.bind]
  rcases x s with ⟨_ | _, _⟩ <;> rfl

end PolyQuery.Run
