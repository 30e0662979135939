import PolyQuery.Proofs.Steady

/-! Texts that differ in pairs of brackets. `Fragment.Loses m f g` says that `g` is `f` without `m`
pairs of brackets and binds the same values. It goes through everything that fragments are put
together with, and two runs that give such fragments are put in the relation `Related`. -/
namespace PolyQuery

/-- Two results that fail alike, or that both exist and are in a relation. -/
def Related {α β : Type} (R : α → β → Prop) : Except Error α → Except Error β → Prop
  | .ok a, .ok b => R a b
  | .error e, .error e' => e = e'
  | _, _ => False

namespace Related
variable {α β γ δ : Type} {R : α → β → Prop} {S : γ → δ → Prop}

theorem bind {x : Except Error α} {y : Except Error β} {f : α → Except Error γ}
    {g : β → Except Error δ} (h : Related R x y) (hf : ∀ a b, R a b → Related S (f a) (g b)) :
    Related S (x >>= f) (y >>= g) := by
  cases x with
  | error e =>
    cases y with
    | error e' => exact h
    | ok b => exact h.elim
  | ok a =>
    cases y with
    | error e' => exact h.elim
    | ok b => exact hf a b h

/-- What both runs do alike leaves them with one value. -/
theorem same {x : Except Error α} {f : α → Except Error γ} {g : α → Except Error δ}
    (hf : ∀ a, Related S (f a) (g a)) : Related S (x >>= f) (x >>= g) := by
  cases x with
  | error e => exact rfl
  | ok a => exact hf a

theorem same_ok {x : Except Error α} {f : α → Except Error γ} {g : α → Except Error δ}
    (hf : ∀ a, x = .ok a → Related S (f a) (g a)) : Related S (x >>= f) (x >>= g) := by
  cases x with
  | error e => exact rfl
  | ok a => exact hf a rfl

theorem refl {R : α → α → Prop} (hR : ∀ a, R a a) (x : Except Error α) : Related R x x := by
  cases x with
  | error e => exact rfl
  | ok a => exact hR a

theorem mono {R' : α → β → Prop} {x : Except Error α} {y : Except Error β} (h : Related R x y)
    (hR : ∀ a b, R a b → R' a b) : Related R' x y := by
  cases x with
  | error e =>
    cases y with
    | error e' => exact h
    | ok b => exact h.elim
  | ok a =>
    cases y with
    | error e' => exact h.elim
    | ok b => exact hR a b h

/-- Both runs end with one error, or both with a value. -/
theorem outcome {x : Except Error α} {y : Except Error β} (h : Related R x y) :
    (∃ e, x = .error e ∧ y = .error e) ∨ ∃ a b, x = .ok a ∧ y = .ok b ∧ R a b := by
  cases x with
  | error e =>
    cases y with
    | error e' =>
      have he : e = e' := h
      exact .inl ⟨e, rfl, by rw [he]⟩
    | ok b => exact h.elim
  | ok a =>
    cases y with
    | error e' => exact h.elim
    | ok b => exact .inr ⟨a, b, rfl, rfl, h⟩

end Related

namespace Fragment

/-- The second fragment is the first one without so many pairs of brackets: it binds the same
values, it is the same when there are none, and its text is shorter by two characters for each. -/
structure Loses (m : Nat) (f g : Fragment) : Prop where
  bindings : g.bindings = f.bindings
  same : m = 0 → g = f
  length : ∀ d n, (f.chars d n).length = (g.chars d n).length + 2 * m

/-- The second list is the first one but for one place, where pairs of brackets are lost. -/
inductive Changed (m : Nat) : (place : Nat) → List Fragment → List Fragment → Prop
  | here {f g} (h : Loses m f g) (fs) : Changed m 0 (f :: fs) (g :: fs)
  | there {place fs gs} (f) (h : Changed m place fs gs) : Changed m (place + 1) (f :: fs) (f :: gs)

/-- Two lists of which the second one, put together, has lost so many pairs of brackets. -/
structure JoinLoses (m : Nat) (fs gs : List Fragment) : Prop where
  isEmpty : gs.isEmpty = fs.isEmpty
  join : ∀ separator, Loses m (join separator fs) (join separator gs)

namespace Loses
variable {m k : Nat} {f g f' g' : Fragment}

theorem refl (f : Fragment) : Loses 0 f f := ⟨rfl, fun _ => rfl, fun _ _ => rfl⟩

theorem cast (h : Loses m f g) (hk : m = k) : Loses k f g := hk ▸ h

theorem append (h : Loses m f g) (h' : Loses k f' g') : Loses (m + k) (f ++ f') (g ++ g') := by
  refine ⟨?_, fun hzero => ?_, fun d n => ?_⟩
  · rw [bindings_append, bindings_append, h.bindings, h'.bindings]
  · rw [h.same (by omega), h'.same (by omega)]
  · have hleft := h.length d n
    have hright := h'.length d (n + f.bindings.length)
    rw [chars_append, chars_append, List.length_append, List.length_append, h.bindings]
    omega

theorem after (h : Loses m f g) (e : Fragment) : Loses m (e ++ f) (e ++ g) :=
  ((refl e).append h).cast (Nat.zero_add m)

theorem before (h : Loses m f g) (e : Fragment) : Loses m (f ++ e) (g ++ e) :=
  h.append (refl e)

theorem enclosed (h : Loses m f g) : Loses m f.enclosed g.enclosed := (h.after _).before _

/-- A fragment without the brackets around it. -/
theorem unwrapped (f : Fragment) : Loses 1 f.enclosed f := by
  refine ⟨(bindings_enclosed f).symm, Nat.noConfusion, fun d n => ?_⟩
  rw [Fragment.enclosed, chars_append, chars_append, chars_text, chars_text, List.length_append,
    List.length_append, Scan.toList_opening, Scan.toList_closing]
  change 1 + (f.chars d n).length + 1 = _
  omega

theorem ite (h : Loses m f g) (h' : Loses m f' g') {c : Prop} [Decidable c] :
    Loses m (if c then f else f') (if c then g else g') := by
  split
  · exact h
  · exact h'

theorem clause (h : Loses m f g) (keyword : String) :
    Loses m (Sql.clause keyword f) (Sql.clause keyword g) := h.after _

theorem aliased (h : Loses m f g) (d : Dialect) (name : String) :
    Loses m (Sql.aliased d f name) (Sql.aliased d g name) := h.before _

end Loses

namespace Changed
variable {m place : Nat} {fs gs : List Fragment}

theorem bindings (h : Changed m place fs gs) :
    gs.map Fragment.bindings = fs.map Fragment.bindings := by
  induction h with
  | here h fs => rw [List.map_cons, List.map_cons, h.bindings]
  | there f h ih => rw [List.map_cons, List.map_cons, ih]

theorem length (h : Changed m place fs gs) : gs.length = fs.length := by
  have hlength := congrArg List.length h.bindings
  rwa [List.length_map, List.length_map] at hlength

theorem same (h : Changed m place fs gs) (hm : m = 0) : gs = fs := by
  induction h with
  | here h fs => rw [h.same hm]
  | there f h ih => rw [ih]

theorem ne_nil (h : Changed m place fs gs) : fs ≠ [] ∧ gs ≠ [] := by
  cases h with
  | here => exact ⟨List.cons_ne_nil _ _, List.cons_ne_nil _ _⟩
  | there => exact ⟨List.cons_ne_nil _ _, List.cons_ne_nil _ _⟩

theorem join (h : Changed m place fs gs) (separator : String) :
    Loses m (Fragment.join separator fs) (Fragment.join separator gs) := by
  induction h with
  | here h fs =>
    cases fs with
    | nil => exact h
    | cons e es =>
      rw [join_cons_cons, join_cons_cons]
      exact (h.before _).before _
  | @there _ es es' f h ih =>
    obtain ⟨hes, hes'⟩ := h.ne_nil
    obtain ⟨a, as, rfl⟩ := List.exists_cons_of_ne_nil hes
    obtain ⟨b, bs, rfl⟩ := List.exists_cons_of_ne_nil hes'
    rw [join_cons_cons, join_cons_cons]
    exact ih.after _

theorem joinLoses (h : Changed m place fs gs) : JoinLoses m fs gs := by
  refine ⟨?_, h.join⟩
  obtain ⟨hfs, hgs⟩ := h.ne_nil
  rw [List.isEmpty_eq_false_iff.2 hfs, List.isEmpty_eq_false_iff.2 hgs]

/-! ### Layouts -/

theorem offset (h : Changed m place fs gs) (n : Nat) :
    Fragment.offset gs n = Fragment.offset fs n := by
  have hbindings : (gs.take n).flatMap Fragment.bindings = (fs.take n).flatMap Fragment.bindings := by
    rw [List.flatMap_def, List.flatMap_def, List.map_take, List.map_take, h.bindings]
  exact congrArg List.length hbindings

theorem getElem?_ne (h : Changed m place fs gs) {n : Nat} (hn : n ≠ place) : gs[n]? = fs[n]? := by
  induction h generalizing n with
  | here h fs =>
    cases n with
    | zero => exact absurd rfl hn
    | succ n => rfl
  | there f h ih =>
    cases n with
    | zero => rfl
    | succ n => exact ih fun heq => hn (congrArg (· + 1) heq)

theorem getElem?_self (h : Changed m place fs gs) :
    ∃ f g, fs[place]? = some f ∧ gs[place]? = some g ∧ Loses m f g := by
  induction h with
  | here h fs => exact ⟨_, _, rfl, rfl, h⟩
  | there f h ih => exact ih

/-- A part of a layout is shorter where it is the changed argument. -/
theorem length_partChars (h : Changed m place fs gs) (d : Dialect) (n : Nat) (part : LayoutPart) :
    (Scan.partChars d fs n part).length =
      (Scan.partChars d gs n part).length + 2 * (m * [part].count (.argument place)) := by
  cases part with
  | text s => simp [Scan.partChars]
  | argument p =>
    by_cases hp : p = place
    · obtain ⟨f, g, hf, hg, hloses⟩ := h.getElem?_self
      have hlength := hloses.length d (n + Fragment.offset fs place)
      rw [hp, Scan.partChars, Scan.partChars, hf, hg, h.offset]
      simpa using hlength
    · rw [Scan.partChars, Scan.partChars, h.getElem?_ne hp, h.offset]
      simp [hp]

theorem ofLayout (h : Changed m place fs gs) (layout : List LayoutPart) :
    Loses (m * layout.count (.argument place)) (Fragment.ofLayout layout fs)
      (Fragment.ofLayout layout gs) := by
  refine ⟨?_, fun hzero => ?_, fun d n => ?_⟩
  · rw [bindings_ofLayout, bindings_ofLayout, List.flatMap_def, List.flatMap_def, h.bindings]
  · rcases Nat.mul_eq_zero.1 hzero with hm | hcount
    · rw [h.same hm]
    · -- the changed argument is not written, and the others keep their values
      have hpieces : ∀ part ∈ layout, layoutPieces gs part = layoutPieces fs part := by
        intro part hpart
        cases part with
        | text s => rfl
        | argument p =>
          have hp : p ≠ place := by
            rintro rfl
            exact List.count_eq_zero.1 hcount hpart
          rw [layoutPieces, layoutPieces, h.getElem?_ne hp, h.offset]
      have hbindings : gs.flatMap Fragment.bindings = fs.flatMap Fragment.bindings := by
        rw [List.flatMap_def, List.flatMap_def, h.bindings]
      rw [Fragment.ofLayout, Fragment.ofLayout, hbindings]
      congr 1
      rw [List.flatMap_def, List.flatMap_def, List.map_congr_left hpieces]
  · rw [Scan.chars_ofLayout, Scan.chars_ofLayout]
    induction layout with
    | nil => rfl
    | cons part parts ih =>
      have hpart := h.length_partChars d n part
      have hcount : ([part] ++ parts).count (.argument place) =
          [part].count (.argument place) + parts.count (.argument place) := List.count_append
      rw [List.singleton_append] at hcount
      rw [List.flatMap_cons, List.flatMap_cons, List.length_append, List.length_append, hcount,
        Nat.mul_add]
      omega

/-! ### Lists that are cut -/

theorem take_drop_lt (h : Changed m place fs gs) {size : Nat} (hsize : place < size) :
    Changed m place (fs.take size) (gs.take size) ∧ gs.drop size = fs.drop size := by
  induction h generalizing size with
  | here h fs =>
    cases size with
    | zero => exact absurd hsize (Nat.not_lt_zero _)
    | succ size => exact ⟨.here h _, rfl⟩
  | there f h ih =>
    cases size with
    | zero => exact absurd hsize (Nat.not_lt_zero _)
    | succ size =>
      obtain ⟨htake, hdrop⟩ := ih (Nat.lt_of_succ_lt_succ hsize)
      exact ⟨.there f htake, hdrop⟩

theorem take_drop_le (h : Changed m place fs gs) {size : Nat} (hsize : size ≤ place) :
    gs.take size = fs.take size ∧ Changed m (place - size) (fs.drop size) (gs.drop size) := by
  induction h generalizing size with
  | here h fs =>
    obtain rfl : size = 0 := by omega
    exact ⟨rfl, .here h fs⟩
  | there f h ih =>
    cases size with
    | zero => exact ⟨rfl, .there f h⟩
    | succ size =>
      obtain ⟨htake, hdrop⟩ := ih (Nat.le_of_succ_le_succ hsize)
      refine ⟨congrArg (f :: ·) htake, ?_⟩
      rwa [Nat.add_sub_add_right]

/-- Only the piece with the changed place is changed. -/
theorem map_chunks {text : List Fragment → Fragment} {size : Nat} (hsize : 0 < size)
    (htext : ∀ {place fs gs}, Changed m place fs gs → Loses m (text fs) (text gs)) {fuel : Nat}
    (h : Changed m place fs gs) (hfuel : fs.length ≤ fuel) :
    ∃ piece, Changed m piece ((Sql.chunks size fuel fs).map text)
      ((Sql.chunks size fuel gs).map text) := by
  induction fuel generalizing place fs gs with
  | zero => exact absurd (List.eq_nil_of_length_eq_zero (by omega)) h.ne_nil.1
  | succ fuel ih =>
    obtain ⟨hfs, hgs⟩ := h.ne_nil
    have hfs := List.isEmpty_eq_false_iff.2 hfs
    have hgs := List.isEmpty_eq_false_iff.2 hgs
    rw [Sql.chunks, Sql.chunks, hfs, hgs]
    -- the change is in the first chunk, or in one of the rest
    by_cases hplace : place < size
    · obtain ⟨htake, hdrop⟩ := h.take_drop_lt hplace
      refine ⟨0, ?_⟩
      rw [hdrop]
      exact .here (htext htake) _
    · obtain ⟨htake, hdrop⟩ := h.take_drop_le (Nat.le_of_not_lt hplace)
      have hlength : (fs.drop size).length ≤ fuel := by
        rw [List.length_drop]
        omega
      obtain ⟨piece, hpiece⟩ := ih hdrop hlength
      refine ⟨piece + 1, ?_⟩
      rw [htake]
      exact .there _ hpiece

end Changed

namespace JoinLoses
variable {m : Nat} {fs gs : List Fragment}

theorem refl (fs : List Fragment) : JoinLoses 0 fs fs := ⟨rfl, fun _ => .refl _⟩

/-- Nothing is lost in a list without members. -/
theorem eq_zero (h : JoinLoses m fs gs) (hfs : fs = []) : gs = [] ∧ m = 0 := by
  have hgs : gs = [] := by
    have hempty := h.isEmpty
    rw [hfs] at hempty
    exact List.isEmpty_iff.1 hempty
  have hlength := (h.join "").length (.make .sqlite none) 0
  rw [hfs, hgs] at hlength
  exact ⟨hgs, by omega⟩

theorem listClause (h : JoinLoses m fs gs) (keyword : String) :
    Loses m (Sql.listClause keyword fs) (Sql.listClause keyword gs) := by
  rw [Sql.listClause, Sql.listClause, h.isEmpty]
  cases hfs : fs.isEmpty with
  | true =>
    obtain ⟨-, hm⟩ := h.eq_zero (List.isEmpty_iff.1 hfs)
    exact (Loses.refl _).cast hm.symm
  | false => exact (h.join ", ").clause keyword

theorem withClause (h : JoinLoses m fs gs) (d : Dialect) (recursive : Bool) {k : Nat}
    {f g : Fragment} (hbody : Loses k f g) :
    Loses (m + k) (Sql.withClause d recursive fs f) (Sql.withClause d recursive gs g) := by
  rw [Sql.withClause, Sql.withClause, h.isEmpty]
  cases hfs : fs.isEmpty with
  | true =>
    obtain ⟨-, hm⟩ := h.eq_zero (List.isEmpty_iff.1 hfs)
    exact hbody.cast (by omega)
  | false => exact (((h.join ", ").clause _).before _).append hbody

end JoinLoses
/-! ### Runs that do the same -/

theorem Loses.unchanged (x : Except Error Fragment) : Related (Loses 0) x x :=
  Related.refl Loses.refl x

theorem JoinLoses.unchanged (x : Except Error (List Fragment)) : Related (JoinLoses 0) x x :=
  Related.refl JoinLoses.refl x

end Fragment

namespace Related
open Fragment

theorem cast {m k : Nat} {x y : Except Error Fragment} (h : Related (Loses m) x y) (hk : m = k) :
    Related (Loses k) x y := hk ▸ h

theorem joined {m place : Nat} {x y : Except Error (List Fragment)}
    (h : Related (Changed m place) x y) : Related (JoinLoses m) x y :=
  h.mono fun _ _ hchanged => hchanged.joinLoses

end Related
end PolyQuery
