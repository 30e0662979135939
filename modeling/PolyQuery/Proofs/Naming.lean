import Mathlib.Data.List.Chain
import Mathlib.Data.Set.Operations
import PolyQuery.Naming

/-! Names of properties and of their columns. A property is found again from its column exactly if it
has no underscore directly before a small letter, `snakeToCamel_camelToSnake_iff`, and a column from
its property exactly if it has no capital, `camelToSnake_snakeToCamel_iff`: the names that the one
map makes are those that the other one undoes. -/
namespace PolyQuery.Naming
variable {c : Char} {cs : List Char}

/-- No underscore stands directly before a small letter. -/
def IsCamel (name : List Char) : Prop := name.IsChain fun c d => c = '_' → Text.isSmall d = false

instance (name : List Char) : Decidable (IsCamel name) :=
  inferInstanceAs (Decidable (name.IsChain fun c d => c = '_' → Text.isSmall d = false))

/-- No letter is a capital. -/
def Uncapitalized (name : List Char) : Prop := ∀ c ∈ name, Text.isCapital c = false

instance (name : List Char) : Decidable (Uncapitalized name) :=
  List.decidableBAll (fun c => Text.isCapital c = false) name

/-- The small letter of a capital is one, and has the same capital again. -/
theorem small_of_capital (h : Text.isCapital c = true) :
    Text.isSmall (Char.ofNat (c.toNat + 32)) = true ∧
      Char.ofNat ((Char.ofNat (c.toNat + 32)).toNat - 32) = c := by
  have hletters : ∀ n < 91, Text.isCapital (Char.ofNat n) = true →
      Text.isSmall (Char.ofNat ((Char.ofNat n).toNat + 32)) = true ∧
        Char.ofNat ((Char.ofNat ((Char.ofNat n).toNat + 32)).toNat - 32) = Char.ofNat n := by
    decide
  have hc : c.toNat ≤ 90 := by
    have hlast := h
    unfold Text.isCapital at hlast
    rw [Bool.and_eq_true, decide_eq_true_eq, decide_eq_true_eq] at hlast
    exact UInt32.le_iff_toNat_le.1 hlast.2
  have hletter := hletters c.toNat (by omega)
  rw [Char.ofNat_toNat] at hletter
  exact hletter h

/-- The capital of a small letter is one, and has the same small letter again. -/
theorem capital_of_small (h : Text.isSmall c = true) :
    Text.isCapital (Char.ofNat (c.toNat - 32)) = true ∧
      Char.ofNat ((Char.ofNat (c.toNat - 32)).toNat + 32) = c := by
  have hletters : ∀ n < 123, Text.isSmall (Char.ofNat n) = true →
      Text.isCapital (Char.ofNat ((Char.ofNat n).toNat - 32)) = true ∧
        Char.ofNat ((Char.ofNat ((Char.ofNat n).toNat - 32)).toNat + 32) = Char.ofNat n := by
    decide
  have hc : c.toNat ≤ 122 := by
    have hlast := h
    unfold Text.isSmall at hlast
    rw [Bool.and_eq_true, decide_eq_true_eq, decide_eq_true_eq] at hlast
    exact UInt32.le_iff_toNat_le.1 hlast.2
  have hletter := hletters c.toNat (by omega)
  rw [Char.ofNat_toNat] at hletter
  exact hletter h

/-- No letter is both. -/
theorem isSmall_of_isCapital (h : Text.isCapital c = true) : Text.isSmall c = false := by
  have hlast := h
  unfold Text.isCapital at hlast
  rw [Bool.and_eq_true, decide_eq_true_eq, decide_eq_true_eq] at hlast
  have hc : c.toNat ≤ 90 := UInt32.le_iff_toNat_le.1 hlast.2
  rw [Bool.eq_false_iff]
  intro hsmall
  unfold Text.isSmall at hsmall
  rw [Bool.and_eq_true, decide_eq_true_eq, decide_eq_true_eq] at hsmall
  have hc' : 97 ≤ c.toNat := UInt32.le_iff_toNat_le.1 hsmall.1
  omega

theorem camelChars_of_ne (h : c ≠ '_') (cs : List Char) :
    camelChars (c :: cs) = c :: camelChars cs := by
  cases cs with
  | nil => rfl
  | cons d cs =>
    rw [camelChars, if_neg]
    intro hline
    exact h hline.1

/-- An underscore stays where no small letter is next. -/
theorem camelChars_underscore (h : ∀ d ∈ cs.head?, Text.isSmall d = false) :
    camelChars ('_' :: cs) = '_' :: camelChars cs := by
  cases cs with
  | nil => rfl
  | cons d cs =>
    have hd : Text.isSmall d = false := h d rfl
    rw [camelChars, if_neg]
    intro hline
    rw [hline.2] at hd
    cases hd

theorem camelChars_word {d : Char} (h : Text.isSmall d = true) (cs : List Char) :
    camelChars ('_' :: d :: cs) = Char.ofNat (d.toNat - 32) :: camelChars cs := by
  rw [camelChars, if_pos ⟨rfl, h⟩]

/-- The column of a name begins with no small letter that the name does not begin with. -/
theorem head_snakeChars (h : ∀ d ∈ cs.head?, Text.isSmall d = false) :
    ∀ d ∈ (snakeChars cs).head?, Text.isSmall d = false := by
  intro d hd
  cases cs with
  | nil => cases hd
  | cons c cs =>
    rw [snakeChars] at hd
    split at hd
    · cases hd
      rfl
    · cases hd
      exact h d rfl

theorem camelChars_snakeChars (h : IsCamel cs) : camelChars (snakeChars cs) = cs := by
  induction cs with
  | nil => rfl
  | cons c cs ih =>
    obtain ⟨hnext, hrest⟩ := List.isChain_cons.1 h
    rw [snakeChars]
    split
    · next hcapital =>
      obtain ⟨hsmall, hback⟩ := small_of_capital hcapital
      rw [camelChars_word hsmall, hback, ih hrest]
    · by_cases hline : c = '_'
      · -- what follows an underscore in the name is no small letter, so it follows in the column too
        have hfollows := head_snakeChars fun d hd => hnext d hd hline
        rw [hline, camelChars_underscore hfollows, ih hrest]
      · rw [camelChars_of_ne hline, ih hrest]

/-! ## What the maps make -/

/-- A capital becomes a small letter, and all else is no capital. -/
theorem uncapitalized_snakeChars (cs : List Char) : Uncapitalized (snakeChars cs) := by
  induction cs with
  | nil => exact nofun
  | cons c cs ih =>
    rw [snakeChars]
    split
    · next hcapital =>
      have hsmall : Text.isCapital (Char.ofNat (c.toNat + 32)) = false := by
        rw [Bool.eq_false_iff]
        intro hboth
        have hnone := isSmall_of_isCapital hboth
        rw [(small_of_capital hcapital).1] at hnone
        cases hnone
      exact List.forall_mem_cons.2 ⟨rfl, List.forall_mem_cons.2 ⟨hsmall, ih⟩⟩
    · next hcapital => exact List.forall_mem_cons.2 ⟨Bool.eq_false_iff.2 hcapital, ih⟩

/-- A property begins with no small letter that its column does not begin with. -/
theorem head_camelChars (h : ∀ d ∈ cs.head?, Text.isSmall d = false) :
    ∀ d ∈ (camelChars cs).head?, Text.isSmall d = false := by
  intro d hd
  cases cs with
  | nil => cases hd
  | cons c cs =>
    by_cases hword : c = '_' ∧ ∃ e rest, cs = e :: rest ∧ Text.isSmall e = true
    · obtain ⟨rfl, e, rest, rfl, he⟩ := hword
      rw [camelChars_word he] at hd
      cases hd
      exact isSmall_of_isCapital (capital_of_small he).1
    · -- the first letter stays, for no small letter is behind it where it is an underscore
      have hkept : camelChars (c :: cs) = c :: camelChars cs := by
        by_cases hline : c = '_'
        · subst hline
          refine camelChars_underscore fun e he => Bool.eq_false_iff.2 fun hsmall => hword ?_
          obtain ⟨rest, rfl⟩ := List.head?_eq_some_iff.1 he
          exact ⟨rfl, e, rest, rfl, hsmall⟩
        · exact camelChars_of_ne hline cs
      rw [hkept] at hd
      cases hd
      exact h d rfl

/-- Every underscore before a small letter is dropped, and none comes to stand there. -/
theorem isCamel_camelChars (cs : List Char) : IsCamel (camelChars cs) := by
  induction cs using camelChars.induct with
  | case1 => exact .nil
  | case2 c => exact .singleton c
  | case3 c d cs hword ih =>
    obtain ⟨rfl, hd⟩ := hword
    rw [camelChars_word hd]
    refine List.isChain_cons.2 ⟨fun e _ hline => ?_, ih⟩
    have hcapital := (capital_of_small hd).1
    rw [hline] at hcapital
    cases hcapital
  | case4 c d cs hword ih =>
    rw [camelChars, if_neg hword]
    refine List.isChain_cons.2 ⟨fun e he hline => head_camelChars ?_ e he, ih⟩
    intro e he
    cases he
    exact Bool.eq_false_iff.2 fun hsmall => hword ⟨hline, hsmall⟩

theorem snakeChars_of_not_capital (h : Text.isCapital c = false) (cs : List Char) :
    snakeChars (c :: cs) = c :: snakeChars cs := by
  rw [snakeChars, if_neg (Bool.eq_false_iff.1 h)]

/-- A text without capitals stays as it is. -/
theorem snakeChars_eq_self (h : Uncapitalized cs) : snakeChars cs = cs := by
  induction cs with
  | nil => rfl
  | cons c cs ih =>
    obtain ⟨hc, hcs⟩ := List.forall_mem_cons.1 h
    rw [snakeChars_of_not_capital hc, ih hcs]

theorem snakeChars_camelChars (h : Uncapitalized cs) : snakeChars (camelChars cs) = cs := by
  induction cs using camelChars.induct with
  | case1 => rfl
  | case2 c => exact snakeChars_of_not_capital (h c List.mem_cons_self) []
  | case3 c d cs hword ih =>
    obtain ⟨rfl, hd⟩ := hword
    obtain ⟨hcapital, hback⟩ := capital_of_small hd
    obtain ⟨-, hrest⟩ := List.forall_mem_cons.1 (List.forall_mem_cons.1 h).2
    rw [camelChars_word hd, snakeChars, if_pos hcapital, hback, ih hrest]
  | case4 c d cs hword ih =>
    obtain ⟨hc, hrest⟩ := List.forall_mem_cons.1 h
    rw [camelChars, if_neg hword, snakeChars_of_not_capital hc, ih hrest]

/-! ## Both ways -/

/-- The property of a property's column is the property. -/
theorem snakeToCamel_camelToSnake {property : String} (h : IsCamel property.toList) :
    snakeToCamel (camelToSnake property) = property := by
  unfold snakeToCamel camelToSnake
  rw [String.toList_ofList, camelChars_snakeChars h, String.ofList_toList]

/-- The column of a column's property is the column. -/
theorem camelToSnake_snakeToCamel {column : String} (h : Uncapitalized column.toList) :
    camelToSnake (snakeToCamel column) = column := by
  unfold snakeToCamel camelToSnake
  rw [String.toList_ofList, snakeChars_camelChars h, String.ofList_toList]

theorem isCamel_snakeToCamel (column : String) : IsCamel (snakeToCamel column).toList := by
  rw [snakeToCamel, String.toList_ofList]
  exact isCamel_camelChars column.toList

theorem uncapitalized_camelToSnake (property : String) :
    Uncapitalized (camelToSnake property).toList := by
  rw [camelToSnake, String.toList_ofList]
  exact uncapitalized_snakeChars property.toList

theorem snakeToCamel_camelToSnake_iff {property : String} :
    snakeToCamel (camelToSnake property) = property ↔ IsCamel property.toList := by
  refine ⟨fun h => ?_, snakeToCamel_camelToSnake⟩
  rw [← h]
  exact isCamel_snakeToCamel _

theorem camelToSnake_snakeToCamel_iff {column : String} :
    camelToSnake (snakeToCamel column) = column ↔ Uncapitalized column.toList := by
  refine ⟨fun h => ?_, camelToSnake_snakeToCamel⟩
  rw [← h]
  exact uncapitalized_camelToSnake _

/-- Properties have columns of their own. -/
theorem camelToSnake_injOn : Set.InjOn camelToSnake {property | IsCamel property.toList} := by
  intro name hname other hother hcolumn
  rw [← snakeToCamel_camelToSnake hname, hcolumn, snakeToCamel_camelToSnake hother]

/-- Columns without capitals have properties of their own. -/
theorem snakeToCamel_injOn : Set.InjOn snakeToCamel {column | Uncapitalized column.toList} := by
  intro column hcolumn other hother hproperty
  rw [← camelToSnake_snakeToCamel hcolumn, hproperty, camelToSnake_snakeToCamel hother]

end PolyQuery.Naming
