import Mathlib.Tactic.SplitIfs
import PolyQuery.Proofs.Parameters
import PolyQuery.Proofs.Token

/-! Raw text with its values. Raw text is read as literals in single quotes with other text between
them, and each question mark of the other text is the place of a value. The text is cut at its
places and nowhere else, and the values stand in its places in their order: `raw_spliced`. -/
namespace PolyQuery.Raw

/-! ## Literals and places -/

/-- A character of raw text, and whether it belongs to a literal. -/
structure Mark where
  char : Char
  quoted : Bool
  deriving DecidableEq

/-- The place of a value. -/
def Mark.place : Mark := ⟨'?', false⟩

/-- Raw text from a point in or outside a literal. A quote begins a literal. Inside it two quotes
are one of its characters, and a quote alone ends it; a literal that nothing ends goes to the end of
the text. -/
def marks : Bool → List Char → List Mark
  | _, [] => []
  | false, c :: cs => if c = '\'' then ⟨c, true⟩ :: marks true cs else ⟨c, false⟩ :: marks false cs
  | true, [c] => [⟨c, true⟩]
  | true, c :: e :: cs =>
    if c = '\'' then
      if e = '\'' then ⟨c, true⟩ :: ⟨e, true⟩ :: marks true cs
      else ⟨c, true⟩ :: marks false (e :: cs)
    else ⟨c, true⟩ :: marks true (e :: cs)

/-- What stands before, between and behind the places. -/
def cut : List Mark → List (List Char)
  | [] => [[]]
  | m :: ms => if m = .place then [] :: cut ms else (cut ms).modifyHead (m.char :: ·)

/-- The text with the dialect's placeholders in its places, behind as many others. -/
def filled (d : Dialect) : Nat → List Mark → List Char
  | _, [] => []
  | others, m :: ms =>
    if m = .place then (d.placeholder (others + 1)).toList ++ filled d (others + 1) ms
    else m.char :: filled d others ms

/-- Reading the text keeps its characters. -/
theorem map_char_marks (inside : Bool) (cs : List Char) :
    (marks inside cs).map Mark.char = cs := by
  induction inside, cs using marks.induct with
  | case1 inside => cases inside <;> rfl
  | case2 cs ih => rw [marks, if_pos rfl, List.map_cons, ih]
  | case3 c cs hquote ih => rw [marks, if_neg hquote, List.map_cons, ih]
  | case4 c => rfl
  | case5 cs ih => rw [marks, if_pos rfl, if_pos rfl, List.map_cons, List.map_cons, ih]
  | case6 e cs hquote ih => rw [marks, if_pos rfl, if_neg hquote, List.map_cons, ih]
  | case7 c e cs hquote ih => rw [marks, if_neg hquote, List.map_cons, ih]

/-! ## Pieces between places -/

theorem cut_ne_nil (ms : List Mark) : cut ms ≠ [] := by
  induction ms with
  | nil => exact List.cons_ne_nil _ _
  | cons m ms ih =>
    rw [cut]
    split_ifs
    · exact List.cons_ne_nil _ _
    · exact fun hnil => ih (List.modifyHead_eq_nil_iff.1 hnil)

theorem length_cut (ms : List Mark) : (cut ms).length = ms.count .place + 1 := by
  induction ms with
  | nil => rfl
  | cons m ms ih =>
    rw [cut]
    split_ifs with hplace
    · rw [hplace, List.length_cons, ih, List.count_cons_self]
    · rw [List.length_modifyHead, ih, List.count_cons_of_ne hplace]

/-- Question marks between the pieces make the text again. -/
theorem intercalate_cut (ms : List Mark) :
    ['?'].intercalate (cut ms) = ms.map Mark.char := by
  induction ms with
  | nil => rfl
  | cons m ms ih =>
    obtain ⟨piece, pieces, hcut⟩ := List.exists_cons_of_ne_nil (cut_ne_nil ms)
    rw [hcut] at ih
    rw [cut, List.map_cons, ← ih, hcut]
    split_ifs with hplace
    · rw [hplace]
      rfl
    · cases pieces <;> rfl

/-- What the text is cut into before a character that is no place, when the rest is cut. -/
theorem split_cons {quoted : Bool} {c : Char} {cs : List Char} {ms : List Mark}
    (hplace : ¬ (c = '?' ∧ quoted = false))
    (hrest : split (if c = '\'' then !quoted else quoted) cs = cut ms) :
    split quoted (c :: cs) = (cut ms).modifyHead (c :: ·) := by
  obtain ⟨piece, pieces, hcut⟩ := List.exists_cons_of_ne_nil (cut_ne_nil ms)
  rw [split, if_neg hplace]
  dsimp only
  rw [hrest, hcut]
  rfl

/-- A text is cut at its places: two quotes inside a literal leave it and enter it again, and
between them there is no place. -/
theorem split_eq_cut (quoted : Bool) (cs : List Char) :
    split quoted cs = cut (marks quoted cs) := by
  have hliteral (c : Char) : (⟨c, true⟩ : Mark) ≠ .place := by
    intro h
    cases congrArg Mark.quoted h
  have hcut (m : Mark) (ms : List Mark) (hm : m ≠ .place) :
      cut (m :: ms) = (cut ms).modifyHead (m.char :: ·) := if_neg hm
  induction quoted, cs using marks.induct with
  | case1 quoted => cases quoted <;> rfl
  | case2 cs ih =>
    rw [marks, if_pos rfl, hcut _ _ (hliteral _)]
    exact split_cons (by decide) ih
  | case3 c cs hquote ih =>
    rw [marks, if_neg hquote]
    by_cases hplace : c = '?'
    · rw [hplace, split, if_pos ⟨rfl, rfl⟩, ih]
      rfl
    · have hmark : (⟨c, false⟩ : Mark) ≠ .place := fun h => hplace (congrArg Mark.char h)
      rw [hcut _ _ hmark]
      exact split_cons (fun h => hplace h.1) (by rw [if_neg hquote]; exact ih)
  | case4 c =>
    rw [marks, hcut _ _ (hliteral c)]
    exact split_cons (by simp) rfl
  | case5 cs ih =>
    rw [marks, if_pos rfl, if_pos rfl, hcut _ _ (hliteral _), ← hcut _ _ (hliteral _)]
    -- the first quote ends the literal, the second one begins it again
    have hsecond : split false ('\'' :: cs) = cut (⟨'\'', true⟩ :: marks true cs) := by
      rw [hcut _ _ (hliteral _)]
      exact split_cons (by decide) ih
    exact split_cons (by simp) hsecond
  | case6 e cs hquote ih =>
    rw [marks, if_pos rfl, if_neg hquote, hcut _ _ (hliteral _)]
    exact split_cons (by simp) ih
  | case7 c e cs hquote ih =>
    rw [marks, if_neg hquote, hcut _ _ (hliteral _)]
    exact split_cons (by simp) (by rw [if_neg hquote]; exact ih)

/-! ## Values in their places -/

variable {d : Dialect}

theorem chars_modifyHead (c : Char) {pieces : List (List Char)} (hne : pieces ≠ [])
    (values : List Value) (n : Nat) :
    (interleave (pieces.modifyHead (c :: ·)) values).chars d n =
      c :: (interleave pieces values).chars d n := by
  obtain ⟨piece, rest, rfl⟩ := List.exists_cons_of_ne_nil hne
  cases values with
  | nil => simp [interleave, Fragment.chars_text]
  | cons v vs => simp [interleave, Fragment.chars_append, Fragment.chars_text]

/-- The pieces with values between them are the text with its places filled. -/
theorem chars_interleave (ms : List Mark) (values : List Value)
    (hcount : ms.count .place = values.length) (n : Nat) :
    (interleave (cut ms) values).chars d n = filled d n ms := by
  induction ms generalizing values n with
  | nil =>
    obtain rfl := List.length_eq_zero_iff.1 hcount.symm
    rw [cut, interleave, Fragment.chars_text]
    exact String.toList_ofList
  | cons m ms ih =>
    rw [cut, filled]
    split_ifs with hplace
    · rw [hplace, List.count_cons_self] at hcount
      cases values with
      | nil => cases hcount
      | cons v vs =>
        have hrest := ih vs (Nat.succ.inj hcount) (n + 1)
        simp [interleave, Fragment.chars_append, Fragment.chars_text, Fragment.chars_bind, hrest]
    · rw [List.count_cons_of_ne hplace] at hcount
      rw [chars_modifyHead m.char (cut_ne_nil ms), ih values hcount]

/-- Raw text is cut at the question marks outside its literals. With as many values as there are
such marks, and only then, it is written with the placeholders of the values in place of the marks,
in their order and numbered behind all values before them. -/
theorem raw_spliced (d : Dialect) (before : Fragment) (sql : String) (values : List Value) :
    let read := marks false sql.toList
    let places := read.count .place
    read.map Mark.char = sql.toList ∧
    ['?'].intercalate (split false sql.toList) = sql.toList ∧
    (split false sql.toList).length = places + 1 ∧
    (places = values.length ∧ (∃ f, Sql.expr d (.raw sql values) = .ok f ∧
        (before ++ f).sql d =
          before.sql d ++ String.ofList (filled d before.bindings.length read) ∧
        (before ++ f).bindings = before.bindings ++ values.map Binding.plain) ∨
      places ≠ values.length ∧
        Sql.expr d (.raw sql values) = fault (.rawParameters places values.length)) := by
  intro read places
  have hchars : read.map Mark.char = sql.toList := map_char_marks false sql.toList
  have hsplit : split false sql.toList = cut read := split_eq_cut false sql.toList
  have hlength : (split false sql.toList).length = places + 1 := by
    rw [hsplit]
    exact length_cut read
  have hplaces : (split false sql.toList).length - 1 = places := by omega
  refine ⟨hchars, ?_, hlength, ?_⟩
  · rw [hsplit, intercalate_cut, hchars]
  rw [Sql.expr, fragment, hplaces]
  -- places and values are matched one by one, and counted before
  by_cases hcount : places = values.length
  · refine .inl ⟨hcount, interleave (cut read) values, ?_, ?_, ?_⟩
    · rw [if_pos hcount, hsplit]
    · apply String.toList_inj.1
      calc ((before ++ interleave (cut read) values).sql d).toList
          = before.chars d 0 ++
              (interleave (cut read) values).chars d before.bindings.length := by
            rw [Fragment.toList_sql, Fragment.chars_append, Nat.zero_add]
        _ = (before.sql d ++ String.ofList (filled d before.bindings.length read)).toList := by
            rw [chars_interleave read values hcount, String.toList_append, Fragment.toList_sql,
              String.toList_ofList]
    · have hpieces : (cut read).length - 1 = values.length := by
        rw [← hsplit, hplaces, hcount]
      rw [Fragment.bindings_append, Sql.bindings_interleave _ _ hpieces]
  · exact .inr ⟨hcount, if_neg hcount⟩

/-- A doubled quote does not end a literal: the first two marks here are text. -/
example : (marks false "a = 'why?' AND b = 'it''s ?' AND c = ?".toList).count .place = 1 := by
  decide

end PolyQuery.Raw
