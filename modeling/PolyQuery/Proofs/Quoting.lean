import PolyQuery.Proofs.Steady

/-! Names between quotes. A statement is read from the left, and at each character it is known
whether that character stands between quotes. A name that is written for any text reads back as that
text, and a dotted name falls into its parts at the points that stand outside of quotes. -/
namespace PolyQuery

/-- Where a reader of a statement stands: outside of quotes, between the quotes of a name or of a
text, or right behind a closing quote, which the same character once more would take back. -/
inductive Place where
  | outside
  | inside (closing : Char)
  | behind (closing : Char)
  deriving DecidableEq, Repr

namespace Place

/-- Between quotes. -/
def isInside : Place → Bool
  | inside _ => true
  | _ => false

/-- The place behind a character that stands outside of quotes. -/
def enter (d : Dialect) (c : Char) : Place :=
  if c = d.quotes.1 then inside d.quotes.2 else if c = '\'' then inside '\'' else outside

/-- The place behind a character. -/
def step (d : Dialect) : Place → Char → Place
  | outside, c => enter d c
  | inside q, c => if c = q then behind q else inside q
  | behind q, c => if c = q then inside q else enter d c

/-- The stretches of a text between the points that stand outside of quotes. -/
def stretches (d : Dialect) : Place → List Char → List (List Char)
  | _, [] => [[]]
  | p, c :: cs =>
    if c = '.' && !p.isInside then [] :: stretches d (p.step d c) cs
    else (stretches d (p.step d c) cs).modifyHead (c :: ·)

end Place

namespace Quoting

/-- What stands between two quotes, with every doubled closing quote read as one. A closing quote
that stands alone would have ended the name, so there is none. -/
def unquoted? (closing : Char) : List Char → Option (List Char)
  | [] => some []
  | [c] => if c = closing then none else some [c]
  | c :: e :: cs =>
    if c = closing then
      if e = closing then (unquoted? closing cs).map (closing :: ·) else none
    else (unquoted? closing (e :: cs)).map (c :: ·)

/-- Each closing quote twice. -/
def doubled (closing : Char) (cs : List Char) : List Char :=
  cs.flatMap fun c => if c = closing then [c, c] else [c]

theorem unquoted?_cons {closing c : Char} (h : c ≠ closing) (cs : List Char) :
    unquoted? closing (c :: cs) = (unquoted? closing cs).map (c :: ·) := by
  cases cs with
  | nil => simp [unquoted?, h]
  | cons e cs => simp [unquoted?, h]

theorem unquoted?_doubled (closing : Char) (cs : List Char) :
    unquoted? closing (doubled closing cs) = some cs := by
  induction cs with
  | nil => rfl
  | cons c cs ih =>
    have hstep : doubled closing (c :: cs) =
        (if c = closing then [c, c] else [c]) ++ doubled closing cs := List.flatMap_cons
    by_cases h : c = closing
    · rw [hstep, if_pos h, List.cons_append, List.cons_append, List.nil_append, unquoted?,
        if_pos h, if_pos h, ih, h]
      rfl
    · rw [hstep, if_neg h, List.cons_append, List.nil_append, unquoted?_cons h, ih]
      rfl

/-- A letter from `A` to `Z` or `a` to `z`, or an underscore. -/
def IsLetter (c : Char) : Prop := c.isAlpha = true ∨ c = '_'

/-- The same word but for the case of its letters. -/
def SameWord (a b : String) : Prop := a.toList.map Char.toUpper = b.toList.map Char.toUpper

/-- A part of a dotted name. -/
inductive Part where
  | star
  | name (s : List Char)
  deriving DecidableEq, Repr

/-- The part that a text between two points is. -/
def Part.of (cs : List Char) : Part := if cs = ['*'] then .star else .name cs

end Quoting

open Quoting

namespace Dialect
variable (d : Dialect)

/-- A name that means itself where it stands without quotes: a letter or an underscore, then letters,
digits and underscores, no reserved word in any case, and no capital where names without quotes are
read in small letters. -/
structure Bare (name : String) : Prop where
  spelled : ∃ first rest, name.toList = first :: rest ∧ IsLetter first ∧
    ∀ c ∈ rest, IsLetter c ∨ c.isDigit = true
  free : ∀ word ∈ d.backend.reservedWords, ¬ SameWord name word
  small : d.backend = .postgres → ∀ c ∈ name.toList, c.isUpper = false

/-- A text that is one name between the quotes of the dialect. -/
def IsQuoted (name text : String) : Prop :=
  ∃ body, text.toList = d.quotes.1 :: body ++ [d.quotes.2] ∧
    unquoted? d.quotes.2 body = some name.toList

/-- Reads a stretch of a dotted name: a star, a name between quotes, or a name without them. -/
def readPart? (cs : List Char) : Option Part :=
  match cs with
  | [] => none
  | c :: rest =>
    if rest = [] ∧ c = '*' then some .star
    else if c = d.quotes.1 then
      if rest.getLast? = some d.quotes.2 then (unquoted? d.quotes.2 rest.dropLast).map .name
      else none
    else if isPlainName cs then some (.name cs)
    else none

/-- Reads a dotted name, cut at its points outside of quotes. -/
def readDotted? (text : String) : Option (List Part) :=
  (Place.outside.stretches d text.toList).mapM d.readPart?

end Dialect

namespace Quoting
variable {d : Dialect}

/-! ### Plain names and reserved words -/

theorem isCapital_eq (c : Char) : Text.isCapital c = c.isUpper := by
  have hupper : c.isUpper = decide (c.val ≥ 'A'.val ∧ c.val ≤ 'Z'.val) := rfl
  rw [Bool.eq_iff_iff, Text.isCapital, hupper, Bool.and_eq_true]
  simp only [decide_eq_true_eq]
  rfl

theorem isSmall_eq (c : Char) : Text.isSmall c = c.isLower := by
  have hlower : c.isLower = (decide (c.val ≥ 'a'.val) && decide (c.val ≤ 'z'.val)) := rfl
  rw [Bool.eq_iff_iff, Text.isSmall, hlower, Bool.and_eq_true, Bool.and_eq_true]
  simp only [decide_eq_true_eq]
  rfl

theorem isDigit_eq (c : Char) : Number.isDigit c = c.isDigit := by
  rw [Bool.eq_iff_iff, Number.isDigit, Char.isDigit, Bool.and_eq_true, Bool.and_eq_true]
  simp only [decide_eq_true_eq]
  rfl

theorem isNameStart_iff {c : Char} : Dialect.isNameStart c = true ↔ IsLetter c := by
  have halpha : c.isAlpha = (c.isUpper || c.isLower) := rfl
  rw [Dialect.isNameStart, IsLetter, isCapital_eq, isSmall_eq, halpha, Bool.or_eq_true, beq_iff_eq]

theorem isNameChar_iff {c : Char} :
    Dialect.isNameChar c = true ↔ IsLetter c ∨ c.isDigit = true := by
  rw [Dialect.isNameChar, Bool.or_eq_true, isNameStart_iff, isDigit_eq]

theorem isPlainName_iff {cs : List Char} : Dialect.isPlainName cs = true ↔
    ∃ first rest, cs = first :: rest ∧ IsLetter first ∧ ∀ c ∈ rest, IsLetter c ∨ c.isDigit = true := by
  cases cs with
  | nil => simp [Dialect.isPlainName]
  | cons c cs =>
    rw [Dialect.isPlainName, Bool.and_eq_true, isNameStart_iff, List.all_eq_true]
    simp only [isNameChar_iff]
    constructor
    · intro h
      exact ⟨c, cs, rfl, h⟩
    · intro h
      obtain ⟨_, _, heq, h⟩ := h
      cases heq
      exact h

/-- Among the characters of plain names upper case is that of single letters. -/
theorem upperChar_nameChar {c : Char} (h : Dialect.isNameChar c = true) :
    Text.upperChar c = [c.toUpper] := by
  -- all of them are below 128, where the two agree code by code
  have hcodes : ∀ n < 128, Text.upperChar (Char.ofNat n) = [(Char.ofNat n).toUpper] := by
    decide +kernel
  have hlow : c.toNat < 128 := by
    have hrange := Scan.nat_of_isNameChar h
    omega
  have hc := hcodes c.toNat hlow
  rwa [Char.ofNat_toNat] at hc

theorem toList_upper {name : String} (h : ∀ c ∈ name.toList, Dialect.isNameChar c = true) :
    (Text.upper name).toList = name.toList.map Char.toUpper := by
  rw [Text.upper, String.toList_ofList]
  generalize name.toList = cs at h
  induction cs with
  | nil => rfl
  | cons c cs ih =>
    rw [List.flatMap_cons, upperChar_nameChar (h c List.mem_cons_self),
      ih fun e he => h e (List.mem_cons_of_mem _ he)]
    rfl

theorem map_toUpper_reserved {word : String} (h : word ∈ d.backend.reservedWords) :
    word.toList.map Char.toUpper = word.toList := by
  have hall : ∀ b : Backend, ∀ w ∈ b.reservedWords, w.toList.map Char.toUpper = w.toList := by
    intro b
    cases b <;> decide +kernel
  exact hall _ _ h

theorem isReserved_iff {name : String} (h : Dialect.isPlainName name.toList = true) :
    d.isReserved name = true ↔ ∃ word ∈ d.backend.reservedWords, SameWord name word := by
  have hchars : ∀ c ∈ name.toList, Dialect.isNameChar c = true :=
    List.all_eq_true.1 (Scan.isCalm_of_plain h).1
  rw [Dialect.isReserved, List.contains_iff_mem]
  constructor
  · intro hmem
    refine ⟨_, hmem, ?_⟩
    rw [SameWord, map_toUpper_reserved hmem, toList_upper hchars]
  · intro hsame
    obtain ⟨word, hmem, hword⟩ := hsame
    have heq : Text.upper name = word := by
      apply String.toList_injective
      rw [toList_upper hchars, hword, map_toUpper_reserved hmem]
    exact heq ▸ hmem

theorem needsQuotes_eq_false_iff {name : String} : d.needsQuotes name = false ↔ d.Bare name := by
  have hany : (name.toList.any Text.isCapital) = false ↔ ∀ c ∈ name.toList, c.isUpper = false := by
    simp [isCapital_eq]
  cases hplain : Dialect.isPlainName name.toList with
  | false =>
    -- a name that is not plain is not bare, and has quotes whatever else holds of it
    have hnot : ¬ d.Bare name := by
      intro hbare
      rw [isPlainName_iff.2 hbare.spelled] at hplain
      cases hplain
    simp [Dialect.needsQuotes, hplain, hnot]
  | true =>
    have hreserved : d.isReserved name = false ↔
        ∀ word ∈ d.backend.reservedWords, ¬ SameWord name word := by
      rw [← Bool.not_eq_true, isReserved_iff hplain]
      simp only [not_exists, not_and]
    rw [Dialect.needsQuotes, hplain, Bool.not_true, Bool.false_or, Bool.or_eq_false_iff, hreserved,
      Bool.and_eq_false_iff, hany, beq_eq_false_iff_ne]
    constructor
    · intro h
      exact ⟨isPlainName_iff.1 hplain, h.1, fun hp => h.2.resolve_left fun hne => hne hp⟩
    · intro h
      by_cases hp : d.backend = .postgres
      · exact ⟨h.free, .inr (h.small hp)⟩
      · exact ⟨h.free, .inl hp⟩

/-! ### One name -/

theorem toList_quoted (name : String) :
    (d.quoted name).toList = d.quotes.1 :: doubled d.quotes.2 name.toList ++ [d.quotes.2] :=
  Scan.toList_quoted name

theorem isQuoted_quoted (name : String) : d.IsQuoted name (d.quoted name) :=
  ⟨_, toList_quoted name, unquoted?_doubled _ _⟩

theorem quoteIdentifier_cases (name : String) :
    (d.quoteIdentifier name = name ∧ d.Bare name) ∨
      (d.quoteIdentifier name = d.quoted name ∧ ¬ d.Bare name) := by
  rw [Dialect.quoteIdentifier, ← needsQuotes_eq_false_iff]
  cases d.needsQuotes name with
  | false => exact .inl ⟨rfl, rfl⟩
  | true => exact .inr ⟨rfl, Bool.noConfusion⟩

/-- A quoted name is read as the name. -/
theorem readPart?_quoted (name : String) :
    d.readPart? (d.quoted name).toList = some (.name name.toList) := by
  have hstar : d.quotes.1 ≠ '*' := by
    rcases Scan.quotes_cases d with h | h | h <;> rw [h] <;> decide
  have hlast : (doubled d.quotes.2 name.toList ++ [d.quotes.2]).getLast? = some d.quotes.2 :=
    List.getLast?_concat
  -- it begins with the opening quote, ends with the closing one, and its body is doubled
  rw [toList_quoted, List.cons_append, Dialect.readPart?, if_neg fun h => hstar h.2, if_pos rfl,
    if_pos hlast, List.dropLast_concat, unquoted?_doubled]
  rfl

/-- A name that goes without quotes is read as itself. -/
theorem readPart?_bare {name : String} (h : d.Bare name) :
    d.readPart? name.toList = some (.name name.toList) := by
  have hplain := isPlainName_iff.2 h.spelled
  obtain ⟨first, rest, heq, hfirst, -⟩ := h.spelled
  have hchar : Dialect.isNameChar first = true := isNameChar_iff.2 (.inl hfirst)
  have hquote : first ≠ d.quotes.1 := (Scan.ne_quotes (.inl (Scan.isCalm_of_isNameChar hchar))).1
  have hstar : first ≠ '*' := by
    rintro rfl
    cases hchar
  rw [heq] at hplain ⊢
  rw [Dialect.readPart?, if_neg fun h => hstar h.2, if_neg hquote, if_pos hplain]

theorem readPart?_identifier (name : String) :
    d.readPart? (d.quoteIdentifier name).toList = some (.name name.toList) := by
  rcases quoteIdentifier_cases (d := d) name with ⟨heq, hbare⟩ | ⟨heq, -⟩
  · rw [heq]
    exact readPart?_bare hbare
  · rw [heq]
    exact readPart?_quoted name

theorem quoteIdentifier_injective : Function.Injective d.quoteIdentifier := by
  intro a b h
  -- what is written for a name reads back as the name
  have hread : some (Part.name a.toList) = some (Part.name b.toList) := by
    rw [← readPart?_identifier (d := d) a, h, readPart?_identifier]
  exact String.toList_injective (Part.name.inj (Option.some.inj hread))

/-! ### Points outside of quotes -/

/-- A text that leads from a place to another and has no point outside of quotes. -/
def Leads (d : Dialect) (p : Place) (cs : List Char) (q : Place) : Prop :=
  ∀ rest, p.stretches d (cs ++ rest) = (q.stretches d rest).modifyHead (cs ++ ·)

theorem Leads.nil (p : Place) : Leads d p [] p := by
  intro rest
  rw [List.nil_append]
  cases p.stretches d rest with
  | nil => rfl
  | cons s ss => rfl

theorem Leads.append {p q r : Place} {cs es : List Char} (h : Leads d p cs q)
    (h' : Leads d q es r) : Leads d p (cs ++ es) r := by
  intro rest
  rw [List.append_assoc, h, h', List.modifyHead_modifyHead]
  congr 1
  funext s
  exact (List.append_assoc cs es s).symm

theorem Leads.char {p : Place} {c : Char} (h : c ≠ '.' ∨ p.isInside = true) :
    Leads d p [c] (p.step d c) := by
  have hpoint : (c = '.' && !p.isInside) = false := by
    rcases h with h | h
    · simp [h]
    · simp [h]
  intro rest
  rw [List.singleton_append, Place.stretches, hpoint]
  rfl

/-- Between quotes a closing quote that stands twice leads back between the quotes. -/
theorem leads_doubled {closing : Char} (h : closing ≠ '.') (cs : List Char) :
    Leads d (.inside closing) (doubled closing cs) (.inside closing) := by
  induction cs with
  | nil => exact .nil _
  | cons c cs ih =>
    have hchar : Leads d (.inside closing) (if c = closing then [c, c] else [c])
        (.inside closing) := by
      by_cases hc : c = closing
      -- the first of two closing quotes leads behind the quotes, the second one back
      · have hbehind : Leads d (.inside closing) [c] (.behind closing) := by
          have hstep := Leads.char (d := d) (p := .inside closing) (c := c) (.inr rfl)
          rwa [Place.step, if_pos hc] at hstep
        have hback : Leads d (.behind closing) [c] (.inside closing) := by
          have hstep := Leads.char (d := d) (p := .behind closing) (c := c) (.inl (hc ▸ h))
          rwa [Place.step, if_pos hc] at hstep
        rw [if_pos hc]
        exact hbehind.append hback
      · have hstep := Leads.char (d := d) (p := .inside closing) (c := c) (.inr rfl)
        rw [Place.step, if_neg hc] at hstep
        rwa [if_neg hc]
    have hall := hchar.append ih
    rwa [doubled, List.flatMap_cons]

theorem ne_point (d : Dialect) : d.quotes.1 ≠ '.' ∧ d.quotes.2 ≠ '.' := by
  rcases Scan.quotes_cases d with h | h | h <;> rw [h] <;> decide

theorem leads_quoted (name : String) :
    Leads d .outside (d.quoted name).toList (.behind d.quotes.2) := by
  have hopen : Leads d .outside [d.quotes.1] (.inside d.quotes.2) := by
    have hstep := Leads.char (d := d) (p := .outside) (.inl (ne_point d).1)
    rwa [Place.step, Place.enter, if_pos rfl] at hstep
  have hclose : Leads d (.inside d.quotes.2) [d.quotes.2] (.behind d.quotes.2) := by
    have hstep := Leads.char (d := d) (p := .inside d.quotes.2) (.inl (ne_point d).2)
    rwa [Place.step, if_pos rfl] at hstep
  rw [toList_quoted]
  exact (hopen.append (leads_doubled (ne_point d).2 name.toList)).append hclose

/-- Characters that are no quotes lead nowhere. -/
theorem leads_outside {cs : List Char}
    (h : ∀ c ∈ cs, c ≠ '.' ∧ c ≠ d.quotes.1 ∧ c ≠ '\'') : Leads d .outside cs .outside := by
  induction cs with
  | nil => exact .nil _
  | cons c cs ih =>
    obtain ⟨hpoint, hquote, hsingle⟩ := h c List.mem_cons_self
    have hchar := Leads.char (d := d) (p := .outside) (.inl hpoint)
    rw [Place.step, Place.enter, if_neg hquote, if_neg hsingle] at hchar
    exact hchar.append (ih fun e he => h e (List.mem_cons_of_mem _ he))

/-- Outside of quotes, where a point parts what is before it from what is behind it. -/
def Parts (d : Dialect) (p : Place) : Prop := p.isInside = false ∧ p.step d '.' = .outside

theorem parts_outside : Parts d .outside := by
  refine ⟨rfl, ?_⟩
  rw [Place.step, Place.enter, if_neg (ne_point d).1.symm, if_neg (by decide)]

theorem parts_behind : Parts d (.behind d.quotes.2) := by
  refine ⟨rfl, ?_⟩
  rw [Place.step, if_neg (ne_point d).2.symm]
  exact parts_outside.2

theorem leads_identifier (name : String) :
    ∃ q, Parts d q ∧ Leads d .outside (d.quoteIdentifier name).toList q := by
  rcases quoteIdentifier_cases (d := d) name with ⟨heq, hbare⟩ | ⟨heq, -⟩
  · have hchars : ∀ c ∈ name.toList, Dialect.isNameChar c = true :=
      List.all_eq_true.1 (Scan.isCalm_of_plain (isPlainName_iff.2 hbare.spelled)).1
    refine ⟨.outside, parts_outside, ?_⟩
    rw [heq]
    refine leads_outside fun c hc => ?_
    have hchar := hchars c hc
    refine ⟨?_, (Scan.ne_quotes (.inl (Scan.isCalm_of_isNameChar hchar))).1, ?_⟩
    · rintro rfl
      cases hchar
    · rintro rfl
      cases hchar
  · refine ⟨.behind d.quotes.2, parts_behind, ?_⟩
    rw [heq]
    exact leads_quoted name

theorem stretches_intercalate {texts : List String} (hne : texts ≠ [])
    (h : ∀ t ∈ texts, ∃ q, Parts d q ∧ Leads d .outside t.toList q) :
    Place.outside.stretches d (".".intercalate texts).toList = texts.map String.toList := by
  induction texts with
  | nil => exact absurd rfl hne
  | cons t ts ih =>
    obtain ⟨q, ⟨hsettled, hpoint⟩, hlead⟩ := h t List.mem_cons_self
    -- the first part leads to a place where its point cuts, and the others follow from outside
    cases ts with
    | nil =>
      have hend := hlead []
      rwa [List.append_nil, Place.stretches, List.modifyHead_cons, List.append_nil] at hend
    | cons u us =>
      have hrest := ih (List.cons_ne_nil _ _) fun v hv => h v (List.mem_cons_of_mem _ hv)
      have htext : (".".intercalate (t :: u :: us)).toList =
          t.toList ++ '.' :: (".".intercalate (u :: us)).toList := by
        have hdot : ".".toList = ['.'] := String.toList_ofList
        rw [String.intercalate_cons_cons, String.toList_append, String.toList_append, hdot,
          List.append_assoc]
        rfl
      have hcut : ('.' = '.' && !q.isInside) = true := by simp [hsettled]
      rw [htext, hlead, Place.stretches, if_pos hcut, hpoint, hrest]
      simp

/-! ### Dotted names -/

theorem dottedParts_eq (cs : List Char) : Dialect.dottedParts cs = cs.splitOn '.' := by
  induction cs with
  | nil => rfl
  | cons c cs ih =>
    rw [Dialect.dottedParts, List.splitOn_cons_eq_if_modifyHead, ih]
    by_cases hc : c = '.'
    · rw [if_pos hc, if_pos (by simp [hc])]
    · rw [if_neg hc, if_neg (by simp [hc])]
      cases hparts : cs.splitOn '.' with
      | nil => exact absurd hparts (List.splitOn_ne_nil '.' cs)
      | cons p ps => rfl

/-- The text of a part of a dotted name. -/
def partText (d : Dialect) (cs : List Char) : String :=
  if cs = ['*'] then "*" else d.quoteIdentifier (String.ofList cs)

theorem quoteQualified_eq (name : String) :
    d.quoteQualified name = ".".intercalate ((name.toList.splitOn '.').map (partText d)) := by
  rw [Dialect.quoteQualified, dottedParts_eq]
  congr 2
  funext cs
  have hstar : String.ofList cs = "*" ↔ cs = ['*'] := by
    rw [show "*" = String.ofList ['*'] from rfl, String.ofList_inj]
  dsimp only
  by_cases h : cs = ['*']
  · rw [if_pos (hstar.2 h), partText, if_pos h, hstar.2 h]
  · rw [if_neg fun hs => h (hstar.1 hs), partText, if_neg h]

theorem leads_partText (cs : List Char) :
    ∃ q, Parts d q ∧ Leads d .outside (partText d cs).toList q := by
  rw [partText]
  split
  · refine ⟨.outside, parts_outside, ?_⟩
    have hcalm := Scan.ne_quotes (d := d) (c := '*') (.inl rfl)
    rw [show "*".toList = ['*'] from String.toList_ofList]
    refine leads_outside fun c hc => ?_
    rw [List.mem_singleton.1 hc]
    exact ⟨by decide, hcalm.1, by decide⟩
  · exact leads_identifier _

theorem readPart?_partText (cs : List Char) :
    d.readPart? (partText d cs).toList = some (.of cs) := by
  rw [partText, Part.of]
  split
  · rfl
  · rw [readPart?_identifier, String.toList_ofList]

theorem stretches_quoteQualified (name : String) :
    Place.outside.stretches d (d.quoteQualified name).toList =
      (name.toList.splitOn '.').map fun cs => (partText d cs).toList := by
  have hne : (name.toList.splitOn '.').map (partText d) ≠ [] := by
    intro h
    exact List.splitOn_ne_nil '.' name.toList (List.map_eq_nil_iff.1 h)
  rw [quoteQualified_eq, stretches_intercalate hne, List.map_map]
  · rfl
  · intro t ht
    obtain ⟨cs, -, rfl⟩ := List.mem_map.1 ht
    exact leads_partText cs

theorem readDotted?_quoteQualified (name : String) :
    d.readDotted? (d.quoteQualified name) = some ((name.toList.splitOn '.').map .of) := by
  rw [Dialect.readDotted?, stretches_quoteQualified]
  induction name.toList.splitOn '.' with
  | nil => rfl
  | cons cs css ih =>
    rw [List.map_cons, List.mapM_cons, ih, readPart?_partText]
    rfl

end Quoting

/-- A name stands in a statement as itself, and then it means itself without quotes, or as one name
between quotes that reads back as it. So names that are written alike are the same. A dotted name
falls at its points outside of quotes into its parts, each written in that way, and only a part that
is a star stays as it is. -/
theorem Dialect.quoteIdentifier_reads_back (d : Dialect) :
    (∀ name, (d.quoteIdentifier name = name ∧ d.Bare name) ∨
      (d.IsQuoted name (d.quoteIdentifier name) ∧ ¬ d.Bare name)) ∧
    Function.Injective d.quoteIdentifier ∧
    ∀ name, d.readDotted? (d.quoteQualified name) = some ((name.toList.splitOn '.').map Part.of) ∧
      Place.outside.stretches d (d.quoteQualified name).toList =
        (name.toList.splitOn '.').map fun cs =>
          if cs = ['*'] then cs else (d.quoteIdentifier (String.ofList cs)).toList := by
  refine ⟨fun name => ?_, quoteIdentifier_injective, fun name => ⟨readDotted?_quoteQualified name, ?_⟩⟩
  · rcases quoteIdentifier_cases (d := d) name with hbare | ⟨heq, hbare⟩
    · exact .inl hbare
    · rw [heq]
      exact .inr ⟨isQuoted_quoted name, hbare⟩
  · rw [stretches_quoteQualified]
    -- a star stays as it is; every other part is quoted on its own
    congr 1
    funext cs
    rw [partText]
    split
    · next h => rw [h]; rfl
    · rfl

end PolyQuery
