import PolyQuery.Proofs.Alignment

/-! Statement text cut into tokens. The scanner goes over the characters once and remembers only the
token that it is in the middle of, so that a text is scanned by scanning its parts one after another.
A placeholder becomes a hole, whatever its number, and a keyword is known in any letter case. -/
namespace PolyQuery

/-- A word of the language that no bare name can be. -/
inductive Keyword where
  | or
  | and
  | not
  | like
  | is
  | null
  | in_
  | exists_
  | case_
  | when_
  | then_
  | else_
  | end_
  | distinct
  | with_
  | select
  | union
  | intersect
  | except
  deriving DecidableEq, Repr

namespace Keyword

/-- The word in capitals. -/
def text (d : Dialect) : Keyword → String
  | or => "OR"
  | and => "AND"
  | not => "NOT"
  | like => "LIKE"
  | is => "IS"
  | null => "NULL"
  | in_ => "IN"
  | exists_ => "EXISTS"
  | case_ => "CASE"
  | when_ => "WHEN"
  | then_ => "THEN"
  | else_ => "ELSE"
  | end_ => "END"
  | distinct => "DISTINCT"
  | with_ => "WITH"
  | select => "SELECT"
  | union => "UNION"
  | intersect => "INTERSECT"
  | except => d.setOperatorKeyword "EXCEPT"

/-- All keywords. -/
def all : List Keyword :=
  [or, and, not, like, is, null, in_, exists_, case_, when_, then_, else_, end_, distinct, with_,
    select, union, intersect, except]

/-- The keyword that a word is, in any letter case. -/
def ofWord? (d : Dialect) (w : String) : Option Keyword :=
  all.find? fun k => k.text d == Text.upper w

/-- A word that only queries have outside of brackets. -/
def isOfQuery : Keyword → Bool
  | with_ => true
  | select => true
  | union => true
  | intersect => true
  | except => true
  | _ => false

end Keyword

/-- A keyword, another bare word, a name between quotes, a placeholder, an operator sign or a
bracket. -/
inductive Token where
  | key (k : Keyword)
  | word (s : String)
  | name (s : String)
  | hole
  | mark (s : String)
  | comma
  | dot
  | opening
  | closing
  deriving DecidableEq, Repr

namespace Token

/-- An opening or closing bracket. -/
def isBracket : Token → Bool
  | opening => true
  | closing => true
  | _ => false

/-- The token that a bare word is. -/
def ofWord (d : Dialect) (w : String) : Token :=
  match Keyword.ofWord? d w with
  | some k => key k
  | none => word w

theorem isBracket_ofWord (d : Dialect) (w : String) : (ofWord d w).isBracket = false := by
  unfold ofWord
  cases Keyword.ofWord? d w with
  | none => rfl
  | some k => rfl

/-- The words of clauses, in capitals. -/
def clauseWords : List String :=
  ["FROM", "ORDER", "LIMIT", "OFFSET", "UNION", "INTERSECT", "EXCEPT", "MINUS", "TOP"]

end Token

/-- The token that the scanner is in the middle of, its characters last first. Behind a closing
quote another one would carry the name on. -/
inductive Pending where
  | nothing
  | word (back : List Char)
  | hole
  | mark (c : Char)
  | name (back : List Char)
  | closed (back : List Char)

namespace Pending

/-- The token, if the text ends here. -/
def flush (d : Dialect) : Pending → List Token
  | nothing => []
  | word back => [.ofWord d (String.ofList back.reverse)]
  | hole => [.hole]
  | mark c => [.mark (String.ofList [c])]
  | name back => [.name (String.ofList back.reverse)]
  | closed back => [.name (String.ofList back.reverse)]

/-- Not between quotes. -/
def Settled : Pending → Prop
  | name _ => False
  | _ => True

end Pending

namespace Scan

/-- A word that is no keyword of expressions on any backend. -/
abbrev IsBare (w : String) : Prop :=
  Dialect.isPlainName w.toList = true ∧ Keyword.ofWord? (.make .sqlite none) w = none ∧
    Keyword.ofWord? (.make .oracle none) w = none

/-- A word of statements that ends no clause. -/
abbrev IsSafe (w : String) : Prop :=
  Dialect.isPlainName w.toList = true ∧ Token.clauseWords.contains (Text.upper w) = false

/-- A character that begins a placeholder. -/
def isSigil (c : Char) : Bool := c == '?' || c == '$' || c == ':' || c == '@'

/-- Two signs that are one token together; two minus signs begin a comment. -/
def joinsMark (a b : Char) : Bool :=
  (a == '<' && (b == '=' || b == '>')) || (a == '>' && b == '=') || (a == '-' && b == '-')

/-- The characters that end every token before them and stay alone. -/
def separator : Char → Option (List Token)
  | ' ' => some []
  | ',' => some [.comma]
  | '.' => some [.dot]
  | '(' => some [.opening]
  | ')' => some [.closing]
  | _ => none

/-- A character outside of any token. -/
def begin (d : Dialect) (c : Char) : List Token × Pending :=
  if c = d.quotes.1 then ([], .name [])
  else match separator c with
    | some ts => (ts, .nothing)
    | none =>
      if Dialect.isNameChar c then ([], .word [c])
      else if isSigil c then ([], .hole)
      else ([], .mark c)

/-- A character behind the token that ends before it. -/
def after (d : Dialect) (p : Pending) (c : Char) : List Token × Pending :=
  (p.flush d ++ (begin d c).1, (begin d c).2)

/-- One character. -/
def step (d : Dialect) (p : Pending) (c : Char) : List Token × Pending :=
  match p with
  | .nothing => begin d c
  | .word back => if Dialect.isNameChar c then ([], .word (c :: back)) else after d p c
  | .hole => if Dialect.isNameChar c then ([], .hole) else after d p c
  | .mark a => if joinsMark a c then ([.mark (String.ofList [a, c])], .nothing) else after d p c
  | .name back => if c = d.quotes.2 then ([], .closed back) else ([], .name (c :: back))
  | .closed back => if c = d.quotes.2 then ([], .name (c :: back)) else after d p c

/-- The tokens that are complete after a text, and the one that is not. -/
def run (d : Dialect) (p : Pending) : List Char → List Token × Pending
  | [] => ([], p)
  | c :: cs =>
    ((step d p c).1 ++ (run d (step d p c).2 cs).1, (run d (step d p c).2 cs).2)

/-- The tokens of a text. -/
def tokens (d : Dialect) (cs : List Char) : List Token :=
  (run d .nothing cs).1 ++ (run d .nothing cs).2.flush d

variable {d : Dialect}

theorem run_append (p : Pending) (cs cs' : List Char) :
    run d p (cs ++ cs') =
      ((run d p cs).1 ++ (run d (run d p cs).2 cs').1, (run d (run d p cs).2 cs').2) := by
  induction cs generalizing p with
  | nil => rfl
  | cons c cs ih =>
    rw [List.cons_append, run, ih, run]
    simp only [List.append_assoc]

/-- A scan of a text, then of another one. -/
theorem run_append_of {p q r : Pending} {cs cs' : List Char} {ts us : List Token}
    (h : run d p cs = (ts, q)) (h' : run d q cs' = (us, r)) :
    run d p (cs ++ cs') = (ts ++ us, r) := by rw [run_append, h, h']

theorem quotes_cases (d : Dialect) :
    d.quotes = (Char.ofNat 96, Char.ofNat 96) ∨ d.quotes = ('[', ']') ∨ d.quotes = ('"', '"') := by
  unfold Dialect.quotes
  cases d.backend
  all_goals simp

theorem ne_quotes {c : Char} (h : isCalm c = true ∨ c = '(' ∨ c = ')') :
    c ≠ d.quotes.1 ∧ c ≠ d.quotes.2 := by
  have hne : c ≠ Char.ofNat 96 ∧ c ≠ '[' ∧ c ≠ ']' ∧ c ≠ '"' := by
    rcases h with h | rfl | rfl
    · simp only [isCalm, Bool.and_eq_true, bne_iff_ne] at h
      obtain ⟨⟨⟨⟨_, h4⟩, h5⟩, h6⟩, h7⟩ := h
      refine ⟨fun h => h7 ?_, h5, h6, h4⟩
      rw [h]
      rfl
    · decide
    · decide
  obtain ⟨h96, hopen, hclose, hdouble⟩ := hne
  rcases quotes_cases d with hq | hq | hq
  · rw [hq]; exact ⟨h96, h96⟩
  · rw [hq]; exact ⟨hopen, hclose⟩
  · rw [hq]; exact ⟨hdouble, hdouble⟩

theorem nat_of_isNameChar {c : Char} (h : Dialect.isNameChar c = true) :
    (65 ≤ c.toNat ∧ c.toNat ≤ 90) ∨ (97 ≤ c.toNat ∧ c.toNat ≤ 122) ∨ c.toNat = 95 ∨
      (48 ≤ c.toNat ∧ c.toNat ≤ 57) := by
  unfold Dialect.isNameChar Dialect.isNameStart Text.isCapital Text.isSmall Number.isDigit at h
  simp only [Bool.or_eq_true, Bool.and_eq_true, decide_eq_true_eq, beq_iff_eq] at h
  have hle {a b : Char} (h : a ≤ b) : a.toNat ≤ b.toNat := UInt32.le_iff_toNat_le.1 h
  rcases h with ((⟨h1, h2⟩ | ⟨h1, h2⟩) | rfl) | ⟨h1, h2⟩
  · exact .inl ⟨hle h1, hle h2⟩
  · exact .inr (.inl ⟨hle h1, hle h2⟩)
  · exact .inr (.inr (.inl rfl))
  · exact .inr (.inr (.inr ⟨hle h1, hle h2⟩))

theorem isCalm_of_isNameChar {c : Char} (h : Dialect.isNameChar c = true) : isCalm c = true := by
  have hc := nat_of_isNameChar h
  refine isCalm_of_toNat fun hmem => ?_
  simp only [List.mem_cons, List.not_mem_nil, or_false] at hmem
  omega

theorem separator_cases {c : Char} {ts : List Token} (hc : separator c = some ts) :
    c = ' ' ∨ c = ',' ∨ c = '.' ∨ c = '(' ∨ c = ')' := by
  unfold separator at hc
  split at hc <;> simp_all

theorem begin_nameChar {c : Char} (h : Dialect.isNameChar c = true) :
    begin d c = ([], .word [c]) := by
  have hq := (ne_quotes (d := d) (.inl (isCalm_of_isNameChar h))).1
  have hs : separator c = none := by
    cases hs : separator c with
    | none => rfl
    | some ts => rcases separator_cases hs with rfl | rfl | rfl | rfl | rfl <;> cases h
  rw [begin, if_neg hq, hs]
  exact if_pos h

/-- A separator is no part of the tokens around it. -/
theorem step_separator {c : Char} {ts : List Token} (hc : separator c = some ts) {p : Pending}
    (hp : p.Settled) : step d p c = (p.flush d ++ ts, .nothing) := by
  have hcases := separator_cases hc
  have hquotes : c ≠ d.quotes.1 ∧ c ≠ d.quotes.2 := by
    apply ne_quotes
    rcases hcases with rfl | rfl | rfl | rfl | rfl
    · exact .inl rfl
    · exact .inl rfl
    · exact .inl rfl
    · exact .inr (.inl rfl)
    · exact .inr (.inr rfl)
  have hbegin : begin d c = (ts, .nothing) := by rw [begin, if_neg hquotes.1, hc]
  have hname : Dialect.isNameChar c ≠ true := by
    rcases hcases with rfl | rfl | rfl | rfl | rfl <;> decide
  have hmark (a : Char) : joinsMark a c ≠ true := by
    rcases hcases with rfl | rfl | rfl | rfl | rfl <;> simp [joinsMark]
  have hafter : after d p c = (p.flush d ++ ts, .nothing) := by rw [after, hbegin]
  -- whatever is settled ends here, and the separator stands for itself
  cases p with
  | nothing => exact hbegin
  | word back => rw [step, if_neg hname, hafter]
  | hole => rw [step, if_neg hname, hafter]
  | mark a => rw [step, if_neg (hmark a), hafter]
  | name back => exact hp.elim
  | closed back => rw [step, if_neg hquotes.2, hafter]

theorem run_separator {c : Char} {ts : List Token} (hc : separator c = some ts) {p : Pending}
    (hp : p.Settled) : run d p [c] = (p.flush d ++ ts, .nothing) := by
  rw [run, step_separator hc hp, run, List.append_nil]

/-- Characters of a name carry a word on. -/
theorem run_word {cs : List Char} (h : cs.all Dialect.isNameChar = true) (back : List Char) :
    run d (.word back) cs = ([], .word (cs.reverse ++ back)) := by
  induction cs generalizing back with
  | nil => rfl
  | cons c cs ih =>
    obtain ⟨hc, hcs⟩ := by simpa using h
    have hstep : step d (.word back) c = ([], .word (c :: back)) := by rw [step, if_pos hc]
    have hrest := ih (by simpa using hcs) (c :: back)
    rw [run, hstep, hrest, List.reverse_cons, List.append_assoc]
    rfl

/-- Characters of a name are one word. -/
theorem run_nameChars {cs : List Char} (h : cs.all Dialect.isNameChar = true) (hne : cs ≠ []) :
    run d .nothing cs = ([], .word cs.reverse) := by
  cases cs with
  | nil => exact absurd rfl hne
  | cons c cs =>
    obtain ⟨hc, hcs⟩ := by simpa using h
    have hstep : step d .nothing c = ([], .word [c]) := begin_nameChar hc
    rw [run, hstep, run_word (by simpa using hcs), List.reverse_cons]
    rfl

theorem run_hole {cs : List Char} (h : cs.all Dialect.isNameChar = true) :
    run d .hole cs = ([], .hole) := by
  induction cs with
  | nil => rfl
  | cons c cs ih =>
    obtain ⟨hc, hcs⟩ := by simpa using h
    have hstep : step d .hole c = ([], .hole) := by rw [step, if_pos hc]
    rw [run, hstep, ih (by simpa using hcs)]
    rfl

theorem step_sigil {c : Char} (hc : isSigil c = true) {p : Pending} (hp : p.Settled) :
    step d p c = (p.flush d, .hole) := by
  have hcases : c = '?' ∨ c = '$' ∨ c = ':' ∨ c = '@' := by simpa [isSigil, or_assoc] using hc
  have hquotes : c ≠ d.quotes.1 ∧ c ≠ d.quotes.2 :=
    ne_quotes (.inl (by rcases hcases with rfl | rfl | rfl | rfl <;> rfl))
  have hs : separator c = none := by rcases hcases with rfl | rfl | rfl | rfl <;> rfl
  have hname : Dialect.isNameChar c ≠ true := by
    rcases hcases with rfl | rfl | rfl | rfl <;> decide
  have hmark (a : Char) : joinsMark a c ≠ true := by
    rcases hcases with rfl | rfl | rfl | rfl <;> simp [joinsMark]
  have hbegin : begin d c = ([], .hole) := by
    rw [begin, if_neg hquotes.1, hs]
    dsimp only
    rw [if_neg hname, if_pos hc]
  have hafter : after d p c = (p.flush d, .hole) := by rw [after, hbegin, List.append_nil]
  -- whatever is settled ends here, and a hole begins
  cases p with
  | nothing => exact hbegin
  | word back => rw [step, if_neg hname, hafter]
  | hole => rw [step, if_neg hname, hafter]
  | mark a => rw [step, if_neg (hmark a), hafter]
  | name back => exact hp.elim
  | closed back => rw [step, if_neg hquotes.2, hafter]

theorem isDigit_of_mem_toString {n : Nat} {c : Char} (hc : c ∈ (toString n).toList) :
    Number.isDigit c = true := by
  have hc : c ∈ (String.ofList (Nat.toDigits 10 n)).toList := hc
  rw [String.toList_ofList] at hc
  have hdigit := Nat.isDigit_of_mem_toDigits (by omega) (by omega) hc
  have hbounds : 48 ≤ c.toNat ∧ c.toNat ≤ 57 := by
    simpa [Char.isDigit, UInt32.le_iff_toNat_le] using hdigit
  unfold Number.isDigit
  rw [Bool.and_eq_true, decide_eq_true_eq, decide_eq_true_eq]
  exact ⟨UInt32.le_iff_toNat_le.2 hbounds.1, UInt32.le_iff_toNat_le.2 hbounds.2⟩

theorem nameChars_toString (n : Nat) : (toString n).toList.all Dialect.isNameChar = true := by
  refine List.all_eq_true.2 fun c hc => ?_
  rw [Dialect.isNameChar, isDigit_of_mem_toString hc, Bool.or_true]

theorem placeholder_toList (d : Dialect) (n : Nat) :
    ∃ c cs, (d.placeholder n).toList = c :: cs ∧ isSigil c = true ∧
      cs.all Dialect.isNameChar = true := by
  have hdigits := nameChars_toString n
  unfold Dialect.placeholder Dialect.placeholderOf
  cases d.backend
  case postgres => exact ⟨'$', _, by rw [String.toList_append]; rfl, rfl, hdigits⟩
  case oracle =>
    refine ⟨':', 'p' :: (toString n).toList, by rw [String.toList_append]; rfl, rfl, ?_⟩
    rw [List.all_cons, hdigits]
    rfl
  case sqlserver =>
    refine ⟨'@', 'p' :: (toString n).toList, by rw [String.toList_append]; rfl, rfl, ?_⟩
    rw [List.all_cons, hdigits]
    rfl
  all_goals exact ⟨'?', [], String.toList_ofList, rfl, rfl⟩

/-- A placeholder is a hole, whatever its number. -/
theorem run_placeholder (n : Nat) {p : Pending} (hp : p.Settled) :
    run d p (d.placeholder n).toList = (p.flush d, .hole) := by
  obtain ⟨c, cs, heq, hc, hcs⟩ := placeholder_toList d n
  rw [heq, run, step_sigil hc hp, run_hole hcs, List.append_nil]

end Scan

namespace Fragment

/-- The characters of a fragment that stands behind `n` bound values. -/
def chars (d : Dialect) (n : Nat) (f : Fragment) : List Char :=
  f.pieces.flatMap fun p => ((p.shift n).shown d).toList

variable {d : Dialect}

theorem toList_sql (f : Fragment) : (f.sql d).toList = f.chars d 0 := by
  have hpieces (pieces : List Piece) : (String.join (pieces.map (Piece.shown d))).toList =
      pieces.flatMap fun p => ((p.shift 0).shown d).toList := by
    induction pieces with
    | nil => rfl
    | cons p ps ih =>
      rw [List.map_cons, String.join_cons, String.toList_append, ih, List.flatMap_cons, shift_zero]
  have hsql : f.sql d = String.join (f.pieces.map (Piece.shown d)) :=
    congrArg String.join (List.map_congr_left fun p _ => by cases p <;> rfl)
  rw [hsql, hpieces]
  rfl

theorem chars_text (n : Nat) (s : String) : (text s).chars d n = s.toList := by
  simp [chars, text, Piece.shift, Piece.shown]

theorem chars_bind (n : Nat) (b : Binding) :
    (bind b).chars d n = (d.placeholder (n + 1)).toList := by
  simp [chars, bind, Piece.shift, Piece.shown]

theorem chars_shift (m n : Nat) (pieces : List Piece) (bs : List Binding) :
    chars d n ⟨pieces.map (Piece.shift m), bs⟩ = chars d (n + m) ⟨pieces, bs⟩ := by
  unfold chars
  simp only [List.flatMap_map, shift_shift]

theorem chars_append (n : Nat) (a b : Fragment) :
    (a ++ b).chars d n = a.chars d n ++ b.chars d (n + a.bindings.length) := by
  have hb := chars_shift (d := d) a.bindings.length n b.pieces b.bindings
  rw [append_def]
  unfold chars at *
  rw [List.flatMap_append]
  exact congrArg _ hb

end Fragment

end PolyQuery
