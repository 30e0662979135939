import PolyQuery.Proofs.Reading

/-! How texts spell tokens. A text behind a separator spells the same tokens wherever it stands, so
that the tokens of a statement are put together as its text is. -/
namespace PolyQuery

namespace Keyword

/-- Only one keyword depends on the backend, and only on one backend. -/
theorem text_cases (d : Dialect) : text d = text (.make .sqlite none) ∨
    d.backend = .oracle ∧ text d = text (.make .oracle none) := by
  by_cases h : d.backend = .oracle
  · refine .inr ⟨h, funext fun w => ?_⟩
    cases w with
    | except => rw [text, Dialect.setOperatorKeyword, if_pos ⟨h, rfl⟩]; rfl
    | _ => rfl
  · refine .inl (funext fun w => ?_)
    cases w with
    | except => rw [text, Dialect.setOperatorKeyword, if_neg fun hd => h hd.1]; rfl
    | _ => rfl

theorem upper_text (d : Dialect) (w : Keyword) : Text.upper (w.text d) = w.text d := by
  rcases text_cases d with h | ⟨_, h⟩
  · rw [h]
    cases w <;> decide +kernel
  · rw [h]
    cases w <;> decide +kernel

theorem isPlainName_text (d : Dialect) (w : Keyword) :
    Dialect.isPlainName (w.text d).toList = true := by
  rcases text_cases d with h | ⟨_, h⟩
  · rw [h]
    cases w <;> decide +kernel
  · rw [h]
    cases w <;> decide +kernel

/-- A keyword's text is that keyword. -/
theorem ofWord_text (d : Dialect) (w : Keyword) : Token.ofWord d (w.text d) = .key w := by
  unfold Token.ofWord ofWord?
  rw [upper_text]
  rcases text_cases d with h | ⟨_, h⟩
  · rw [h]
    cases w <;> decide +kernel
  · rw [h]
    cases w <;> decide +kernel

/-- Every keyword is reserved. -/
theorem isReserved (d : Dialect) (w : Keyword) :
    d.backend.reservedWords.contains (w.text d) = true := by
  rcases text_cases d with h | ⟨hb, h⟩
  · have hcommon : Backend.commonWords.contains (w.text (.make .sqlite none)) = true := by
      cases w <;> decide +kernel
    have hwords : ∃ more, d.backend.reservedWords = Backend.commonWords ++ more := by
      cases d.backend <;> exact ⟨_, rfl⟩
    obtain ⟨more, hmore⟩ := hwords
    rw [h, hmore, List.contains_append, hcommon, Bool.true_or]
  · rw [hb, h]
    cases w <;> decide +kernel

end Keyword

/-- The keyword that a set operator is. -/
def SetOperator.word : SetOperator → Keyword
  | .union => .union
  | .intersect => .intersect
  | .except => .except

theorem SetOperator.text_word (d : Dialect) (op : SetOperator) :
    op.word.text d = d.setOperatorKeyword op.keyword := by
  have hother {s : String} (hs : s ≠ "EXCEPT") : s = d.setOperatorKeyword s :=
    (if_neg fun h => hs h.2).symm
  cases op with
  | union => exact hother (s := "UNION") (by decide)
  | intersect => exact hother (s := "INTERSECT") (by decide)
  | except => rfl

/-- A name that goes without quotes is no keyword. -/
theorem Token.ofWord_name {d : Dialect} {name : String} (h : d.needsQuotes name = false) :
    Token.ofWord d name = .word name := by
  have hnone : Keyword.ofWord? d name = none := by
    cases hw : Keyword.ofWord? d name with
    | none => rfl
    | some w =>
      have hupper : w.text d = Text.upper name := by
        have hfound := List.find?_some hw
        exact beq_iff_eq.1 hfound
      have hreserved : d.isReserved name = true := by
        rw [Dialect.isReserved, ← hupper]
        exact Keyword.isReserved d w
      simp [Dialect.needsQuotes, hreserved] at h
  rw [Token.ofWord, hnone]

namespace Scan
variable {d : Dialect}

/-- A text, for every number of values before it, spells some tokens. -/
def Spells (d : Dialect) (g : Nat → List Char) (ts : List Token) : Prop :=
  ∃ us q, q.Settled ∧ us ++ q.flush d = ts ∧ ∀ n, run d .nothing (g n) = (us, q)

/-- A text spells some tokens behind every other one. -/
def Follows (d : Dialect) (g : Nat → List Char) (ts : List Token) : Prop :=
  ∀ p, p.Settled → ∃ us q, q.Settled ∧ us ++ q.flush d = p.flush d ++ ts ∧
    ∀ n, run d p (g n) = (us, q)

theorem Spells.tokens {g : Nat → List Char} {ts : List Token} (h : Spells d g ts) (n : Nat) :
    tokens d (g n) = ts := by
  obtain ⟨us, q, _, rfl, hrun⟩ := h
  rw [Scan.tokens, hrun]

theorem spells_nothing : Spells d (fun _ => []) [] := ⟨[], .nothing, trivial, rfl, fun _ => rfl⟩

theorem follows_nothing : Follows d (fun _ => []) [] :=
  fun p hp => ⟨[], p, hp, by rw [List.append_nil, List.nil_append], fun _ => rfl⟩

theorem Spells.append {g h : Nat → List Char} {ts us : List Token} (hg : Spells d g ts)
    (hh : Follows d h us) : Spells d (fun n => g n ++ h n) (ts ++ us) := by
  obtain ⟨vs, p, hp, rfl, hrun⟩ := hg
  obtain ⟨ws, q, hq, heq, hrun'⟩ := hh p hp
  refine ⟨vs ++ ws, q, hq, ?_, fun n => run_append_of (hrun n) (hrun' n)⟩
  rw [List.append_assoc, heq, List.append_assoc]

theorem Follows.append {g h : Nat → List Char} {ts us : List Token} (hg : Follows d g ts)
    (hh : Follows d h us) : Follows d (fun n => g n ++ h n) (ts ++ us) := by
  intro p hp
  obtain ⟨vs, q, hq, heq, hrun⟩ := hg p hp
  obtain ⟨ws, r, hr, heq', hrun'⟩ := hh q hq
  refine ⟨vs ++ ws, r, hr, ?_, fun n => run_append_of (hrun n) (hrun' n)⟩
  rw [List.append_assoc, heq', ← List.append_assoc, heq, List.append_assoc]

theorem Spells.shift {g : Nat → List Char} {ts : List Token} (h : Spells d g ts) (m : Nat) :
    Spells d (fun n => g (n + m)) ts := by
  obtain ⟨us, q, hq, heq, hrun⟩ := h
  exact ⟨us, q, hq, heq, fun n => hrun (n + m)⟩

theorem Follows.shift {g : Nat → List Char} {ts : List Token} (h : Follows d g ts) (m : Nat) :
    Follows d (fun n => g (n + m)) ts := by
  intro p hp
  obtain ⟨us, q, hq, heq, hrun⟩ := h p hp
  exact ⟨us, q, hq, heq, fun n => hrun (n + m)⟩

theorem Follows.spells {g : Nat → List Char} {ts : List Token} (h : Follows d g ts) :
    Spells d g ts := h .nothing trivial

/-- Behind a separator every text spells what it spells alone. -/
theorem Spells.behind {c : Char} {ms : List Token} (hc : separator c = some ms)
    {g : Nat → List Char} {ts : List Token} (h : Spells d g ts) :
    Follows d (fun n => c :: g n) (ms ++ ts) := by
  intro p hp
  obtain ⟨us, q, hq, rfl, hrun⟩ := h
  refine ⟨p.flush d ++ ms ++ us, q, hq, by simp only [List.append_assoc], fun n => ?_⟩
  exact run_append_of (run_separator hc hp) (hrun n)

/-- A text behind a blank. -/
theorem Spells.spaced {g : Nat → List Char} {ts : List Token} (h : Spells d g ts) :
    Follows d (fun n => ' ' :: g n) ts := by
  have hblank : separator ' ' = some [] := rfl
  exact h.behind hblank

/-- A text between brackets. -/
theorem Spells.enclosed {g : Nat → List Char} {ts : List Token} (h : Spells d g ts) :
    Follows d (fun n => '(' :: g n ++ [')']) (.opening :: ts ++ [.closing]) := by
  have hopening : separator '(' = some [.opening] := rfl
  have hclosing : separator ')' = some [.closing] := rfl
  exact (h.append (spells_nothing.behind hclosing)).behind hopening

theorem Spells.wrapped {g : Nat → List Char} {ts : List Token} (h : Spells d g ts) (b : Bool) :
    Spells d (fun n => if b then '(' :: g n ++ [')'] else g n) (Tree.wrapped b ts) := by
  cases b with
  | false => exact h
  | true => exact h.enclosed.spells

/-- A steady text spells paired tokens. -/
theorem Steady.spells {g : Nat → List Char} (h : Steady d g) :
    Spells d g (Scan.tokens d (g 0)) ∧ Paired (Scan.tokens d (g 0)) := by
  obtain ⟨ts, q, hq, hts, hrun⟩ := h .nothing trivial
  have heq : Scan.tokens d (g 0) = ts ++ q.flush d := by rw [Scan.tokens, hrun]
  rw [heq]
  exact ⟨⟨ts, q, hq, rfl, hrun⟩, hts.append (q.paired_flush d)⟩

theorem spells_word {w : String} (h : Dialect.isPlainName w.toList = true) :
    Spells d (fun _ => w.toList) [.ofWord d w] := by
  obtain ⟨hall, hne⟩ := isCalm_of_plain h
  refine ⟨[], .word w.toList.reverse, trivial, ?_, fun _ => run_nameChars hall hne⟩
  rw [Pending.flush, List.reverse_reverse, String.ofList_toList]
  rfl

theorem spells_keyword (w : Keyword) : Spells d (fun _ => (w.text d).toList) [.key w] := by
  have h := spells_word (d := d) (Keyword.isPlainName_text d w)
  rwa [Keyword.ofWord_text] at h

theorem spells_hole (b : Binding) : Spells d (fun n => (Fragment.bind b).chars d n) [.hole] := by
  refine ⟨[], .hole, trivial, rfl, fun n => ?_⟩
  dsimp only
  rw [Fragment.chars_bind]
  exact run_placeholder (n + 1) trivial

/-- A name stands bare or between quotes. -/
theorem spells_identifier (name : String) :
    Spells d (fun _ => (d.quoteIdentifier name).toList) [Tree.partToken d (some name)] := by
  rw [Dialect.quoteIdentifier, Tree.partToken]
  cases hq : d.needsQuotes name with
  | true =>
    refine ⟨[], .closed name.toList.reverse, trivial, ?_, fun _ => run_quoted name⟩
    rw [Pending.flush, List.reverse_reverse, String.ofList_toList]
    rfl
  | false =>
    have hplain : Dialect.isPlainName name.toList = true := by
      simp only [Dialect.needsQuotes, Bool.or_eq_false_iff, Bool.not_eq_false'] at hq
      exact hq.1.1
    have h := spells_word (d := d) hplain
    rwa [Token.ofWord_name hq] at h

/-- A sign stands alone where nothing joins it. -/
theorem begin_sign {c : Char} (hc : isCalm c = true) (hs : separator c = none)
    (hn : Dialect.isNameChar c = false) (hh : isSigil c = false) :
    begin d c = ([], .mark c) := by
  rw [begin, if_neg (ne_quotes (.inl hc)).1, hs]
  dsimp only
  rw [if_neg (by rw [hn]; exact Bool.false_ne_true), if_neg (by rw [hh]; exact Bool.false_ne_true)]

theorem spells_sign {c : Char} (h : begin d c = ([], .mark c)) :
    Spells d (fun _ => [c]) [.mark (String.ofList [c])] := by
  refine ⟨[], .mark c, trivial, rfl, fun _ => ?_⟩
  rw [run, step, h]
  rfl

theorem spells_signs {a b : Char} (h : begin d a = ([], .mark a)) (hj : joinsMark a b = true) :
    Spells d (fun _ => [a, b]) [.mark (String.ofList [a, b])] := by
  refine ⟨[.mark (String.ofList [a, b])], .nothing, trivial, rfl, fun _ => ?_⟩
  rw [run, step, h, run, step, if_pos hj]
  rfl

/-- The symbol of an operator spells its tokens. -/
theorem spells_symbol (op : BinaryOp) : Spells d (fun _ => op.symbol.toList) op.tokens := by
  -- a sign of one character ends there, and two characters are one sign if they join
  have hsign (c : Char) (hc : isCalm c = true) (hs : separator c = none)
      (hn : Dialect.isNameChar c = false) (hh : isSigil c = false) :
      Spells d (fun _ => (String.ofList [c]).toList) [.mark (String.ofList [c])] := by
    rw [String.toList_ofList]
    exact spells_sign (begin_sign hc hs hn hh)
  have hsigns (a b : Char) (hc : isCalm a = true) (hs : separator a = none)
      (hn : Dialect.isNameChar a = false) (hh : isSigil a = false) (hj : joinsMark a b = true) :
      Spells d (fun _ => (String.ofList [a, b]).toList) [.mark (String.ofList [a, b])] := by
    rw [String.toList_ofList]
    exact spells_signs (begin_sign hc hs hn hh) hj
  cases op with
  | equal => exact hsign '=' rfl rfl rfl rfl
  | notEqual => exact hsigns '<' '>' rfl rfl rfl rfl rfl
  | less => exact hsign '<' rfl rfl rfl rfl
  | lessEqual => exact hsigns '<' '=' rfl rfl rfl rfl rfl
  | greater => exact hsign '>' rfl rfl rfl rfl
  | greaterEqual => exact hsigns '>' '=' rfl rfl rfl rfl rfl
  | like => exact spells_keyword .like
  | notLike =>
    have hwords : (BinaryOp.notLike.symbol).toList =
        (Keyword.text d .not).toList ++ ' ' :: (Keyword.text d .like).toList := by
      have hblank : " ".toList = [' '] := String.toList_ofList
      have hparts : BinaryOp.notLike.symbol = "NOT" ++ " " ++ "LIKE" := rfl
      rw [hparts, String.toList_append, String.toList_append, hblank, List.append_assoc]
      rfl
    rw [hwords]
    exact (spells_keyword .not).append (spells_keyword .like).spaced
  | and => exact spells_keyword .and
  | or => exact spells_keyword .or
  | add => exact hsign '+' rfl rfl rfl rfl
  | sub => exact hsign '-' rfl rfl rfl rfl
  | mul => exact hsign '*' rfl rfl rfl rfl
  | div => exact hsign '/' rfl rfl rfl rfl
  | mod => exact hsign '%' rfl rfl rfl rfl

theorem spells_star : Spells d (fun _ => "*".toList) [.mark "*"] := spells_symbol .mul

/-- Behind a minus sign a text that begins with none is scanned as it is alone. -/
theorem run_minus {c : Char} (hc : c ≠ '-') (cs : List Char) :
    run d (.mark '-') (c :: cs) =
      (.mark "-" :: (run d .nothing (c :: cs)).1, (run d .nothing (c :: cs)).2) := by
  have hplain : joinsMark '-' c ≠ true := by simpa [joinsMark] using hc
  have hstep : step d (.mark '-') c = (.mark "-" :: (begin d c).1, (begin d c).2) := by
    rw [step, if_neg hplain]
    rfl
  rw [run, hstep, run]
  rfl

/-- A text whose first token is no sign begins with none. -/
theorem Spells.first {g : Nat → List Char} {t : Token} {ts : List Token} (h : Spells d g (t :: ts))
    (ht : ∀ s, t = .mark s → s = "*") (n : Nat) : ∃ c cs, g n = c :: cs ∧ c ≠ '-' := by
  obtain ⟨us, q, hq, heq, hrun⟩ := h
  have hminus : begin d '-' = ([], .mark '-') := begin_sign rfl rfl rfl rfl
  have hn := hrun n
  cases hg : g n with
  | nil =>
    -- nothing spells no token
    rw [hg] at hn
    cases hn
    cases heq
  | cons c cs =>
    refine ⟨c, cs, rfl, ?_⟩
    rintro rfl
    -- a minus sign would be the first token, alone or with another one
    rw [hg, run, step, hminus] at hn
    cases cs with
    | nil =>
      cases hn
      cases heq
      exact absurd (ht _ rfl) (by decide)
    | cons b bs =>
      cases hb : joinsMark '-' b with
      | true =>
        rw [run, step, if_pos hb] at hn
        cases hn
        cases heq
        have hs := ht _ rfl
        have hlen := congrArg (fun s => s.toList.length) hs
        simp at hlen
      | false =>
        rw [run, step, if_neg (by rw [hb]; exact Bool.false_ne_true)] at hn
        cases hn
        cases heq
        exact absurd (ht _ rfl) (by decide)

/-- A sign before what is no sign. -/
theorem Spells.negated {g : Nat → List Char} {t : Token} {ts : List Token}
    (h : Spells d g (t :: ts)) (ht : ∀ s, t = .mark s → s = "*") :
    Spells d (fun n => '-' :: g n) (.mark "-" :: t :: ts) := by
  have hfirst := h.first ht
  obtain ⟨us, q, hq, heq, hrun⟩ := h
  have hminus : begin d '-' = ([], .mark '-') := begin_sign rfl rfl rfl rfl
  refine ⟨.mark "-" :: us, q, hq, by rw [List.cons_append, heq], fun n => ?_⟩
  obtain ⟨c, cs, hg, hc⟩ := hfirst n
  have hsecond : run d .nothing ('-' :: c :: cs) = run d (.mark '-') (c :: cs) := by
    rw [run, step, hminus]
    rfl
  change run d .nothing ('-' :: g n) = _
  rw [hg, hsecond, run_minus hc, ← hg, hrun]

/-- A part of a dotted name as it is written. -/
def partText (d : Dialect) : Option String → String
  | none => "*"
  | some s => d.quoteIdentifier s

theorem spells_part (p : Option String) :
    Spells d (fun _ => (partText d p).toList) [Tree.partToken d p] := by
  cases p with
  | none => exact spells_star
  | some s => exact spells_identifier s

/-- A dotted name spells its path. -/
theorem spells_path (parts : List (Option String)) :
    Spells d (fun _ => (".".intercalate (parts.map (partText d))).toList)
      (Tree.pathTokens d parts) := by
  have hdot : separator '.' = some [.dot] := rfl
  induction parts with
  | nil => exact spells_nothing
  | cons p ps ih =>
    cases ps with
    | nil =>
      have h := spells_part (d := d) p
      simpa [Tree.pathTokens] using h
    | cons q ps =>
      have h := (spells_part p).append (ih.behind hdot)
      have htext : (".".intercalate ((p :: q :: ps).map (partText d))).toList =
          (partText d p).toList ++ '.' :: (".".intercalate ((q :: ps).map (partText d))).toList := by
        have hpoint : ".".toList = ['.'] := String.toList_ofList
        rw [List.map_cons, List.map_cons, String.intercalate_cons_cons, String.toList_append,
          String.toList_append, hpoint, List.append_assoc]
        rfl
      rw [htext]
      exact h

/-- A text in which a word of a query stands outside of brackets. -/
def Announces (d : Dialect) (cs : List Char) : Prop :=
  ∃ us w vs, Paired us ∧ w.isOfQuery = true ∧ (run d .nothing cs).1 = us ++ .key w :: vs

theorem Announces.append {cs : List Char} (h : Announces d cs) (cs' : List Char) :
    Announces d (cs ++ cs') := by
  obtain ⟨us, w, vs, hus, hw, hrun⟩ := h
  rw [Announces, run_append, hrun]
  exact ⟨us, w, _, hus, hw, by rw [List.append_assoc, List.cons_append]⟩

/-- A word of a query that a blank ends. -/
theorem announces_first {w : Keyword} (hw : w.isOfQuery = true) (cs : List Char) :
    Announces d ((w.text d).toList ++ ' ' :: cs) := by
  obtain ⟨us, q, hq, heq, hrun⟩ := spells_keyword (d := d) w
  have hblank : separator ' ' = some [] := rfl
  have hword := run_append_of (hrun 0) (run_separator hblank hq)
  have htext : (w.text d).toList ++ ' ' :: cs = ((w.text d).toList ++ [' ']) ++ cs := by
    rw [List.append_assoc]
    rfl
  have hfirst : Announces d ((w.text d).toList ++ [' ']) := by
    refine ⟨[], w, [], .nil, hw, ?_⟩
    rw [hword, List.append_nil]
    exact heq
  rw [htext]
  exact hfirst.append cs

/-- The same behind paired brackets and a blank. -/
theorem announces_behind {g : Nat → List Char} (hg : Steady d g) {w : Keyword}
    (hw : w.isOfQuery = true) (n : Nat) (cs : List Char) :
    Announces d (g n ++ ' ' :: ((w.text d).toList ++ ' ' :: cs)) := by
  obtain ⟨ts, p, hp, hts, hrun⟩ := hg .nothing trivial
  obtain ⟨us, v, vs, hus, hv, hword⟩ := announces_first (d := d) hw cs
  have hblank : separator ' ' = some [] := rfl
  refine ⟨ts ++ p.flush d ++ us, v, vs, (hts.append (p.paired_flush d)).append hus, hv, ?_⟩
  have htext : g n ++ ' ' :: ((w.text d).toList ++ ' ' :: cs) =
      g n ++ ([' '] ++ ((w.text d).toList ++ ' ' :: cs)) := rfl
  rw [htext, run_append, hrun]
  dsimp only
  rw [run_append, run_separator hblank hp]
  simp only [hword, List.append_nil, List.append_assoc]

theorem Announces.announces {cs : List Char} (h : Announces d cs) :
    Grammar.announces 0 (Scan.tokens d cs) = true := by
  obtain ⟨us, w, vs, hus, hw, hrun⟩ := h
  rw [Scan.tokens, hrun, List.append_assoc, Grammar.announces_paired hus, List.cons_append,
    Grammar.announces, hw, Bool.true_or, Bool.or_true]

end Scan

end PolyQuery
