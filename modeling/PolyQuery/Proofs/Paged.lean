import PolyQuery.Proofs.Selection

/-! The clauses of a query as tokens: what an ordering and a page are in each style, and what is written
for them. Main statements: `bound_word`, `written_limitOffset`, `written_offsetFetch`,
`written_rownum`, `written_topped`. -/
namespace PolyQuery

namespace SetTree

/-- The tokens of a bound. -/
def bound (d : Dialect) (v : Value) : List Token := Scan.tokens d v.text.toList

/-- The tokens of an ordering without its words. -/
def orderTokens (d : Dialect) (terms : List OrderTerm) : List Token :=
  match Sql.terms d terms with
  | .ok fs => Scan.tokens d ((Fragment.join ", " fs).chars d 0)
  | .error _ => []

/-- The tokens of a limit, and of the limit that means none. -/
def limitTokens (d : Dialect) : Option Value → List Token
  | some v => .word "LIMIT" :: bound d v
  | none =>
    match d.noLimit with
    | some s => .word "LIMIT" :: Scan.tokens d s.toList
    | none => []

def offsetTokens (d : Dialect) : Option Value → List Token
  | some v => .word "OFFSET" :: bound d v
  | none => []

def fetchTokens (d : Dialect) : Option Value → List Token
  | some v => .word "FETCH" :: .word "NEXT" :: (bound d v ++ [.word "ROWS", .word "ONLY"])
  | none => []

/-- The bounds of row numbers, the upper one first. -/
def rowTokens (d : Dialect) (skip : Value) : Option Value → List Token
  | some v =>
    if Paging.isZero skip then .mark "<=" :: bound d v
    else .mark "<=" :: (bound d (Paging.plus skip v) ++ .mark ">" :: bound d skip)
  | none => .mark ">" :: bound d skip

def firstTokens (d : Dialect) : Option Value → List Token
  | some v => .word "TOP" :: bound d v
  | none => []

/-- A page in the style of the dialect: a clause, the bounds of row numbers, or the count of first
rows. -/
def styledTokens (d : Dialect) (limit offset : Option Value) : List Token :=
  match d.paginationStyle with
  | .limitOffset => limitTokens d limit ++ offsetTokens d offset
  | .offsetFetch => .word "OFFSET" :: (bound d (Paging.skipped offset) ++
      .word "ROWS" :: fetchTokens d limit)
  | .rownum => rowTokens d (Paging.skipped offset) limit
  | .top => firstTokens d limit

/-- The tokens of a page, none where all rows are kept. -/
def pageTokens (d : Dialect) (limit offset : Option Value) : List Token :=
  if Paging.isWhole limit offset then [] else styledTokens d limit offset

/-- The tokens of the page of a query. -/
def pageOf (d : Dialect) (pagination : Option Pagination) : List Token :=
  pageTokens d (pagination.bind Pagination.limit) (pagination.bind Pagination.offset)

theorem pageTokens_of {d : Dialect} {limit offset : Option Value}
    (h : Paging.isWhole limit offset = false) :
    pageTokens d limit offset = styledTokens d limit offset := by
  rw [pageTokens, h]
  rfl

end SetTree

/-- The expressions of an ordering keep to their places. -/
def OrderTerm.AllContained (d : Dialect) : List OrderTerm → Prop
  | [] => True
  | t :: ts => t.expression.Contained d ∧ OrderTerm.AllContained d ts

namespace Scan
variable {d : Dialect}

theorem spells_bound {v : Value} (h : ∃ n, v = .number n) :
    Spells d (fun _ => v.text.toList) (SetTree.bound d v) ∧ Paired (SetTree.bound d v) := by
  obtain ⟨n, rfl⟩ := h
  have hsteady : Steady d fun _ => (Value.number n).text.toList :=
    Steady.calmText (calmText_numberValue n)
  exact hsteady.spells

theorem nat_of_isDigit {c : Char} (h : Number.isDigit c = true) : 48 ≤ c.toNat ∧ c.toNat ≤ 57 := by
  unfold Number.isDigit at h
  rw [Bool.and_eq_true, decide_eq_true_eq, decide_eq_true_eq] at h
  exact ⟨UInt32.le_iff_toNat_le.1 h.1, UInt32.le_iff_toNat_le.1 h.2⟩

theorem small_digit {c : Char} (h : Number.isDigit c = true) :
    Text.isSmall c = false ∧ Text.isCapital c = false ∧ c ≠ '_' := by
  have hc := nat_of_isDigit h
  refine ⟨?_, ?_, ?_⟩
  · rw [Bool.eq_false_iff]
    intro hs
    unfold Text.isSmall at hs
    rw [Bool.and_eq_true, decide_eq_true_eq, decide_eq_true_eq] at hs
    have hlow : 97 ≤ c.toNat := UInt32.le_iff_toNat_le.1 hs.1
    omega
  · rw [Bool.eq_false_iff]
    intro hs
    unfold Text.isCapital at hs
    rw [Bool.and_eq_true, decide_eq_true_eq, decide_eq_true_eq] at hs
    have hlow : 65 ≤ c.toNat := UInt32.le_iff_toNat_le.1 hs.1
    omega
  · rintro rfl
    exact absurd hc.2 (by decide)

theorem isNameStart_digit {c : Char} (h : Number.isDigit c = true) :
    Dialect.isNameStart c = false := by
  obtain ⟨hsmall, hcapital, hline⟩ := small_digit h
  rw [Dialect.isNameStart, hsmall, hcapital, beq_eq_false_iff_ne.2 hline]
  rfl

theorem upperChar_digit {c : Char} (h : Number.isDigit c = true) : Text.upperChar c = [c] := by
  have hc := nat_of_isDigit h
  have hlow : c.toNat < 128 := by omega
  rw [Text.upperChar, (small_digit h).1, if_neg Bool.false_ne_true, if_pos hlow]

theorem toString_ne_nil (m : Nat) : (toString m).toList ≠ [] := by
  change (String.ofList (Nat.toDigits 10 m)).toList ≠ []
  rw [String.toList_ofList]
  exact Nat.toDigits_ne_nil

/-- The text of a number is no name, in any letter case. -/
theorem upper_number_ne (m : Nat) {w : String} (hw : Dialect.isPlainName w.toList = true) :
    Text.upper (toString m) ≠ w := by
  intro heq
  obtain ⟨c, cs, hcs⟩ := List.exists_cons_of_ne_nil (toString_ne_nil m)
  have hdigit : Number.isDigit c = true := isDigit_of_mem_toString (by rw [hcs]; simp)
  rw [← heq, Text.upper, String.toList_ofList, hcs, List.flatMap_cons, upperChar_digit hdigit,
    List.cons_append, Dialect.isPlainName, isNameStart_digit hdigit] at hw
  cases hw

theorem bound_digits {v : Value} (h : Plan.isBound v = true) : ∃ m : Nat, v.text = toString m := by
  cases v with
  | number n =>
    obtain ⟨hsafe, hlt⟩ := (Bool.and_eq_true _ _).mp h
    cases n with
    | int k =>
      have hk : 0 ≤ k := by simpa [Number.lt, Number.ratio?] using hlt
      obtain ⟨m, rfl⟩ := Int.eq_ofNat_of_zero_le hk
      refine ⟨m, ?_⟩
      have hsmall : (m : Int).natAbs ≤ powerOfTwo 53 := by
        have hmax : (m : Int).natAbs ≤ Number.maxSafe.toNat := by
          simpa [Number.isSafeInteger] using hsafe
        exact Nat.le_trans hmax (by decide)
      change (if (m : Int).natAbs ≤ powerOfTwo 53 then toString (m : Int) else _) = _
      rw [if_pos hsmall]
      rfl
    | negZero => exact ⟨0, rfl⟩
    | _ => cases hsafe
  | _ => cases h

/-- A checked bound is one word, and no word of a clause. -/
theorem bound_word {v : Value} (h : Plan.isBound v = true) :
    Spells d (fun _ => v.text.toList) [.word v.text] ∧ SetTree.bound d v = [.word v.text] ∧
      Token.isClause d (.word v.text) = false := by
  obtain ⟨m, hm⟩ := bound_digits h
  -- a keyword has no digits in front, and a number has no other characters
  have hnone : Keyword.ofWord? d (toString m) = none := by
    cases hk : Keyword.ofWord? d (toString m) with
    | none => rfl
    | some k =>
      have hfound := List.find?_some hk
      have hupper : k.text d = Text.upper (toString m) := beq_iff_eq.1 hfound
      exact absurd hupper.symm (upper_number_ne m (Keyword.isPlainName_text d k))
  have hspells : Spells d (fun _ => v.text.toList) [.word v.text] := by
    refine ⟨[], .word v.text.toList.reverse, trivial, ?_, fun _ => ?_⟩
    · rw [Pending.flush, List.reverse_reverse, String.ofList_toList, hm, Token.ofWord, hnone]
      rfl
    · rw [hm]
      exact run_nameChars (nameChars_toString m) (toString_ne_nil m)
  refine ⟨hspells, hspells.tokens 0, ?_⟩
  rw [hm]
  refine Token.isClause_word (fun hmem => ?_) fun _ => upper_number_ne m (by decide +kernel)
  have hplain : ∀ w ∈ ["FROM", "ORDER", "LIMIT", "OFFSET"], Dialect.isPlainName w.toList = true := by
    decide +kernel
  exact upper_number_ne m (hplain _ hmem) rfl

theorem writtenBehind_join {s t : String} {ts us : List Token} (hs : WrittenBehind d (.text s) ts)
    (ht : WrittenBehind d (.text t) us) : WrittenBehind d (.text (s ++ t)) (ts ++ us) := by
  have hall := hs.append ht
  simpa only [WrittenBehind, Fragment.chars_append, Fragment.chars_text,
    String.toList_append] using hall

theorem writtenBehind_words {s : String} (ws : List String) (hs : s = String.join (ws.map (" " ++ ·)))
    (hws : ∀ w ∈ ws, IsBare w) : WrittenBehind d (.text s) (ws.map .word) := by
  have hfollows := follows_wordTokens (d := d) ws hws
  rw [← hs] at hfollows
  exact writtenBehind_text hfollows

/-- Bare words before a text. -/
theorem writtenBehind_counted {s t : String} {ts : List Token} (ws : List String)
    (hs : s = String.join (ws.map (" " ++ ·)) ++ " ") (hws : ∀ w ∈ ws, IsBare w)
    (ht : Spells d (fun _ => t.toList) ts) :
    WrittenBehind d (.text (s ++ t)) (ws.map .word ++ ts) := by
  have hall := (follows_wordTokens (d := d) ws hws).append ht.spaced
  refine writtenBehind_text ?_
  rw [hs]
  simpa only [String.toList_append, toList_blank, List.append_assoc, List.cons_append,
    List.nil_append] using hall

/-- The bounds of a page are numbers. -/
def Numbers (limit offset : Option Value) : Prop :=
  (∀ v, limit = some v → ∃ n, v = .number n) ∧ ∀ v, offset = some v → ∃ n, v = .number n

theorem Numbers.skipped {limit offset : Option Value} (h : Numbers limit offset) :
    ∃ n, Paging.skipped offset = .number n := by
  cases offset with
  | none => exact ⟨_, rfl⟩
  | some v =>
    obtain ⟨n, rfl⟩ := h.2 v rfl
    exact ⟨n, rfl⟩

theorem Numbers.plus {limit offset : Option Value} (h : Numbers limit offset) {v : Value}
    (hv : limit = some v) : ∃ n, Paging.plus (Paging.skipped offset) v = .number n := by
  obtain ⟨m, hm⟩ := h.skipped
  obtain ⟨n, rfl⟩ := h.1 v hv
  rw [hm]
  exact ⟨_, rfl⟩

theorem paired_word {w : String} {ts : List Token} (h : Paired ts) : Paired (.word w :: ts) :=
  .plain rfl h

theorem isPage_word {w : String} (h : Token.isPage (.word w) = true) (ts : List Token) :
    Grammar.IsPage (.word w :: ts) := by
  intro t ht
  cases ht
  exact h

/-- The clauses of pages, one by one. -/
def limitClause (d : Dialect) : Option Value → Fragment
  | some v => .text (" LIMIT " ++ v.text)
  | none =>
    match d.noLimit with
    | some s => .text (" LIMIT " ++ s)
    | none => .empty

def offsetClause : Option Value → Fragment
  | some v => .text (" OFFSET " ++ v.text)
  | none => .empty

def fetchClause : Option Value → Fragment
  | some v => .text (" FETCH NEXT " ++ v.text ++ " ROWS ONLY")
  | none => .empty

theorem writtenBehind_limit {limit : Option Value} (h : ∀ v, limit = some v → ∃ n, v = .number n) :
    WrittenBehind d (limitClause d limit) (SetTree.limitTokens d limit) ∧
      Grammar.IsPage (SetTree.limitTokens d limit) ∧ Paired (SetTree.limitTokens d limit) := by
  have hword (ts : List Token) : Grammar.IsPage (.word "LIMIT" :: ts) :=
    isPage_word (by decide +kernel) ts
  unfold limitClause SetTree.limitTokens
  cases limit with
  | some v =>
    obtain ⟨hspells, hpaired⟩ := spells_bound (d := d) (h v rfl)
    exact ⟨writtenBehind_counted ["LIMIT"] rfl (by decide +kernel) hspells, hword _,
      paired_word hpaired⟩
  | none =>
    cases hs : d.noLimit with
    | some s =>
      have hsteady : Steady d fun _ => s.toList := Steady.calmText (calmText_noLimit hs)
      obtain ⟨hspells, hpaired⟩ := hsteady.spells
      exact ⟨writtenBehind_counted ["LIMIT"] rfl (by decide +kernel) hspells, hword _,
        paired_word hpaired⟩
    | none => exact ⟨writtenBehind_empty, Grammar.isPage_nil, Paired.nil⟩

theorem writtenBehind_offset {offset : Option Value}
    (h : ∀ v, offset = some v → ∃ n, v = .number n) :
    WrittenBehind d (offsetClause offset) (SetTree.offsetTokens d offset) ∧
      Grammar.IsPage (SetTree.offsetTokens d offset) ∧ Paired (SetTree.offsetTokens d offset) := by
  unfold offsetClause SetTree.offsetTokens
  cases offset with
  | some v =>
    obtain ⟨hspells, hpaired⟩ := spells_bound (d := d) (h v rfl)
    exact ⟨writtenBehind_counted ["OFFSET"] rfl (by decide +kernel) hspells,
      isPage_word (by decide +kernel) _, paired_word hpaired⟩
  | none => exact ⟨writtenBehind_empty, Grammar.isPage_nil, Paired.nil⟩

theorem writtenBehind_fetch {limit : Option Value} (h : ∀ v, limit = some v → ∃ n, v = .number n) :
    WrittenBehind d (fetchClause limit) (SetTree.fetchTokens d limit) ∧
      Paired (SetTree.fetchTokens d limit) := by
  unfold fetchClause SetTree.fetchTokens
  cases limit with
  | some v =>
    obtain ⟨hspells, hpaired⟩ := spells_bound (d := d) (h v rfl)
    have hnext := writtenBehind_counted (s := " FETCH NEXT ") ["FETCH", "NEXT"] rfl
      (by decide +kernel) hspells
    have hlast : WrittenBehind d (.text " ROWS ONLY") [.word "ROWS", .word "ONLY"] :=
      writtenBehind_words ["ROWS", "ONLY"] rfl (by decide +kernel)
    exact ⟨writtenBehind_join hnext hlast, paired_word (paired_word
      (hpaired.append (paired_word (paired_word .nil))))⟩
  | none => exact ⟨writtenBehind_empty, .nil⟩

theorem written_limitOffset {limit offset : Option Value} (hn : Numbers limit offset)
    {core order : Fragment} {c o : List Token} (hc : Written d core c)
    (ho : WrittenBehind d order o) :
    Written d (Paging.limitOffset d core order limit offset)
      (c ++ o ++ (SetTree.limitTokens d limit ++ SetTree.offsetTokens d offset)) ∧
    Grammar.IsPage (SetTree.limitTokens d limit ++ SetTree.offsetTokens d offset) ∧
    Paired (SetTree.limitTokens d limit ++ SetTree.offsetTokens d offset) := by
  obtain ⟨hlimit, hpage, hpaired⟩ := writtenBehind_limit (d := d) hn.1
  obtain ⟨hoffset, hpage', hpaired'⟩ := writtenBehind_offset (d := d) hn.2
  have hall := ((hc.append ho).append hlimit).append hoffset
  rw [List.append_assoc] at hall
  refine ⟨hall, ?_, hpaired.append hpaired'⟩
  cases hl : SetTree.limitTokens d limit with
  | nil => exact hpage'
  | cons t ts =>
    rw [hl] at hpage
    exact hpage

theorem writtenBehind_anyOrder : WrittenBehind d (.text " ORDER BY (SELECT NULL)")
    (.word "ORDER" :: .word "BY" :: Grammar.anyOrder) := by
  have hwords : Follows d (fun _ => (String.join (["ORDER", "BY"].map (" " ++ ·))).toList)
      [.word "ORDER", .word "BY"] := follows_wordTokens _ (by decide +kernel)
  have hnull : Follows d (fun _ => ' ' :: "NULL".toList) [.key .null] :=
    (spells_keyword .null).spaced
  have hselect : Spells d (fun _ => "SELECT".toList) [.key .select] := spells_keyword .select
  have hall : Follows d _ (.word "ORDER" :: .word "BY" :: Grammar.anyOrder) :=
    hwords.append (hselect.append hnull).enclosed.spells.spaced
  have htext : (" ORDER BY (SELECT NULL)" : String) =
      String.join (["ORDER", "BY"].map (" " ++ ·)) ++ " " ++ "(" ++ "SELECT" ++ " " ++ "NULL" ++ ")" :=
    rfl
  refine writtenBehind_text ?_
  rw [htext]
  simpa only [String.toList_append, toList_blank, toList_opening, toList_closing,
    List.append_assoc, List.cons_append, List.nil_append] using hall

/-- The ordering that a page by `OFFSET` stands behind. -/
def ordering (d : Dialect) (ordered : Bool) (o : List Token) : List Token :=
  if !ordered && d.offsetNeedsOrder then .word "ORDER" :: .word "BY" :: Grammar.anyOrder else o

theorem written_offsetFetch {limit offset : Option Value} (hn : Numbers limit offset)
    {core order : Fragment} {c o : List Token} (hc : Written d core c) (ordered : Bool)
    (ho : WrittenBehind d order o) :
    Written d (Paging.offsetFetch d core order ordered limit offset)
      (c ++ ordering d ordered o ++ .word "OFFSET" :: (SetTree.bound d (Paging.skipped offset) ++
        .word "ROWS" :: SetTree.fetchTokens d limit)) ∧
    Paired (SetTree.bound d (Paging.skipped offset) ++
      .word "ROWS" :: SetTree.fetchTokens d limit) := by
  -- a dialect that skips only in order is given any order, where the query has none
  have hordering : WrittenBehind d (if !ordered && d.offsetNeedsOrder then
      .text " ORDER BY (SELECT NULL)" else order) (ordering d ordered o) := by
    rw [ordering]
    split
    · exact writtenBehind_anyOrder
    · exact ho
  obtain ⟨hspells, hpaired⟩ := spells_bound (d := d) hn.skipped
  obtain ⟨hfetch, hpaired'⟩ := writtenBehind_fetch (d := d) hn.1
  have hrows : WrittenBehind d (.text " ROWS") [.word "ROWS"] :=
    writtenBehind_words ["ROWS"] rfl (by decide +kernel)
  have hskip := writtenBehind_join
    (writtenBehind_counted (s := " OFFSET ") ["OFFSET"] rfl (by decide +kernel) hspells) hrows
  have hall := ((hc.append hordering).append hskip).append hfetch
  refine ⟨?_, hpaired.append (paired_word hpaired')⟩
  change Written d (core ++ (if !ordered && d.offsetNeedsOrder then
    .text " ORDER BY (SELECT NULL)" else order) ++
    .text (" OFFSET " ++ (Paging.skipped offset).text ++ " ROWS") ++ fetchClause limit) _
  simpa only [List.append_assoc, List.cons_append, List.nil_append, List.map_cons,
    List.map_nil] using hall

/-- A query between brackets, in a selection of all its rows. -/
theorem spells_selectFrom {g : Nat → List Char} {ts : List Token} (h : Spells d g ts) :
    Spells d (fun n => "SELECT * FROM ".toList ++ ('(' :: g n ++ [')']))
      (Grammar.selectFrom ++ (ts ++ [.closing])) := by
  have hselect : Spells d (fun _ => "SELECT".toList) [.key .select] := spells_keyword .select
  have hfrom : Follows d (fun _ => (String.join (["FROM"].map (" " ++ ·))).toList) [.word "FROM"] :=
    follows_wordTokens ["FROM"] (by decide +kernel)
  have htext : ("SELECT * FROM " : String) =
      "SELECT" ++ " " ++ "*" ++ String.join (["FROM"].map (" " ++ ·)) ++ " " := rfl
  have hall := hselect.append (spells_star.spaced.append (hfrom.append h.enclosed.spells.spaced))
  rw [htext]
  simpa only [Grammar.selectFrom, String.toList_append, toList_blank, List.append_assoc,
    List.cons_append, List.nil_append] using hall

/-- A query between brackets, in a selection that numbers its rows. -/
theorem spells_rowNumbers {g : Nat → List Char} {ts : List Token} (h : Spells d g ts) :
    Spells d (fun n => "SELECT q_.*, ROWNUM rn_ FROM ".toList ++ ('(' :: g n ++ [')']))
      (Grammar.rowNumbers ++ (ts ++ [.closing])) := by
  have hdot : separator '.' = some [.dot] := rfl
  have hcomma : separator ',' = some [.comma] := rfl
  have hselect : Spells d (fun _ => "SELECT".toList) [.key .select] := spells_keyword .select
  have hname : Follows d (fun _ => (String.join (["q_"].map (" " ++ ·))).toList) [.word "q_"] :=
    follows_wordTokens ["q_"] (by decide +kernel)
  have hstar : Follows d (fun _ => '.' :: "*".toList) [.dot, .mark "*"] := spells_star.behind hdot
  have hnumber : Follows d
      (fun _ => (String.join (["ROWNUM", "rn_", "FROM"].map (" " ++ ·))).toList)
      [.word "ROWNUM", .word "rn_", .word "FROM"] := follows_wordTokens _ (by decide +kernel)
  -- the text is cut where its tokens end
  have htext : ("SELECT q_.*, ROWNUM rn_ FROM " : String) =
      "SELECT" ++ String.join (["q_"].map (" " ++ ·)) ++ "." ++ "*" ++ "," ++
        String.join (["ROWNUM", "rn_", "FROM"].map (" " ++ ·)) ++ " " := rfl
  have hpoint : ".".toList = ['.'] := String.toList_ofList
  have hseparator : ",".toList = [','] := String.toList_ofList
  have hall := hselect.append (hname.append (hstar.append
    ((hnumber.append h.enclosed.spells.spaced).spells.behind hcomma)))
  rw [htext]
  simpa only [Grammar.rowNumbers, String.toList_append, toList_blank, hpoint, hseparator,
    List.append_assoc, List.cons_append, List.nil_append] using hall

/-- Words and an operator before a text. -/
theorem follows_compared {s t : String} (ws : List String) (op : BinaryOp)
    (hs : s = String.join (ws.map (" " ++ ·)) ++ " " ++ op.symbol ++ " ")
    (hws : ∀ w ∈ ws, IsBare w) {ts : List Token} (h : Spells d (fun _ => t.toList) ts) :
    Follows d (fun _ => (s ++ t).toList) (ws.map .word ++ (op.tokens ++ ts)) := by
  have hall := (follows_wordTokens (d := d) ws hws).append ((spells_symbol op).append h.spaced).spaced
  rw [hs]
  simpa only [String.toList_append, toList_blank, List.append_assoc, List.cons_append,
    List.nil_append] using hall

theorem follows_rows {t : String} {ts : List Token} (h : Spells d (fun _ => t.toList) ts) :
    Follows d (fun _ => (" WHERE ROWNUM <= " ++ t).toList)
      (.word "WHERE" :: .word "ROWNUM" :: .mark "<=" :: ts) :=
  follows_compared ["WHERE", "ROWNUM"] .lessEqual rfl (by decide +kernel) h

/-- A query inside a selection that numbers its rows, inside a selection of the later ones. -/
theorem spells_numbered {g f : Nat → List Char} {ts between lower : List Token} {skip : String}
    (h : Spells d g ts) (hf : Follows d f between) (hl : Spells d (fun _ => skip.toList) lower) :
    Spells d (fun n => "SELECT * FROM ".toList ++ ('(' :: ("SELECT q_.*, ROWNUM rn_ FROM ".toList ++
        ('(' :: (g n ++ ')' :: (" q_".toList ++ (f n ++ ')' :: (" WHERE rn_ > " ++ skip).toList)))))))
      (Grammar.selectFrom ++ (Grammar.rowNumbers ++ (ts ++ .closing :: .word "q_" :: between) ++
        .closing :: .word "WHERE" :: .word "rn_" :: .mark ">" :: lower)) := by
  have hname : Follows d (fun _ => " q_".toList) [.word "q_"] :=
    follows_wordTokens ["q_"] (by decide +kernel)
  have hlower : Follows d (fun _ => (" WHERE rn_ > " ++ skip).toList)
      (.word "WHERE" :: .word "rn_" :: .mark ">" :: lower) :=
    follows_compared ["WHERE", "rn_"] .greater rfl (by decide +kernel) hl
  have hinside := (spells_rowNumbers h).append (hname.append hf)
  have hall := (spells_selectFrom hinside).append hlower
  simpa only [List.append_assoc, List.cons_append, List.nil_append] using hall

/-- The reader finds the query, its ordering and the bounds of its rows. -/
theorem written_rownum {limit offset : Option Value} (hn : Numbers limit offset)
    {core order : Fragment} {c o : List Token} (hc : Written d core c) (hcp : Paired c)
    (ho : WrittenBehind d order o) (hop : Paired o) :
    ∃ ts, Written d (Paging.rownum core order limit offset) ts ∧ Paired ts ∧
      (c ++ o).length ≤ ts.length ∧ Grammar.numbered? ts =
        some (c ++ o, SetTree.rowTokens d (Paging.skipped offset) limit) := by
  have hinner : Written d (core ++ order) (c ++ o) := hc.append ho
  have hpaired : Paired (c ++ o) := hcp.append hop
  have hselect : ("SELECT * FROM (" : String) = "SELECT * FROM " ++ "(" := rfl
  have hnumbered : ("SELECT * FROM (SELECT q_.*, ROWNUM rn_ FROM (" : String) =
      "SELECT * FROM " ++ "(" ++ "SELECT q_.*, ROWNUM rn_ FROM " ++ "(" := rfl
  have hafter : (") WHERE rn_ > " : String) = ")" ++ " WHERE rn_ > " := rfl
  obtain ⟨hskip, hskipPaired⟩ := spells_bound (d := d) hn.skipped
  have hlowerPaired : Paired (.word "WHERE" :: .word "rn_" :: .mark ">" ::
      SetTree.bound d (Paging.skipped offset)) := .plain rfl (.plain rfl (.plain rfl hskipPaired))
  have hrowsPaired {ts : List Token} (h : Paired ts) :
      Paired (.word "WHERE" :: .word "ROWNUM" :: .mark "<=" :: ts) :=
    .plain rfl (.plain rfl (.plain rfl h))
  cases limit with
  | none =>
    have hbetween : (") q_) WHERE rn_ > " : String) = ")" ++ " q_" ++ ")" ++ " WHERE rn_ > " := rfl
    -- without a limit, nothing bounds the rows of the inner selection
    have hall := spells_numbered hinner follows_nothing hskip
    unfold SetTree.rowTokens
    dsimp only
    refine ⟨_, ?_, Grammar.paired_selectFrom
      (Grammar.paired_rowNumbers hpaired (.plain rfl .nil)) hlowerPaired, ?_,
      Grammar.numbered?_lower hpaired .nil⟩
    · simpa only [Written, Paging.rownum, Fragment.chars_append, Fragment.chars_text,
        Fragment.bindings_text, Fragment.bindings_append, hnumbered, hbetween, String.toList_append,
        toList_opening, toList_closing, List.length_nil, Nat.add_zero, List.append_assoc,
        List.cons_append, List.nil_append] using hall
    · simp only [List.length_append]
      omega
  | some v =>
    unfold Paging.rownum SetTree.rowTokens
    dsimp only
    split
    -- from the first row on, one selection with an upper bound is enough
    · obtain ⟨hlimit, hlimitPaired⟩ := spells_bound (d := d) (hn.1 v rfl)
      have hrownum : (") WHERE ROWNUM <= " : String) = ")" ++ " WHERE ROWNUM <= " := rfl
      have hall := (spells_selectFrom hinner).append (follows_rows hlimit)
      refine ⟨Grammar.selectFrom ++ ((c ++ o) ++ .closing :: .word "WHERE" :: .word "ROWNUM" ::
        .mark "<=" :: SetTree.bound d v), ?_, Grammar.paired_selectFrom hpaired (hrowsPaired hlimitPaired),
        ?_, Grammar.numbered?_upper hpaired⟩
      · simpa only [Written, Fragment.chars_append, Fragment.chars_text, Fragment.bindings_text,
          Fragment.bindings_append, hselect, hrownum, String.toList_append, toList_opening,
          toList_closing, List.length_nil, Nat.add_zero, List.append_assoc, List.cons_append,
          List.nil_append] using hall
      · simp only [List.length_append]
        omega
    · obtain ⟨hupper, hupperPaired⟩ := spells_bound (d := d) (hn.plus rfl)
      have hname : (") q_ WHERE ROWNUM <= " : String) = ")" ++ " q_" ++ " WHERE ROWNUM <= " := rfl
      have hall := spells_numbered hinner (follows_rows hupper) hskip
      refine ⟨_, ?_, Grammar.paired_selectFrom (Grammar.paired_rowNumbers hpaired
        (.plain rfl (hrowsPaired hupperPaired))) hlowerPaired, ?_,
        Grammar.numbered?_lower hpaired (hrowsPaired hupperPaired)⟩
      · simpa only [Written, Fragment.chars_append, Fragment.chars_text, Fragment.bindings_text,
          Fragment.bindings_append, hnumbered, hname, hafter, String.toList_append, toList_opening,
          toList_closing, List.length_nil, Nat.add_zero, List.append_assoc, List.cons_append,
          List.nil_append] using hall
      · simp only [List.length_append]
        omega

/-- A query between brackets, in a selection of its first rows. -/
theorem written_topped {core order : Fragment} {c o : List Token} (hc : Written d core c)
    (ho : WrittenBehind d order o) {v : Value} (hv : Plan.isBound v = true) :
    Written d (Paging.topped core order v)
      (.key .select :: .word "TOP" :: .word v.text :: .mark "*" :: .word "FROM" :: .opening ::
        (c ++ .closing :: .word "AS" :: .word "q_" :: o)) := by
  have hselect : Spells d (fun _ => "SELECT".toList) [.key .select] := spells_keyword .select
  have htop : Follows d (fun _ => " TOP".toList) [.word "TOP"] :=
    follows_wordTokens ["TOP"] (by decide +kernel)
  have hfrom : Follows d (fun _ => " FROM".toList) [.word "FROM"] :=
    follows_wordTokens ["FROM"] (by decide +kernel)
  have hname : Follows d (fun _ => " AS q_".toList) [.word "AS", .word "q_"] :=
    follows_wordTokens ["AS", "q_"] (by decide +kernel)
  have hhead := (hselect.append htop).append
    ((bound_word (d := d) hv).1.spaced.append (spells_star.spaced.append hfrom))
  have hquery := hhead.append (Spells.enclosed hc).spells.spaced
  have hall := (hquery.append hname).append (ho.shift core.bindings.length)
  -- the texts of the rendering are cut where the tokens end
  have hopen : ("SELECT TOP " : String) = "SELECT" ++ " TOP" ++ " " := rfl
  have hstar : (" * FROM (" : String) = " " ++ "*" ++ " FROM" ++ " " ++ "(" := rfl
  have hclose : (") AS q_" : String) = ")" ++ " AS q_" := rfl
  simpa only [Written, Paging.topped, Fragment.chars_append, Fragment.chars_text,
    Fragment.bindings_text, Fragment.bindings_append, hopen, hstar, hclose, String.toList_append,
    toList_blank, toList_opening, toList_closing, List.length_append, List.length_nil, Nat.add_zero,
    Nat.zero_add, List.append_assoc, List.cons_append, List.nil_append] using hall

end Scan

end PolyQuery
