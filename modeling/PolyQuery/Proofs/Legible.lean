import PolyQuery.Proofs.Outline
import PolyQuery.Proofs.SetReading

/-! Texts that keep to their place in a selection. Wherever such a text stands, its brackets are
paired, and outside of them is no word that would end the clause around it. Calls and names are
such texts, and so is what is put together from them: `legible_call`, `legible_path`. -/
namespace PolyQuery

theorem Dialect.backend_of_top {d : Dialect} (h : d.paginationStyle = .top) :
    d.backend = .sqlserver := by
  unfold paginationStyle at h
  split at h
  · split at h <;> cases h
  · assumption
  · cases h

namespace Token
variable {d : Dialect}

theorem isClause_word {w : String} (hw : Text.upper w ∉ ["FROM", "ORDER", "LIMIT", "OFFSET"])
    (htop : d.paginationStyle = .top → Text.upper w ≠ "TOP") : isClause d (.word w) = false := by
  simp only [List.mem_cons, List.not_mem_nil, or_false, not_or] at hw
  obtain ⟨hfrom, horder, hlimit, hoffset⟩ := hw
  have hno : isTop d (.word w) = false := by
    rw [isTop]
    by_cases hd : d.paginationStyle = .top
    · rw [beq_eq_false_iff_ne.2 (htop hd), Bool.and_false]
    · rw [decide_eq_false hd, Bool.false_and]
  simp [isClause, isFrom, isBreak, isSection, isPage, setOperator?, hno, hfrom, horder, hlimit,
    hoffset]

theorem upper_ne {w : String} (h : clauseWords.contains (Text.upper w) = false) :
    ∀ v ∈ clauseWords, Text.upper w ≠ v := by
  rintro v hv rfl
  rw [List.contains_iff_mem.2 hv] at h
  cases h

theorem isClause_safe {w : String} (h : clauseWords.contains (Text.upper w) = false) :
    isClause d (.word w) = false := by
  have hne := upper_ne h
  have hmem : ∀ v ∈ ["FROM", "ORDER", "LIMIT", "OFFSET"], v ∈ clauseWords := by decide
  exact isClause_word (fun hw => hne _ (hmem _ hw) rfl) fun _ => hne "TOP" (by decide)

/-- A word that is none of these ends no clause. -/
theorem isClause_ofWord (d : Dialect) {w : String} (h : clauseWords.contains (Text.upper w) = false) :
    isClause d (ofWord d w) = false := by
  have hne := upper_ne h
  unfold ofWord
  cases hk : Keyword.ofWord? d w with
  | none => exact isClause_safe h
  | some k =>
    have hfound := List.find?_some hk
    have hupper : k.text d = Text.upper w := beq_iff_eq.1 hfound
    cases k with
    | union => exact absurd hupper.symm (hne "UNION" (by decide))
    | intersect => exact absurd hupper.symm (hne "INTERSECT" (by decide))
    | except =>
      exfalso
      rw [Keyword.text, Dialect.setOperatorKeyword] at hupper
      split at hupper
      · exact hne "MINUS" (by decide) hupper.symm
      · exact hne "EXCEPT" (by decide) hupper.symm
    | _ => rfl

/-- A name that goes without quotes ends no clause. -/
theorem isClause_name {name : String} (h : d.needsQuotes name = false) :
    isClause d (.word name) = false := by
  have hfree : ∀ w ∈ d.backend.reservedWords, Text.upper name ≠ w := by
    rintro w hw rfl
    have hreserved : d.isReserved name = true := List.contains_iff_mem.2 hw
    simp [Dialect.needsQuotes, hreserved] at h
  have hcommon : ∀ w ∈ Backend.commonWords, w ∈ d.backend.reservedWords := by
    intro w hw
    cases d.backend <;> exact List.mem_append_left _ hw
  refine isClause_word (fun hw => ?_) fun hd => ?_
  · have hmem : ∀ w ∈ ["FROM", "ORDER", "LIMIT", "OFFSET"], w ∈ Backend.commonWords := by decide
    exact hfree _ (hcommon _ (hmem _ hw)) rfl
  · apply hfree
    rw [Dialect.backend_of_top hd]
    decide

theorem isClause_part (p : Option String) : isClause d (Tree.partToken d p) = false := by
  cases p with
  | none => rfl
  | some name =>
    rw [Tree.partToken]
    cases h : d.needsQuotes name with
    | true => rfl
    | false => exact isClause_name h

end Token

theorem partToken_plain {d : Dialect} (p : Option String) :
    (Tree.partToken d p).isBracket = false := by
  cases p with
  | none => rfl
  | some name => rw [Tree.partToken]; split <;> rfl

theorem free_path {d : Dialect} (parts : List (Option String)) :
    Free (Token.isClause d) (Tree.pathTokens d parts) := by
  induction parts with
  | nil => exact .nil
  | cons p ps ih =>
    cases ps with
    | nil => exact .plain (partToken_plain p) (Token.isClause_part p) .nil
    | cons q qs => exact .plain (partToken_plain p) (Token.isClause_part p) (.plain rfl rfl ih)

namespace Scan
variable {d : Dialect}

/-- A text that stands alone or behind a minus sign, for every number of values before it, with
paired brackets and no word of a clause outside of them. -/
def Firm (d : Dialect) (g : Nat → List Char) : Prop :=
  ∀ p, p = .nothing ∨ p = .mark '-' → ∃ ts q, q.Settled ∧
    Free (Token.isClause d) (ts ++ q.flush d) ∧ ∀ n, run d p (g n) = (ts, q)

theorem Firm.spells {g : Nat → List Char} (h : Firm d g) :
    ∃ ts, Spells d g ts ∧ Free (Token.isClause d) ts := by
  obtain ⟨ts, q, hq, hfree, hrun⟩ := h .nothing (.inl rfl)
  exact ⟨_, ⟨ts, q, hq, rfl, hrun⟩, hfree⟩

theorem firm_of_follows {g : Nat → List Char} {ts : List Token} (h : Follows d g ts)
    (hts : Free (Token.isClause d) ts) : Firm d g := by
  have hflush (p : Pending) (hp : p = .nothing ∨ p = .mark '-') :
      p.Settled ∧ Free (Token.isClause d) (p.flush d) := by
    rcases hp with rfl | rfl
    · exact ⟨trivial, .nil⟩
    · exact ⟨trivial, .plain rfl rfl .nil⟩
  intro p hp
  obtain ⟨hsettled, hfree⟩ := hflush p hp
  obtain ⟨us, q, hq, heq, hrun⟩ := h p hsettled
  exact ⟨us, q, hq, heq ▸ hfree.append hts, hrun⟩

/-- A text that begins with no sign is scanned behind one as it is alone. -/
theorem firm_of_spells {g : Nat → List Char} {t : Token} {ts : List Token}
    (h : Spells d g (t :: ts)) (ht : ∀ s, t = .mark s → s = "*")
    (hts : Free (Token.isClause d) (t :: ts)) : Firm d g := by
  have hfirst := h.first ht
  obtain ⟨us, q, hq, heq, hrun⟩ := h
  rintro p (rfl | rfl)
  · exact ⟨us, q, hq, heq ▸ hts, hrun⟩
  · refine ⟨.mark "-" :: us, q, hq, ?_, fun n => ?_⟩
    · rw [List.cons_append, heq]
      exact .plain rfl rfl hts
    · obtain ⟨c, cs, hg, hc⟩ := hfirst n
      rw [hg, run_minus hc, ← hg, hrun]

theorem Firm.append {g h : Nat → List Char} {us : List Token} (hg : Firm d g)
    (hh : Follows d h us) (hus : Free (Token.isClause d) us) : Firm d fun n => g n ++ h n := by
  intro p hp
  obtain ⟨ts, q, hq, hts, hrun⟩ := hg p hp
  obtain ⟨vs, r, hr, heq, hrun'⟩ := hh q hq
  refine ⟨ts ++ vs, r, hr, ?_, fun n => run_append_of (hrun n) (hrun' n)⟩
  rw [List.append_assoc, heq, ← List.append_assoc]
  exact hts.append hus

theorem Firm.shift {g : Nat → List Char} (h : Firm d g) (m : Nat) : Firm d fun n => g (n + m) := by
  intro p hp
  obtain ⟨ts, q, hq, hts, hrun⟩ := h p hp
  exact ⟨ts, q, hq, hts, fun n => hrun (n + m)⟩

/-- A second sign joins the first one. -/
theorem Firm.negated {g : Nat → List Char} (h : Firm d g) : Firm d fun n => '-' :: g n := by
  have hminus : begin d '-' = ([], .mark '-') := begin_sign rfl rfl rfl rfl
  rintro p (rfl | rfl)
  · obtain ⟨ts, q, hq, hts, hrun⟩ := h (.mark '-') (.inr rfl)
    refine ⟨ts, q, hq, hts, fun n => ?_⟩
    have hstep : step d .nothing '-' = ([], .mark '-') := hminus
    rw [run, hstep, hrun]
    rfl
  · obtain ⟨ts, q, hq, hts, hrun⟩ := h .nothing (.inl rfl)
    refine ⟨.mark "--" :: ts, q, hq, .plain rfl rfl hts, fun n => ?_⟩
    have hstep : step d (.mark '-') '-' = ([.mark "--"], .nothing) := rfl
    rw [run, hstep, hrun]
    rfl

/-- A fragment that may be a part of a clause. -/
def Legible (d : Dialect) (f : Fragment) : Prop := Firm d fun n => f.chars d n

/-- A fragment that may follow such a part. -/
def LegibleBehind (d : Dialect) (f : Fragment) : Prop :=
  ∃ ts, WrittenBehind d f ts ∧ Free (Token.isClause d) ts

theorem Legible.append {f g : Fragment} (hf : Legible d f) (hg : LegibleBehind d g) :
    Legible d (f ++ g) := by
  obtain ⟨ts, hwritten, hts⟩ := hg
  have h := Firm.append hf (Follows.shift hwritten f.bindings.length) hts
  simpa only [Legible, Fragment.chars_append] using h

theorem LegibleBehind.append {f g : Fragment} (hf : LegibleBehind d f) (hg : LegibleBehind d g) :
    LegibleBehind d (f ++ g) := by
  obtain ⟨ts, hwritten, hts⟩ := hf
  obtain ⟨us, hwritten', hus⟩ := hg
  exact ⟨ts ++ us, hwritten.append hwritten', hts.append hus⟩

theorem LegibleBehind.legible {f : Fragment} (h : LegibleBehind d f) : Legible d f := by
  obtain ⟨ts, hwritten, hts⟩ := h
  exact firm_of_follows hwritten hts

theorem Legible.spaced {f : Fragment} (h : Legible d f) : LegibleBehind d (.text " " ++ f) := by
  obtain ⟨ts, hwritten, hts⟩ := Firm.spells h
  exact ⟨ts, Written.spaced hwritten, hts⟩

theorem Legible.texts {s t : String} {f : Fragment}
    (h : Legible d (.text s ++ (.text t ++ f))) : Legible d (.text (s ++ t) ++ f) := by
  simpa only [Legible, chars_texts] using h

theorem legibleBehind_empty : LegibleBehind d .empty := ⟨[], writtenBehind_empty, .nil⟩

theorem Legible.enclosed {f : Fragment} (h : Legible d f) : LegibleBehind d f.enclosed := by
  obtain ⟨ts, hwritten, hts⟩ := Firm.spells h
  exact ⟨_, Written.enclosed hwritten, .enclosed hts.paired⟩

/-- Between brackets anything may stand that is steady. -/
theorem Steady.legible_enclosed {f : Fragment} (h : Steady d fun n => f.chars d n) :
    LegibleBehind d f.enclosed := by
  obtain ⟨hspells, hpaired⟩ := h.spells
  exact ⟨_, Written.enclosed hspells, .enclosed hpaired⟩

theorem legible_tokens {s : String} {t : Token} {ts : List Token}
    (h : Spells d (fun _ => s.toList) (t :: ts)) (ht : ∀ s, t = .mark s → s = "*")
    (hts : Free (Token.isClause d) (t :: ts)) : Legible d (.text s) := by
  have hfirm := firm_of_spells h ht hts
  simpa only [Legible, Fragment.chars_text] using hfirm

/-- Bare words, each behind a blank. -/
theorem follows_bare (ws : List String)
    (h : ∀ w ∈ ws, Dialect.isPlainName w.toList = true) :
    Follows d (fun _ => (String.join (ws.map fun w => " " ++ w)).toList)
      (ws.map (Token.ofWord d)) := by
  induction ws with
  | nil => exact follows_nothing
  | cons w ws ih =>
    obtain ⟨hw, hws⟩ := List.forall_mem_cons.1 h
    have hall := (spells_word (d := d) hw).spaced.append (ih hws)
    simpa only [List.map_cons, String.join_cons, String.toList_append, toList_blank,
      List.cons_append, List.nil_append] using hall

theorem IsBare.ofWord {w : String} (h : IsBare w) : Token.ofWord d w = .word w := by
  have hnone : Keyword.ofWord? d w = none := by
    obtain ⟨_, hsqlite, horacle⟩ := h
    rcases Keyword.text_cases d with htext | ⟨_, htext⟩
    · rw [Keyword.ofWord?, htext]
      exact hsqlite
    · rw [Keyword.ofWord?, htext]
      exact horacle
  rw [Token.ofWord, hnone]

/-- Such words, each behind a blank. -/
theorem follows_wordTokens (ws : List String) (h : ∀ w ∈ ws, IsBare w) :
    Follows d (fun _ => (String.join (ws.map fun w => " " ++ w)).toList) (ws.map .word) := by
  have hall := follows_bare (d := d) ws fun w hw => (h w hw).1
  have hmap : ws.map (Token.ofWord d) = ws.map .word :=
    List.map_congr_left fun w hw => (h w hw).ofWord
  rwa [hmap] at hall

theorem free_words {ws : List String} (h : ∀ w ∈ ws, IsSafe w) :
    Free (Token.isClause d) (ws.map (Token.ofWord d)) := by
  refine .of_plain fun t ht => ?_
  obtain ⟨w, hw, rfl⟩ := List.mem_map.1 ht
  exact ⟨Token.isBracket_ofWord d w, Token.isClause_ofWord d (h w hw).2⟩

theorem legibleBehind_words {s : String} (ws : List String) (hs : s = String.join (ws.map (" " ++ ·)))
    (h : ∀ w ∈ ws, IsSafe w) : LegibleBehind d (.text s) := by
  have hfollows := follows_bare (d := d) ws fun w hw => (h w hw).1
  rw [← hs] at hfollows
  exact ⟨_, writtenBehind_text hfollows, free_words h⟩

/-- Words before a part of a clause. -/
theorem Legible.behindWords {f : Fragment} (hf : Legible d f) {s : String} (ws : List String)
    (hs : s = String.join (ws.map (" " ++ ·)) ++ " ") (h : ∀ w ∈ ws, IsSafe w) :
    LegibleBehind d (.text s ++ f) := by
  obtain ⟨ts, hwritten, hts⟩ := hf.spaced
  have hwords := writtenBehind_text (follows_bare (d := d) ws fun w hw => (h w hw).1)
  rw [hs]
  exact ⟨_, (hwords.append hwritten).texts, (free_words h).append hts⟩

theorem Legible.clause {f : Fragment} (hf : Legible d f) {s : String} (ws : List String)
    (hs : s = String.join (ws.map (" " ++ ·))) (h : ∀ w ∈ ws, IsSafe w) :
    LegibleBehind d (Sql.clause s f) :=
  hf.behindWords ws (congrArg (· ++ " ") hs) h

theorem legible_word {w : String} (h : IsSafe w) : Legible d (.text w) := by
  refine legible_tokens (spells_word h.1) (fun s hs => ?_)
    (.plain (Token.isBracket_ofWord d w) (Token.isClause_ofWord d h.2) .nil)
  unfold Token.ofWord at hs
  split at hs <;> cases hs

/-- A word before a part of a clause. -/
theorem Legible.behindWord {f : Fragment} (hf : Legible d f) {w : String} (h : IsSafe w) :
    Legible d (.text (w ++ " ") ++ f) := ((legible_word h).append hf.spaced).texts

theorem partToken_sign (p : Option String) : ∀ s, Tree.partToken d p = .mark s → s = "*" := by
  intro s hs
  cases p with
  | none => cases hs; rfl
  | some name =>
    rw [Tree.partToken] at hs
    split at hs <;> cases hs

theorem legible_path (parts : List (Option String)) (hne : parts ≠ []) :
    Legible d (.text (".".intercalate (parts.map (partText d)))) := by
  have hspells := spells_path (d := d) parts
  have hfree := free_path (d := d) parts
  match parts, hne with
  | [p], _ => exact legible_tokens hspells (partToken_sign p) hfree
  | p :: q :: ps, _ => exact legible_tokens hspells (partToken_sign p) hfree

theorem legible_qualified (table last : Option String) :
    Legible d (.text (Sql.qualified d table (partText d last))) := by
  have hlast : Legible d (.text (partText d last)) := by
    have h := legible_path (d := d) [last] (List.cons_ne_nil _ _)
    simpa using h
  cases table with
  | none => exact hlast
  | some t =>
    rw [Sql.qualified]
    by_cases ht : t = ""
    · rw [if_pos ht]
      exact hlast
    · have hne : (Tree.nameParts t).map (partText d) ≠ [] :=
        fun h => nameParts_ne_nil t (List.map_eq_nil_iff.1 h)
      have htext : d.quoteQualified t ++ "." ++ partText d last =
          ".".intercalate ((Tree.nameParts t ++ [last]).map (partText d)) := by
        rw [List.map_append, List.map_cons, List.map_nil, intercalate_last hne,
          ← quoteQualified_eq]
      rw [if_neg ht, htext]
      exact legible_path _ (by simp)

theorem legible_bind (b : Binding) : Legible d (.bind b) :=
  firm_of_spells (spells_hole b) (fun _ h => nomatch h) (.plain rfl rfl .nil)

/-- A function's name before its arguments, and what follows them. -/
theorem Legible.around {s t : String} {f : Fragment} (hs : Legible d (.text s))
    (ht : LegibleBehind d (.text t)) (hf : Steady d fun n => f.chars d n) :
    Legible d (.text (s ++ "(") ++ f ++ .text (")" ++ t)) := by
  have hall := (hs.append hf.legible_enclosed).append ht
  simpa only [Legible, Fragment.enclosed, Fragment.chars_append, Fragment.chars_text,
    Fragment.bindings_append, Fragment.bindings_text, List.append_nil, List.length_append,
    List.length_nil, Nat.add_zero, Nat.zero_add, String.toList_append, toList_opening,
    toList_closing, List.append_assoc, List.cons_append, List.nil_append] using hall

theorem Firm.called {s : String} (hs : Legible d (.text s)) {g : Nat → List Char}
    (hg : Steady d g) : Firm d fun n => s.toList ++ ('(' :: g n ++ [')']) := by
  have hname : Firm d fun _ => s.toList := by simpa only [Legible, Fragment.chars_text] using hs
  obtain ⟨hspells, hpaired⟩ := hg.spells
  exact hname.append hspells.enclosed (.enclosed hpaired)

/-- The fixed texts of a form may stand in a clause. -/
def LegibleForm (d : Dialect) : FunctionForm → Prop
  | .call name => Legible d (.text name)
  | .joined operator => CalmText operator
  | .constant text => Legible d (.text text)
  | .stringAggregate _ => True
  | .listAggregate => True

theorem legible_layout {form : FunctionForm} (hform : LegibleForm d form) (distinct : Bool)
    {fs : List Fragment} (h : ∀ f ∈ fs, Steady d fun n => f.chars d n) :
    Legible d (Fragment.ofLayout (form.layout fs.length distinct) fs) := by
  have hword (b : Bool) : Steady d fun _ => (FunctionForm.distinctWord b).toList :=
    Steady.calmText (by cases b <;> exact calmText_ofList rfl)
  have hcomma : Steady d fun _ => ", ".toList := Steady.calmText (calmText_ofList rfl)
  have hfirst := steady_argument h fs.length 0 (m := "undefined") (calmText_ofList rfl)
  have hsecond := steady_argument h fs.length 1 (m := "','") (calmText_ofList rfl)
  cases form with
  | call name =>
    have hlist : Steady d fun n => (Fragment.join ", " fs).chars d n :=
      Steady.join (calmText_ofList rfl) h
    have hinner := (hword distinct).text.fragment hlist
    have hall := Legible.around hform (t := "") legibleBehind_empty hinner
    have hempty : "".toList = [] := rfl
    simp only [FunctionForm.layout, Fragment.ofLayout_separated]
    simpa only [Legible, Fragment.chars_append, Fragment.chars_text, String.toList_append,
      toList_opening, toList_closing, hempty, Fragment.bindings_text, Fragment.bindings_append,
      List.length_nil, List.length_append, Nat.add_zero, Nat.zero_add, List.append_assoc,
      List.cons_append, List.nil_append, List.append_nil] using hall
  | joined operator =>
    simp only [FunctionForm.layout, Fragment.ofLayout_separated]
    exact (Steady.join (CalmText.spaced hform) h).legible_enclosed.legible
  | constant text =>
    have htext : Firm d fun _ => text.toList := by
      simpa only [Legible, LegibleForm, Fragment.chars_text] using hform
    simpa only [Legible, chars_ofLayout, FunctionForm.layout, List.flatMap_cons, List.flatMap_nil,
      partChars_text, List.append_nil] using htext
  | stringAggregate keepsDistinct =>
    have hname : Legible d (.text "STRING_AGG") := legible_word (by decide +kernel)
    have hinner := (((hword (keepsDistinct && distinct)).append hfirst).append hcomma).append hsecond
    have hall := Firm.called hname hinner
    have hopen : ("STRING_AGG(" : String) = "STRING_AGG" ++ "(" := rfl
    simpa only [Legible, chars_ofLayout, FunctionForm.layout, List.flatMap_cons, List.flatMap_nil,
      partChars_text, hopen, String.toList_append, toList_opening, toList_closing,
      List.append_assoc, List.cons_append, List.nil_append, List.append_nil] using hall
  | listAggregate =>
    have hname : Legible d (.text "LISTAGG") := legible_word (by decide +kernel)
    have horder : Steady d fun _ => "ORDER BY ".toList := Steady.calmText (calmText_ofList rfl)
    obtain ⟨hspells, hpaired⟩ := (horder.append hfirst).spells
    -- the ordering stands in brackets of its own
    have hwords := follows_bare (d := d) ["WITHIN", "GROUP"] (by decide +kernel)
    have hwithin := hwords.append hspells.enclosed.spells.spaced
    have hsafe : ∀ w ∈ ["WITHIN", "GROUP"], IsSafe w := by decide +kernel
    have hall := (Firm.called hname ((hfirst.append hcomma).append hsecond)).append hwithin
      ((free_words hsafe).append (.enclosed hpaired))
    have hopen : ("LISTAGG(" : String) = "LISTAGG" ++ "(" := rfl
    have hbetween : (") WITHIN GROUP (ORDER BY " : String) =
        ")" ++ String.join (["WITHIN", "GROUP"].map (" " ++ ·)) ++ " " ++ "(" ++ "ORDER BY " := rfl
    simpa only [Legible, chars_ofLayout, FunctionForm.layout, List.flatMap_cons, List.flatMap_nil,
      partChars_text, hopen, hbetween, toList_blank, String.toList_append, toList_opening,
      toList_closing, List.append_assoc, List.cons_append, List.nil_append,
      List.append_nil] using hall

/-- The forms that backends give to functions may stand in a clause. -/
theorem OwnForm.legible {form : FunctionForm} (h : OwnForm form) : LegibleForm d form := by
  cases h with
  | call hsafe _ => exact legible_word hsafe
  | constant hsafe _ => exact legible_word hsafe
  -- a package and its function, with a point between them
  | random =>
    have hdot : separator '.' = some [.dot] := rfl
    have hfirst : Legible d (.text "DBMS_RANDOM") := legible_word (by decide +kernel)
    have hname : Firm d fun _ => "DBMS_RANDOM".toList := by
      simpa only [Legible, Fragment.chars_text] using hfirst
    have hvalue := (spells_word (d := d) (w := "VALUE") (by decide +kernel)).behind hdot
    have hsafe : ∀ w ∈ ["VALUE"], IsSafe w := by decide +kernel
    have hall := hname.append hvalue (.plain rfl rfl (free_words hsafe))
    have heq : ("DBMS_RANDOM.VALUE" : String) = "DBMS_RANDOM" ++ "." ++ "VALUE" := rfl
    have hpoint : ".".toList = ['.'] := String.toList_ofList
    simpa only [LegibleForm, Legible, Fragment.chars_text, heq, String.toList_append, hpoint,
      List.append_assoc, List.cons_append, List.nil_append] using hall
  -- a function without arguments
  | date =>
    have hname : Legible d (.text "GETDATE") := legible_word (by decide +kernel)
    have hnothing : Steady d fun _ => [] := steady_calm rfl
    have hall := Firm.called hname hnothing
    have heq : ("GETDATE()" : String) = "GETDATE" ++ "(" ++ ")" := rfl
    simpa only [LegibleForm, Legible, Fragment.chars_text, heq, String.toList_append,
      toList_opening, toList_closing, List.append_assoc, List.cons_append, List.nil_append] using hall
  | joined => exact calmText_ofList rfl
  | stringAggregate => trivial
  | listAggregate => trivial

theorem legible_call {name : String} (hname : Legible d (.text name)) (distinct : Bool)
    {fs : List Fragment} (h : ∀ f ∈ fs, Steady d fun n => f.chars d n) :
    Legible d (Fragment.ofLayout (d.functionLayout name fs.length distinct) fs) := by
  unfold Dialect.functionLayout
  cases hf : d.functionForm? name with
  | none =>
    have hform : LegibleForm d (.call name) := hname
    exact legible_layout hform distinct h
  | some form =>
    exact legible_layout (ownForm_of_functionForm? hf).legible distinct h

theorem Legible.joined {s : String} {fs : List Fragment} (hne : fs ≠ [])
    (hs : ∀ f, Legible d f → LegibleBehind d (.text s ++ f)) (h : ∀ f ∈ fs, Legible d f) :
    Legible d (Fragment.join s fs) := by
  induction fs with
  | nil => exact absurd rfl hne
  | cons f fs ih =>
    cases fs with
    | nil => exact h f (by simp)
    | cons g gs =>
      have hrest := ih (List.cons_ne_nil _ _) fun k hk => h k (by simp [hk])
      rw [Fragment.join_cons_cons, Fragment.append_assoc]
      exact (h f (by simp)).append (hs _ hrest)

theorem Written.behindComma {f : Fragment} {ts : List Token} (h : Written d f ts) :
    WrittenBehind d (.text ", " ++ f) (.comma :: ts) := by
  have hcomma : separator ',' = some [.comma] := rfl
  have hcommas : ", ".toList = [',', ' '] := String.toList_ofList
  have hall := (Spells.spaced h).spells.behind hcomma
  simpa only [WrittenBehind, Fragment.chars_append, Fragment.chars_text, hcommas,
    Fragment.bindings_text, List.length_nil, Nat.add_zero, List.cons_append,
    List.nil_append] using hall

theorem Legible.behindComma {f : Fragment} (hf : Legible d f) :
    LegibleBehind d (.text ", " ++ f) := by
  obtain ⟨ts, hwritten, hts⟩ := Firm.spells hf
  exact ⟨.comma :: ts, Written.behindComma hwritten, .plain rfl rfl hts⟩

theorem Legible.list {fs : List Fragment} (hne : fs ≠ []) (h : ∀ f ∈ fs, Legible d f) :
    Legible d (Fragment.join ", " fs) := Legible.joined hne (fun _ => Legible.behindComma) h

theorem free_operator (op : BinaryOp) : Free (Token.isClause d) op.tokens := by
  cases op with
  | notLike => exact .plain rfl rfl (.plain rfl rfl .nil)
  | _ => exact .plain rfl rfl .nil

end Scan

end PolyQuery
