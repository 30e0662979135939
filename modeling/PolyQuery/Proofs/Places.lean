import PolyQuery.Proofs.Exposed

/-! Calls as texts around their operands: a name, brackets, and what stands in them with commas or
`||` between. Main statement: `reads_expr`, every expression is written as one operand. -/
namespace PolyQuery

namespace FunctionForm

/-- The word before the brackets. -/
def head : FunctionForm → String
  | call name => name
  | joined _ => ""
  | constant text => text
  | stringAggregate _ => "STRING_AGG"
  | listAggregate => "LISTAGG"

/-- Whether the word `DISTINCT` is written where it is asked for. -/
def keepsWord (distinct : Bool) : FunctionForm → Bool
  | call _ => distinct
  | stringAggregate keepsDistinct => keepsDistinct && distinct
  | _ => false

/-- What stands between two operands. -/
def between : FunctionForm → String
  | joined operator => " " ++ operator ++ " "
  | _ => ", "

/-- What a form writes as its operands for `count` arguments. -/
def places (count : Nat) : FunctionForm → List LayoutPart
  | constant _ => []
  | stringAggregate _ => [argumentOr count 0 "undefined", argumentOr count 1 "','"]
  | listAggregate => [argumentOr count 0 "undefined", argumentOr count 1 "','"]
  | _ => (List.range count).map .argument

/-- What stands between the brackets. -/
def inner (count : Nat) (distinct : Bool) (form : FunctionForm) : List LayoutPart :=
  .text (distinctWord (form.keepsWord distinct)) ::
    (form.places count).intersperse (.text form.between)

/-- What stands behind the brackets. -/
def rest (count : Nat) : FunctionForm → List LayoutPart
  | listAggregate =>
    [.text " WITHIN GROUP (ORDER BY ", argumentOr count 0 "undefined", .text ")"]
  | _ => []

/-- A form that is no constant has brackets around its operands. -/
def isBracketed : FunctionForm → Bool
  | constant _ => false
  | _ => true

end FunctionForm

namespace Scan
variable {d : Dialect} {fs : List Fragment}

theorem chars_layout {form : FunctionForm} (h : form.isBracketed = true) (count : Nat)
    (distinct : Bool) (n : Nat) :
    (Fragment.ofLayout (form.layout count distinct) fs).chars d n = form.head.toList ++
      ('(' :: (form.inner count distinct).flatMap (partChars d fs n) ++ [')']) ++
        (form.rest count).flatMap (partChars d fs n) := by
  have hnone : "".toList = [] := rfl
  have hword : (FunctionForm.distinctWord false).toList = [] := rfl
  cases form with
  | call name =>
    simp only [chars_ofLayout, FunctionForm.layout, FunctionForm.head, FunctionForm.inner,
      FunctionForm.keepsWord, FunctionForm.places, FunctionForm.between, FunctionForm.rest,
      FunctionForm.separated, List.flatMap_append, List.flatMap_cons, List.flatMap_nil,
      partChars_text, String.toList_append, toList_opening, toList_closing, List.append_assoc,
      List.cons_append, List.nil_append, List.append_nil]
  | joined operator =>
    simp only [chars_ofLayout, FunctionForm.layout, FunctionForm.head, FunctionForm.inner,
      FunctionForm.keepsWord, FunctionForm.places, FunctionForm.between, FunctionForm.rest,
      FunctionForm.separated, hnone, hword, List.flatMap_append, List.flatMap_cons,
      List.flatMap_nil, partChars_text, toList_opening, toList_closing, List.cons_append,
      List.nil_append, List.append_nil]
  | constant text => cases h
  | stringAggregate keepsDistinct =>
    -- the layout writes the bracket together with the name
    have hopen : ("STRING_AGG(" : String) = "STRING_AGG" ++ "(" := rfl
    simp only [chars_ofLayout, FunctionForm.layout, FunctionForm.head, FunctionForm.inner,
      FunctionForm.keepsWord, FunctionForm.places, FunctionForm.between, FunctionForm.rest,
      List.intersperse_cons_cons, List.intersperse_singleton, hopen, List.flatMap_cons,
      List.flatMap_nil, partChars_text, String.toList_append, toList_opening, toList_closing,
      List.append_assoc, List.cons_append, List.nil_append, List.append_nil]
  | listAggregate =>
    have hopen : ("LISTAGG(" : String) = "LISTAGG" ++ "(" := rfl
    have hclose : (") WITHIN GROUP (ORDER BY " : String) = ")" ++ " WITHIN GROUP (ORDER BY " := rfl
    simp only [chars_ofLayout, FunctionForm.layout, FunctionForm.head, FunctionForm.inner,
      FunctionForm.keepsWord, FunctionForm.places, FunctionForm.between, FunctionForm.rest, hword,
      List.intersperse_cons_cons, List.intersperse_singleton, hopen, hclose, List.flatMap_cons,
      List.flatMap_nil, partChars_text, String.toList_append, toList_opening, toList_closing,
      List.append_assoc, List.cons_append, List.nil_append, List.append_nil]

/-- A part of a layout is steady, if it is an argument or a calm text. -/
theorem steady_part (h : ∀ f ∈ fs, Steady d fun n => f.chars d n) {p : LayoutPart}
    (hp : ∀ s, p = .text s → CalmText s) : Steady d fun n => partChars d fs n p := by
  cases p with
  | text s => exact Steady.calmText (hp s rfl)
  | argument place =>
    cases hf : fs[place]? with
    | none =>
      simp only [partChars, hf, Option.map_none, Option.getD_none]
      exact steady_calm rfl
    | some f =>
      simp only [partChars, hf, Option.map_some, Option.getD_some]
      exact (h f (List.mem_of_getElem? hf)).shift _

theorem steady_parts (h : ∀ f ∈ fs, Steady d fun n => f.chars d n) {ps : List LayoutPart}
    (hp : ∀ s, .text s ∈ ps → CalmText s) : Steady d fun n => ps.flatMap (partChars d fs n) := by
  induction ps with
  | nil => exact steady_calm rfl
  | cons p ps ih =>
    have hfirst : Steady d fun n => partChars d fs n p :=
      steady_part h fun s hs => hp s (hs ▸ List.mem_cons_self)
    exact hfirst.append (ih fun s hs => hp s (List.mem_cons_of_mem _ hs))

/-- The fixed words of a form are words, and what it joins operands by is the operator `||`. A
constant is a word, a word with empty brackets, or one word of another. -/
def IsForm (d : Dialect) : FunctionForm → Prop
  | .call name => d.IsWord name
  | .joined operator => operator = "||"
  | .constant text => ∃ w, IsBare w ∧
      (text = w ∨ text = w ++ "()" ∨ ∃ v, IsBare v ∧ text = w ++ "." ++ v)
  | _ => True

theorem IsBare.isWord {w : String} (h : IsBare w) : d.IsWord w := ⟨h.1, h.ofWord⟩

theorem OwnForm.isForm {form : FunctionForm} (h : OwnForm form) : IsForm d form := by
  cases h with
  | call _ hbare => exact hbare.isWord
  | constant _ hbare => exact ⟨_, hbare, .inl rfl⟩
  | random =>
    exact ⟨"DBMS_RANDOM", by decide +kernel, .inr (.inr ⟨"VALUE", by decide +kernel, rfl⟩)⟩
  | date => exact ⟨"GETDATE", by decide +kernel, .inr (.inl rfl)⟩
  | joined => rfl
  | stringAggregate => trivial
  | listAggregate => trivial

/-- The form of a function is such a form, if the name of one without a form of its own is a word. -/
theorem isForm_of_name {name : String} (h : d.functionForm? name = none → d.IsWord name) :
    IsForm d ((d.functionForm? name).getD (.call name)) := by
  cases hf : d.functionForm? name with
  | none => exact h hf
  | some form => exact (ownForm_of_functionForm? hf).isForm

theorem calm_places (form : FunctionForm) (count : Nat) {s : String}
    (h : .text s ∈ form.places count) : CalmText s := by
  have hdefault {place : Nat} {m : String} (hm : CalmText m)
      (h : .text s = FunctionForm.argumentOr count place m) : CalmText s := by
    unfold FunctionForm.argumentOr at h
    split at h
    · cases h
    · cases h
      exact hm
  have hpair (h : .text s ∈ [FunctionForm.argumentOr count 0 "undefined",
      FunctionForm.argumentOr count 1 "','"]) : CalmText s := by
    rcases List.mem_cons.1 h with h | h
    · exact hdefault (calmText_ofList rfl) h
    · exact hdefault (calmText_ofList rfl) (List.mem_singleton.1 h)
  cases form with
  | constant text => cases h
  | stringAggregate keepsDistinct => exact hpair h
  | listAggregate => exact hpair h
  | _ =>
    obtain ⟨place, -, hplace⟩ := List.mem_map.1 h
    cases hplace

theorem mem_of_mem_intersperse {α : Type} {x separator : α} {xs : List α}
    (h : x ∈ xs.intersperse separator) : x ∈ xs ∨ x = separator := by
  induction xs with
  | nil => cases h
  | cons y ys ih =>
    cases ys with
    | nil => exact .inl h
    | cons z zs =>
      rw [List.intersperse_cons_cons, List.mem_cons, List.mem_cons] at h
      rcases h with rfl | rfl | h
      · exact .inl List.mem_cons_self
      · exact .inr rfl
      · exact (ih h).imp_left (List.mem_cons_of_mem _)

/-- What stands between the brackets of a call is steady. -/
theorem steady_inner {form : FunctionForm} (hform : IsForm d form) (count : Nat) (distinct : Bool)
    (h : ∀ f ∈ fs, Steady d fun n => f.chars d n) :
    Steady d fun n => (form.inner count distinct).flatMap (partChars d fs n) := by
  have hbetween : CalmText form.between := by
    cases form with
    | joined operator =>
      have hbars : operator = "||" := hform
      rw [FunctionForm.between, hbars]
      exact CalmText.spaced (calmText_ofList rfl)
    | _ => exact calmText_ofList rfl
  refine steady_parts h fun s hs => ?_
  rcases List.mem_cons.1 hs with hs | hs
  · cases hs
    unfold FunctionForm.distinctWord
    split <;> exact calmText_ofList rfl
  · rcases mem_of_mem_intersperse hs with hs | hs
    · exact calm_places form count hs
    · cases hs
      exact hbetween

/-- The tokens before the brackets of a call. -/
def headTokens : FunctionForm → List Token
  | .joined _ => []
  | form => [.word form.head]

theorem spells_head {form : FunctionForm} (hform : IsForm d form) (hb : form.isBracketed = true) :
    Spells d (fun _ => form.head.toList) (headTokens form) := by
  have hbare {w : String} (hw : IsBare w) : Spells d (fun _ => w.toList) [.word w] := by
    rw [← hw.ofWord (d := d)]
    exact spells_word hw.1
  cases form with
  | call name =>
    obtain ⟨hplain, hword⟩ : d.IsWord name := hform
    have hspells := spells_word (d := d) hplain
    rwa [hword] at hspells
  | joined operator => exact spells_nothing
  | constant text => cases hb
  | stringAggregate keepsDistinct => exact hbare (w := "STRING_AGG") (by decide +kernel)
  | listAggregate => exact hbare (w := "LISTAGG") (by decide +kernel)

theorem exposes_head (form : FunctionForm) (ts : List Token) (h : Exposes true [] ts false)
    (h' : Exposes false [] ts false) : Exposes true [] (headTokens form ++ ts) false := by
  cases form with
  | joined operator => exact h
  | _ => exact (Exposes.word _).append h'

/-- What stands behind the brackets of a call makes no more than one operand of it. -/
theorem follows_rest (form : FunctionForm) (count : Nat)
    (h : ∀ f ∈ fs, Steady d fun n => f.chars d n) :
    ∃ ts, Follows d (fun n => (form.rest count).flatMap (partChars d fs n)) ts ∧
      Exposes false [] ts false := by
  cases form with
  | listAggregate =>
    have hinside : Steady d fun n =>
        ([.text "ORDER BY ", FunctionForm.argumentOr count 0 "undefined"] : List LayoutPart).flatMap
          (partChars d fs n) := by
      refine steady_parts h fun s hs => ?_
      rcases List.mem_cons.1 hs with hs | hs
      · cases hs
        exact calmText_ofList rfl
      · refine calm_places .listAggregate count (List.mem_cons.2 (.inl ?_))
        exact List.mem_singleton.1 hs
    obtain ⟨hspells, hpaired⟩ := hinside.spells
    have hwords := follows_wordTokens (d := d) ["WITHIN", "GROUP"] (by decide +kernel)
    -- two plain words and a bracket: neither makes an operator of the row
    have hall := hwords.append hspells.enclosed.spells.spaced
    have hopen : (" WITHIN GROUP (ORDER BY " : String) =
        String.join (["WITHIN", "GROUP"].map (" " ++ ·)) ++ " " ++ "(" ++ "ORDER BY " := rfl
    have hexposes : Exposes false [] (["WITHIN", "GROUP"].map Token.word) false :=
      (Exposes.word "WITHIN").append (Exposes.word "GROUP")
    refine ⟨_, ?_, hexposes.append (.enclosed hpaired)⟩
    simpa only [FunctionForm.rest, List.flatMap_cons, List.flatMap_nil, partChars_text, hopen,
      toList_blank, String.toList_append, toList_opening, toList_closing, List.append_assoc,
      List.cons_append, List.nil_append, List.append_nil] using hall
  | _ => exact ⟨[], follows_nothing, .nil⟩

/-- A call is its name, what it holds between brackets, and what follows them. -/
theorem written_layout {form : FunctionForm} (hform : IsForm d form) (hb : form.isBracketed = true)
    (distinct : Bool) (h : ∀ f ∈ fs, Steady d fun n => f.chars d n) :
    ∃ us, Exposes false [] us false ∧
      Written d (Fragment.ofLayout (form.layout fs.length distinct) fs)
        (headTokens form ++ (.opening :: Scan.tokens d
          ((form.inner fs.length distinct).flatMap (partChars d fs 0)) ++ [.closing]) ++ us) ∧
      Paired (Scan.tokens d ((form.inner fs.length distinct).flatMap (partChars d fs 0))) := by
  obtain ⟨hspells, hpaired⟩ := (steady_inner hform fs.length distinct h).spells
  obtain ⟨us, hus, hexposes⟩ := follows_rest form fs.length h
  have hall := ((spells_head hform hb).append hspells.enclosed).append hus
  refine ⟨us, hexposes, ?_, hpaired⟩
  simpa only [Written, chars_layout hb] using hall

/-- The tokens of a constant. -/
theorem written_constant {text : String} (h : IsForm d (.constant text)) :
    ∃ w ts, Written d (.text text) (.word w :: ts) ∧ Exposes false [] ts false ∧
      ∀ vs, ts = .opening :: vs → vs = [.closing] := by
  obtain ⟨w, hw, htext⟩ := h
  have hword : Spells d (fun _ => w.toList) [.word w] := by
    rw [← hw.ofWord (d := d)]
    exact spells_word hw.1
  rcases htext with rfl | rfl | ⟨v, hv, rfl⟩
  -- a word, a word with empty brackets, or one word of another
  · exact ⟨text, [], written_text hword, .nil, nofun⟩
  · have hall := hword.append (spells_nothing (d := d)).enclosed
    have hbrackets : "()".toList = ['(', ')'] := String.toList_ofList
    refine ⟨w, [.opening, .closing], written_text ?_, .enclosed .nil, fun vs hvs => ?_⟩
    · simpa only [String.toList_append, hbrackets, List.cons_append, List.nil_append] using hall
    · cases hvs
      rfl
  · have hdot : separator '.' = some [.dot] := rfl
    have hpoint : ".".toList = ['.'] := String.toList_ofList
    have hvalue : Spells d (fun _ => v.toList) [.word v] := by
      rw [← hv.ofWord (d := d)]
      exact spells_word hv.1
    have hall := hword.append (hvalue.behind hdot)
    refine ⟨w, [.dot, .word v], written_text ?_, Exposes.dot.append (.word v), nofun⟩
    simpa only [String.toList_append, hpoint, List.append_assoc, List.cons_append,
      List.nil_append] using hall

/-- A call is one operand, whatever stands between its brackets. -/
theorem reads_layout {form : FunctionForm} (hform : IsForm d form) (distinct : Bool)
    (h : ∀ f ∈ fs, Steady d fun n => f.chars d n) :
    Reads d [] (Fragment.ofLayout (form.layout fs.length distinct) fs) := by
  have hbracketed (hb : form.isBracketed = true) :
      Reads d [] (Fragment.ofLayout (form.layout fs.length distinct) fs) := by
    obtain ⟨us, hus, hwritten, hpaired⟩ := written_layout hform hb distinct h
    have hexposes := exposes_head form _ ((Exposes.enclosed hpaired).append hus)
      ((Exposes.enclosed hpaired).append hus)
    rw [← List.append_assoc] at hexposes
    -- the first token is the bracket of a join, and else the name
    cases form with
    | joined operator => exact reads_of_written hwritten nofun hexposes
    | _ => exact reads_of_written hwritten nofun hexposes
  cases form with
  | constant text =>
    obtain ⟨w, ts, hwritten, hexposes, -⟩ := written_constant hform
    have hreads := reads_of_written hwritten nofun ((Exposes.word w).append hexposes)
    simpa only [Reads, chars_ofLayout, FunctionForm.layout, List.flatMap_cons, List.flatMap_nil,
      partChars_text, List.append_nil, Fragment.chars_text] using hreads
  | _ => exact hbracketed rfl

theorem readsBehind_over {f : Fragment} (h : Steady d fun n => f.chars d n) :
    ∃ ts, WrittenBehind d (.text " OVER " ++ f.enclosed) (.word "OVER" :: ts) ∧
      Exposes false [] (.word "OVER" :: ts) false := by
  obtain ⟨hspells, hpaired⟩ := h.spells
  have hbrackets : Written d f.enclosed _ := Follows.spells (Written.enclosed hspells)
  have hwords := follows_wordTokens (d := d) ["OVER"] (by decide +kernel)
  have hopen : (" OVER " : String) = String.join (["OVER"].map (" " ++ ·)) ++ " " := rfl
  refine ⟨_, ?_, (Exposes.word "OVER").append (.enclosed hpaired)⟩
  rw [hopen]
  exact ((writtenBehind_text hwords).append hbrackets.spaced).texts

theorem reads_windowedCall {called : Fragment} (h : Reads d [] called) {framed : Option Fragment}
    (ho : ∀ f, framed = some f → Steady d fun n => f.chars d n) :
    Reads d [] (Sql.windowedCall called framed) := by
  cases framed with
  | none => exact h
  | some f =>
    obtain ⟨ts, hwritten, hexposes⟩ := readsBehind_over (ho f rfl)
    rw [Sql.windowedCall, Fragment.append_assoc]
    exact h.append ⟨_, hwritten, hexposes⟩

/-- The parts of a case distinction, one after another. -/
def ReadsInside (d : Dialect) (f : Fragment) : Prop :=
  ∃ ts, WrittenBehind d f ts ∧ ∀ b, ∃ b', Inside b ts b'

theorem readsInside_empty : ReadsInside d .empty :=
  ⟨[], writtenBehind_empty, fun b => ⟨b, Exposes.nil.toInside⟩⟩

theorem ReadsInside.append {f g : Fragment} (hf : ReadsInside d f) (hg : ReadsInside d g) :
    ReadsInside d (f ++ g) := by
  obtain ⟨ts, hts, hinside⟩ := hf
  obtain ⟨us, hus, hinside'⟩ := hg
  refine ⟨ts ++ us, hts.append hus, fun b => ?_⟩
  obtain ⟨b', hb'⟩ := hinside b
  obtain ⟨c, hc⟩ := hinside' b'
  exact ⟨c, hb'.append hc⟩

/-- A keyword of a case distinction and what it is about. -/
theorem Reads.clause {us : List Token} {f : Fragment} (h : Reads d us f) {w : Keyword}
    (hw : ∀ b, Inside b [.key w] true) : ReadsInside d (Sql.clause (" " ++ w.text d) f) := by
  obtain ⟨ts, hwritten, hexposes⟩ := h.written
  exact ⟨_, Written.clause w hwritten, fun b => ⟨false, (hw b).append hexposes.toInside⟩⟩

theorem reads_cases {f g : Fragment} (hf : ReadsInside d f) (hg : ReadsInside d g) :
    Reads d [] (.text "CASE" ++ f ++ g ++ .text " END") := by
  obtain ⟨ts, hwritten, hinside⟩ := hf.append hg
  obtain ⟨b', hcases⟩ := hinside true
  have hcase : Written d (.text "CASE") [.key .case_] := written_text (spells_keyword .case_)
  have hend : WrittenBehind d (.text " END") [.key .end_] :=
    writtenBehind_text (follows_words [.end_])
  have hall := (hcase.append hwritten).append hend
  rw [Fragment.append_assoc (Fragment.text "CASE")]
  exact reads_of_written hall nofun (Exposes.cased hcases)

mutual

/-- The text of an expression is one operand, with its operators outside of brackets. -/
theorem reads_expr (e : Expr) (hp : (Rules.paired d).expr e) (he : e.Fits d) {f : Fragment}
    (h : Sql.expr d e = .ok f) : Reads d (e.operators d) f := by
  -- what gets brackets only has to be steady, so that only what gets none is read again
  have hpaired := closed_paired d
  cases e with
  | column table name shown => cases h; exact reads_qualified table (some name)
  | star table => cases h; exact reads_qualified table none
  | literal value hint =>
    cases h
    exact reads_of_written (spells_hole _) nofun .hole
  | binary op left right =>
    obtain ⟨l, r, hl, hr, rfl⟩ := Sql.binary_ok h
    rw [Sql.operand_eq, Sql.operand_eq]
    have hleft := reads_dressed (.operand op .left) (hpaired.of_expr left hp.1 hl)
      fun hw => reads_expr left hp.1 (he.1 hw) hl
    have hright := reads_dressed (.operand op .right) (hpaired.of_expr right hp.2 hr)
      fun hw => reads_expr right hp.2 (he.2 hw) hr
    exact reads_binary op hleft hright
  | unary op e =>
    obtain ⟨g, hg, rfl⟩ := Sql.unary_ok h
    exact reads_unary
      (reads_dressed op.standing (hpaired.of_expr e hp hg) fun hw => reads_expr e hp (he hw) hg)
  | inList e values negated =>
    rcases Sql.inList_ok h with ⟨rfl, rfl⟩ | ⟨hne, g, gs, hg, hgs, rfl⟩
    · exact reads_constant negated
    · obtain ⟨hpe, hpvalues⟩ : (Rules.paired d).expr e ∧ (Rules.paired d).exprs values :=
        hp.resolve_left hne
      have hsteady := hpaired.of_expr e hpe hg
      have htest := reads_dressed .subject hsteady fun hw => reads_expr e hpe (he hne hw) hg
      have htestSteady : Steady d fun n => (Standing.subject.dress e g).chars d n := by
        rw [← Sql.predicateOperand_eq]
        exact hpaired.predicateOperand e hsteady
      rw [Sql.predicateOperand_eq, Expr.operators, if_neg hne]
      exact reads_membership negated htest htestSteady (Sql.length_exprs hgs)
        (hpaired.of_exprs values hpvalues hgs)
  | inQuery e q negated =>
    obtain ⟨g, body, hg, hb, rfl⟩ := Sql.inQuery_ok h
    have htest := reads_dressed .subject (hpaired.of_expr e hp.1 hg)
      fun hw => reads_expr e hp.1 (he hw) hg
    rw [Sql.predicateOperand_eq, Fragment.append_assoc]
    exact htest.append (readsBehind_member negated (hpaired.of_query q hp.2 hb))
  | call name arguments distinct windowed =>
    obtain ⟨fs, framed, _, hfs, hover, rfl⟩ := Sql.call_ok h
    obtain ⟨_, hargs, hwindow⟩ := hp
    rw [← Sql.length_exprs hfs]
    have hcall := reads_layout (isForm_of_name he) distinct (hpaired.of_exprs arguments hargs hfs)
    exact reads_windowedCall hcall (hpaired.of_optionalWindow windowed hwindow hover)
  | window w => exact he.elim
  | subquery q =>
    obtain ⟨g, hg, rfl⟩ := Sql.subquery_ok h
    exact reads_enclosed (hpaired.of_query q hp hg)
  | cases bs otherwise =>
    obtain ⟨gs, last, hgs, hlast, rfl⟩ := Sql.cases_ok h
    exact reads_cases (readsInside_branches bs hp.1 he.1 hgs)
      (readsInside_optional otherwise hp.2 he.2 hlast)
  | named e name =>
    rw [Sql.expr] at h
    exact reads_expr e hp he h
  | raw sql parameters => exact he.elim

theorem readsInside_optional (o : Option Expr) (hp : (Rules.paired d).optional o)
    (ho : Expr.OptionalFits d o) {x : Option Fragment} (h : Sql.optional d o = .ok x) :
    ReadsInside d (Sql.optionalClause " ELSE" x) := by
  cases o with
  | none =>
    cases h
    exact readsInside_empty
  | some e =>
    obtain ⟨g, hg, rfl⟩ := Sql.optional_some_ok h
    exact (reads_expr e hp ho hg).clause (w := .else_) fun _ => ⟨fun _ => rfl, fun _ => rfl⟩

theorem readsInside_branches (bs : List Branch) (hp : (Rules.paired d).branches bs)
    (hb : Expr.BranchesFit d bs) {f : Fragment} (h : Sql.branches d bs = .ok f) :
    ReadsInside d f := by
  cases bs with
  | nil =>
    cases h
    exact readsInside_empty
  | cons b bs =>
    obtain ⟨c, r, gs, hcond, hres, hgs, rfl⟩ := Sql.branches_cons_ok h
    obtain ⟨condition, result⟩ := b
    have hwhen := (reads_expr condition hp.1 hb.1 hcond).clause (w := .when_)
      fun _ => ⟨fun _ => rfl, fun _ => rfl⟩
    have hthen := (reads_expr result hp.2.1 hb.2.1 hres).clause (w := .then_)
      fun _ => ⟨fun _ => rfl, fun _ => rfl⟩
    exact (hwhen.append hthen).append (readsInside_branches bs hp.2.2 hb.2.2 hgs)

end

end Scan

end PolyQuery
