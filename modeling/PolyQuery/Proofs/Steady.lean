import PolyQuery.Proofs.Token

/-! Brackets in statements. What a query puts into text leaves quotes closed and brackets paired, so
that a query between brackets can be cut out of the text around it. Main statement:
`closed_steady`. -/
namespace PolyQuery

/-- Every bracket has its partner. -/
inductive Paired : List Token → Prop
  | nil : Paired []
  | plain {t : Token} {ts : List Token} (ht : t.isBracket = false) (h : Paired ts) : Paired (t :: ts)
  | group {ts us : List Token} (h : Paired ts) (h' : Paired us) :
    Paired (.opening :: ts ++ .closing :: us)

namespace Paired

theorem append {ts us : List Token} (h : Paired ts) (h' : Paired us) : Paired (ts ++ us) := by
  induction h with
  | nil => exact h'
  | plain ht _ ih => exact .plain ht ih
  | group hts _ _ ih =>
    rw [List.append_assoc, List.cons_append]
    exact .group hts ih

theorem of_plain {ts : List Token} (h : ∀ t ∈ ts, t.isBracket = false) : Paired ts := by
  induction ts with
  | nil => exact .nil
  | cons t ts ih =>
    obtain ⟨ht, hts⟩ := List.forall_mem_cons.1 h
    exact .plain ht (ih hts)

theorem enclosed {ts : List Token} (h : Paired ts) : Paired (.opening :: ts ++ [.closing]) :=
  .group h .nil

end Paired

theorem Pending.paired_flush (d : Dialect) (p : Pending) : Paired (p.flush d) := by
  cases p with
  | nothing => exact .nil
  | word back => exact .plain (Token.isBracket_ofWord d _) .nil
  | _ => exact .plain rfl .nil

namespace Scan
variable {d : Dialect}

/-- A text, perhaps with placeholders, whose scan is the same wherever it stands: it begins and ends
outside of quotes, and its brackets are paired. The text is given for every number of values before
it. -/
def Steady (d : Dialect) (g : Nat → List Char) : Prop :=
  ∀ p, p.Settled → ∃ ts q, q.Settled ∧ Paired ts ∧ ∀ n, run d p (g n) = (ts, q)

theorem Steady.append {g h : Nat → List Char} (hg : Steady d g) (hh : Steady d h) :
    Steady d fun n => g n ++ h n := by
  intro p hp
  obtain ⟨ts, q, hq, hts, hrun⟩ := hg p hp
  obtain ⟨us, r, hr, hus, hrun'⟩ := hh q hq
  exact ⟨ts ++ us, r, hr, hts.append hus, fun n => run_append_of (hrun n) (hrun' n)⟩

theorem Steady.shift {g : Nat → List Char} (hg : Steady d g) (m : Nat) :
    Steady d fun n => g (n + m) := by
  intro p hp
  obtain ⟨ts, q, hq, hts, hrun⟩ := hg p hp
  exact ⟨ts, q, hq, hts, fun n => hrun (n + m)⟩

/-- Between brackets. -/
theorem Steady.enclosed {g : Nat → List Char} (hg : Steady d g) :
    Steady d fun n => '(' :: g n ++ [')'] := by
  intro p hp
  obtain ⟨ts, q, hq, hts, hrun⟩ := hg .nothing trivial
  have hopen := run_separator (d := d) (c := '(') rfl hp
  have hclose := run_separator (d := d) (c := ')') rfl hq
  have hpaired : Paired (p.flush d ++ (.opening :: (ts ++ q.flush d) ++ [.closing])) :=
    (p.paired_flush d).append (hts.append (q.paired_flush d)).enclosed
  refine ⟨_, .nothing, trivial, hpaired, fun n => ?_⟩
  have hall := run_append_of (run_append_of hopen (hrun n)) hclose
  simpa using hall

/-- A character that is neither quote nor bracket. -/
theorem step_calm {c : Char} (hc : isCalm c = true) {p : Pending} (hp : p.Settled) :
    (step d p c).2.Settled ∧ Paired (step d p c).1 := by
  have hquotes := ne_quotes (d := d) (.inl hc)
  have hbegin : (begin d c).2.Settled ∧ Paired (begin d c).1 := by
    rw [begin, if_neg hquotes.1]
    cases hs : separator c with
    | some ts =>
      refine ⟨trivial, ?_⟩
      rcases separator_cases hs with rfl | rfl | rfl | rfl | rfl
      · cases hs; exact .nil
      · cases hs; exact .plain rfl .nil
      · cases hs; exact .plain rfl .nil
      · cases hc
      · cases hc
    | none =>
      dsimp only
      split
      · exact ⟨trivial, .nil⟩
      · split
        · exact ⟨trivial, .nil⟩
        · exact ⟨trivial, .nil⟩
  -- where the character does not go on with what is pending, that is written and it begins anew
  have hafter : (after d p c).2.Settled ∧ Paired (after d p c).1 :=
    ⟨hbegin.1, (p.paired_flush d).append hbegin.2⟩
  cases p with
  | nothing => exact hbegin
  | word back =>
    rw [step]
    split
    · exact ⟨trivial, .nil⟩
    · exact hafter
  | hole =>
    rw [step]
    split
    · exact ⟨trivial, .nil⟩
    · exact hafter
  | mark a =>
    rw [step]
    split
    · exact ⟨trivial, .plain rfl .nil⟩
    · exact hafter
  | name back => exact hp.elim
  | closed back =>
    rw [step, if_neg hquotes.2]
    exact hafter

theorem steady_calm {cs : List Char} (h : cs.all isCalm = true) : Steady d fun _ => cs := by
  induction cs with
  | nil => exact fun p hp => ⟨[], p, hp, .nil, fun _ => rfl⟩
  | cons c cs ih =>
    obtain ⟨hc, hcs⟩ := by simpa using h
    intro p hp
    obtain ⟨hq, hts⟩ := step_calm (d := d) hc hp
    obtain ⟨us, r, hr, hus, hrun⟩ := ih (by simpa using hcs) _ hq
    refine ⟨(step d p c).1 ++ us, r, hr, hts.append hus, fun n => ?_⟩
    rw [run, hrun n]

/-- The inside of a quoted name stays between the quotes: a quote in it is written twice. -/
theorem run_inside (cs back : List Char) :
    run d (.name back) (cs.flatMap fun c => if c = d.quotes.2 then [c, c] else [c]) =
      ([], .name (cs.reverse ++ back)) := by
  induction cs generalizing back with
  | nil => rfl
  | cons c cs ih =>
    have hfirst : run d (.name back) (if c = d.quotes.2 then [c, c] else [c]) =
        ([], .name (c :: back)) := by
      by_cases hc : c = d.quotes.2
      · simp [run, step, hc]
      · simp [run, step, hc]
    rw [List.flatMap_cons, run_append_of hfirst (ih (c :: back)), List.reverse_cons,
      List.append_assoc]
    rfl

theorem toList_quoted (name : String) : (d.quoted name).toList =
    [d.quotes.1] ++ (name.toList.flatMap fun c => if c = d.quotes.2 then [c, c] else [c]) ++
      [d.quotes.2] := String.toList_ofList

/-- A quoted name is one token. -/
theorem run_quoted (name : String) :
    run d .nothing (d.quoted name).toList = ([], .closed name.toList.reverse) := by
  have hopen : run d .nothing [d.quotes.1] = ([], .name []) := by simp [run, step, begin]
  have hclose : run d (.name (name.toList.reverse ++ [])) [d.quotes.2] =
      ([], .closed (name.toList.reverse ++ [])) := by simp [run, step]
  have hall := run_append_of (run_append_of hopen (run_inside name.toList [])) hclose
  simp only [List.append_nil] at hall
  rw [toList_quoted]
  exact hall

theorem steady_quoted (name : String) : Steady d fun _ => (d.quoted name).toList := by
  intro p hp
  -- behind a closing quote the same quote carries the name on, else a new token begins
  have hopen : ∃ ts back, run d p [d.quotes.1] = (ts, .name back) ∧ Paired ts := by
    have hbegin : begin d d.quotes.1 = ([], .name []) := by simp [begin]
    have hafter : after d p d.quotes.1 = (p.flush d, .name []) := by
      rw [after, hbegin, List.append_nil]
    have hplain : Dialect.isNameChar d.quotes.1 = false ∧ ∀ a, joinsMark a d.quotes.1 = false := by
      rcases quotes_cases d with hq | hq | hq
      · rw [hq]; exact ⟨rfl, fun a => by simp [joinsMark]⟩
      · rw [hq]; exact ⟨rfl, fun a => by simp [joinsMark]⟩
      · rw [hq]; exact ⟨rfl, fun a => by simp [joinsMark]⟩
    cases p with
    | nothing => exact ⟨[], [], by simp [run, step, hbegin], .nil⟩
    | word back =>
      exact ⟨_, [], by simp [run, step, hplain, hafter]; rfl, Pending.paired_flush d _⟩
    | hole => exact ⟨_, [], by simp [run, step, hplain, hafter]; rfl, Pending.paired_flush d _⟩
    | mark a => exact ⟨_, [], by simp [run, step, hplain, hafter]; rfl, Pending.paired_flush d _⟩
    | name back => exact hp.elim
    | closed back =>
      by_cases hq : d.quotes.1 = d.quotes.2
      · exact ⟨[], _, by simp [run, step, hq]; rfl, .nil⟩
      · exact ⟨_, [], by simp [run, step, hq, hafter]; rfl, Pending.paired_flush d _⟩
  obtain ⟨ts, back, hopen, hts⟩ := hopen
  have hclose (back : List Char) : run d (.name back) [d.quotes.2] = ([], .closed back) := by
    simp [run, step]
  have hall := run_append_of (run_append_of hopen (run_inside name.toList back)) (hclose _)
  refine ⟨ts, .closed (name.toList.reverse ++ back), trivial, hts, fun _ => ?_⟩
  rw [toList_quoted]
  simpa using hall

theorem isCalm_of_plain {name : String} (h : Dialect.isPlainName name.toList = true) :
    name.toList.all Dialect.isNameChar = true ∧ name.toList ≠ [] := by
  unfold Dialect.isPlainName at h
  split at h
  · next c rest heq =>
    obtain ⟨hc, hrest⟩ := (Bool.and_eq_true _ _).mp h
    rw [heq, List.all_cons, hrest, Dialect.isNameChar, hc]
    exact ⟨rfl, List.cons_ne_nil _ _⟩
  · cases h

theorem calmText_plain {name : String} (h : Dialect.isPlainName name.toList = true) :
    CalmText name :=
  List.all_eq_true.2 fun c hc =>
    isCalm_of_isNameChar (List.all_eq_true.1 (isCalm_of_plain h).1 c hc)

theorem steady_identifier (name : String) : Steady d fun _ => (d.quoteIdentifier name).toList := by
  unfold Dialect.quoteIdentifier
  split
  · exact steady_quoted name
  · next h =>
    have hplain : Dialect.isPlainName name.toList = true := by
      simp only [Dialect.needsQuotes, Bool.or_eq_true, not_or] at h
      simpa using h.1.1
    exact steady_calm (calmText_plain hplain)

theorem steady_bind (b : Binding) : Steady d fun n => (Fragment.bind b).chars d n := by
  intro p hp
  refine ⟨p.flush d, .hole, trivial, p.paired_flush d, fun n => ?_⟩
  dsimp only
  rw [Fragment.chars_bind]
  exact run_placeholder (n + 1) hp

theorem Steady.calmText {s : String} (h : CalmText s) : Steady d fun _ => s.toList := steady_calm h

theorem toList_opening : "(".toList = ['('] := String.toList_ofList

theorem toList_closing : ")".toList = [')'] := String.toList_ofList

theorem Steady.text {s : String} (h : Steady d fun _ => s.toList) :
    Steady d fun n => (Fragment.text s).chars d n := by
  simpa only [Fragment.chars_text] using h

theorem Steady.fragment {f g : Fragment} (hf : Steady d fun n => f.chars d n)
    (hg : Steady d fun n => g.chars d n) : Steady d fun n => (f ++ g).chars d n := by
  simpa only [Fragment.chars_append] using hf.append (hg.shift f.bindings.length)

/-- A fragment between brackets, a text before them and one behind them. -/
theorem Steady.around {s t : String} {f : Fragment} (hs : Steady d fun _ => s.toList)
    (ht : Steady d fun _ => t.toList) (hf : Steady d fun n => f.chars d n) :
    Steady d fun n => (Fragment.text (s ++ "(") ++ f ++ Fragment.text (")" ++ t)).chars d n := by
  have hall := (hs.append hf.enclosed).append ht
  simpa only [Fragment.chars_append, Fragment.chars_text, String.toList_append, toList_opening,
    toList_closing, Fragment.bindings_text, List.length_nil, Nat.add_zero, List.append_assoc,
    List.cons_append, List.nil_append] using hall

/-- A fragment between two pairs of brackets. -/
theorem Steady.around₂ {s s' t t' : String} {f : Fragment} (hs : Steady d fun _ => s.toList)
    (hs' : Steady d fun _ => s'.toList) (ht : Steady d fun _ => t.toList)
    (ht' : Steady d fun _ => t'.toList) (hf : Steady d fun n => f.chars d n) :
    Steady d fun n => (Fragment.text (s ++ "(" ++ s' ++ "(") ++ f ++
      Fragment.text (")" ++ t ++ ")" ++ t')).chars d n := by
  have hinner := (hs'.append hf.enclosed).append ht
  have hall := (hs.append hinner.enclosed).append ht'
  simpa only [Fragment.chars_append, Fragment.chars_text, String.toList_append, toList_opening,
    toList_closing, Fragment.bindings_text, List.length_nil, Nat.add_zero, List.append_assoc,
    List.cons_append, List.nil_append] using hall

theorem Steady.join {s : String} (hs : CalmText s) {fs : List Fragment}
    (h : ∀ f ∈ fs, Steady d fun n => f.chars d n) :
    Steady d fun n => (Fragment.join s fs).chars d n := by
  induction fs with
  | nil => exact steady_calm rfl
  | cons f fs ih =>
    cases fs with
    | nil => exact h f (by simp)
    | cons g gs =>
      have hrest := ih fun k hk => h k (by simp [hk])
      exact ((h f (by simp)).fragment (Steady.calmText hs).text).fragment hrest

/-- The characters of a part of a layout. -/
def partChars (d : Dialect) (fs : List Fragment) (n : Nat) : LayoutPart → List Char
  | .text s => s.toList
  | .argument place => ((fs[place]?).map fun f => f.chars d (n + Fragment.offset fs place)).getD []

theorem chars_ofLayout (layout : List LayoutPart) (fs : List Fragment) (n : Nat) :
    (Fragment.ofLayout layout fs).chars d n = layout.flatMap (partChars d fs n) := by
  have hpart (part : LayoutPart) : (Fragment.layoutPieces fs part).flatMap
      (fun p => ((p.shift n).shown d).toList) = partChars d fs n part := by
    cases part with
    | text s => simp [Fragment.layoutPieces, partChars, Piece.shift, Piece.shown]
    | argument place =>
      cases hf : fs[place]? with
      | none => simp [Fragment.layoutPieces, partChars, hf]
      | some f =>
        have hshift := Fragment.chars_shift (d := d) (Fragment.offset fs place) n f.pieces f.bindings
        unfold Fragment.chars at hshift
        simp only [Fragment.layoutPieces, partChars, hf, Option.map_some, Option.getD_some]
        exact hshift
  unfold Fragment.chars Fragment.ofLayout
  rw [List.flatMap_assoc]
  simp only [hpart]

theorem steady_argument {fs : List Fragment} (h : ∀ f ∈ fs, Steady d fun n => f.chars d n)
    (count place : Nat) {m : String} (hm : CalmText m) :
    Steady d fun n => partChars d fs n (FunctionForm.argumentOr count place m) := by
  unfold FunctionForm.argumentOr
  split
  · cases hf : fs[place]? with
    | none =>
      simp only [partChars, hf, Option.map_none, Option.getD_none]
      exact steady_calm rfl
    | some f =>
      simp only [partChars, hf, Option.map_some, Option.getD_some]
      exact (h f (List.mem_of_getElem? hf)).shift _
  · exact Steady.calmText hm

theorem partChars_text (fs : List Fragment) (n : Nat) (s : String) :
    partChars d fs n (.text s) = s.toList := rfl

/-- Arguments between brackets, one after another. -/
theorem steady_separated {s t m : String} (hs : Steady d fun _ => s.toList) (ht : CalmText t)
    (hm : CalmText m) {fs : List Fragment} (h : ∀ f ∈ fs, Steady d fun n => f.chars d n) :
    Steady d fun n => (Fragment.ofLayout ([.text (s ++ "(" ++ t)] ++
      FunctionForm.separated m fs.length ++ [.text ")"]) fs).chars d n := by
  have hinner := ((Steady.calmText (d := d) ht).text).fragment (Steady.join hm h)
  have hall := hs.around (t := "") (steady_calm rfl) hinner
  have hempty : "".toList = [] := rfl
  simp only [Fragment.ofLayout_separated]
  simpa only [Fragment.chars_append, Fragment.chars_text,
    String.toList_append, toList_opening, toList_closing, hempty, Fragment.bindings_text,
    Fragment.bindings_append, List.length_nil, List.length_append, Nat.add_zero, Nat.zero_add,
    List.append_assoc, List.cons_append, List.nil_append, List.append_nil] using hall

/-- The fixed texts of a form are steady. -/
def SteadyForm (d : Dialect) : FunctionForm → Prop
  | .call name => Steady d fun _ => name.toList
  | .joined operator => CalmText operator
  | .constant text => Steady d fun _ => text.toList
  | .stringAggregate _ => True
  | .listAggregate => True

/-- A call is steady in every form, also where it repeats an argument. -/
theorem steady_layout {form : FunctionForm} (hform : SteadyForm d form) (distinct : Bool)
    {fs : List Fragment} (h : ∀ f ∈ fs, Steady d fun n => f.chars d n) :
    Steady d fun n => (Fragment.ofLayout (form.layout fs.length distinct) fs).chars d n := by
  have hdistinct (b : Bool) : CalmText (FunctionForm.distinctWord b) := by
    cases b <;> exact calmText_ofList rfl
  have hword (b : Bool) : Steady d fun _ => (FunctionForm.distinctWord b).toList :=
    Steady.calmText (hdistinct b)
  have hcomma : Steady d fun _ => ", ".toList := Steady.calmText (calmText_ofList rfl)
  -- a missing argument is written as a word or a text in quotes, which are calm too
  have hfirst := steady_argument h fs.length 0 (m := "undefined") (calmText_ofList rfl)
  have hsecond := steady_argument h fs.length 1 (m := "','") (calmText_ofList rfl)
  cases form with
  | call name => exact steady_separated hform (hdistinct distinct) (calmText_ofList rfl) h
  | joined operator =>
    exact steady_separated (s := "") (t := "") (steady_calm rfl) (calmText_ofList rfl)
      (CalmText.spaced hform) h
  | constant text =>
    have htext : Steady d fun _ => text.toList := hform
    simpa only [chars_ofLayout, FunctionForm.layout, List.flatMap_cons, List.flatMap_nil,
      partChars_text, List.append_nil] using htext
  | stringAggregate keepsDistinct =>
    have hname : Steady d fun _ => "STRING_AGG".toList := Steady.calmText (calmText_ofList rfl)
    have hinner := (((hword (keepsDistinct && distinct)).append hfirst).append hcomma).append hsecond
    have hall := hname.append hinner.enclosed
    have hopen : ("STRING_AGG(" : String) = "STRING_AGG" ++ "(" := rfl
    simpa only [chars_ofLayout, FunctionForm.layout, List.flatMap_cons, List.flatMap_nil,
      partChars_text, hopen, String.toList_append, toList_opening, toList_closing,
      List.append_assoc, List.cons_append, List.nil_append, List.append_nil] using hall
  | listAggregate =>
    have hname : Steady d fun _ => "LISTAGG".toList := Steady.calmText (calmText_ofList rfl)
    have hwithin : Steady d fun _ => " WITHIN GROUP ".toList := Steady.calmText (calmText_ofList rfl)
    have horder : Steady d fun _ => "ORDER BY ".toList := Steady.calmText (calmText_ofList rfl)
    have hinner := (hfirst.append hcomma).append hsecond
    have hall := ((hname.append hinner.enclosed).append hwithin).append
      (horder.append hfirst).enclosed
    have hopen : ("LISTAGG(" : String) = "LISTAGG" ++ "(" := rfl
    have hbetween : (") WITHIN GROUP (ORDER BY " : String) =
        ")" ++ " WITHIN GROUP " ++ "(" ++ "ORDER BY " := rfl
    simpa only [chars_ofLayout, FunctionForm.layout, List.flatMap_cons, List.flatMap_nil,
      partChars_text, hopen, hbetween, String.toList_append, toList_opening, toList_closing,
      List.append_assoc, List.cons_append, List.nil_append, List.append_nil] using hall

/-- The forms that backends give to functions: a call or a constant that is a word, two constants
of another shape, operands with `||` between, and the aggregates. -/
inductive OwnForm : FunctionForm → Prop
  | call {w : String} (hsafe : IsSafe w) (hbare : IsBare w) : OwnForm (.call w)
  | constant {w : String} (hsafe : IsSafe w) (hbare : IsBare w) : OwnForm (.constant w)
  | random : OwnForm (.constant "DBMS_RANDOM.VALUE")
  | date : OwnForm (.constant "GETDATE()")
  | joined : OwnForm (.joined "||")
  | stringAggregate (keepsDistinct : Bool) : OwnForm (.stringAggregate keepsDistinct)
  | listAggregate : OwnForm .listAggregate

theorem ownForm_backend (b : Backend) : ∀ entry ∈ b.functionForms, OwnForm entry.2 := by
  have hcall {w : String} (h : IsSafe w ∧ IsBare w) : OwnForm (.call w) := .call h.1 h.2
  have hconstant {w : String} (h : IsSafe w ∧ IsBare w) : OwnForm (.constant w) :=
    .constant h.1 h.2
  -- the tables of the backends, entry by entry
  cases b <;> simp only [Backend.functionForms, List.forall_mem_cons]
  case postgres =>
    exact ⟨hcall (by decide +kernel), hcall (by decide +kernel), hcall (by decide +kernel),
      .stringAggregate true, hcall (by decide +kernel), by simp⟩
  case mysql =>
    exact ⟨hcall (by decide +kernel), hcall (by decide +kernel), hcall (by decide +kernel),
      hcall (by decide +kernel), hcall (by decide +kernel), by simp⟩
  case mariadb =>
    exact ⟨hcall (by decide +kernel), hcall (by decide +kernel), hcall (by decide +kernel),
      hcall (by decide +kernel), hcall (by decide +kernel), by simp⟩
  case sqlite =>
    exact ⟨hcall (by decide +kernel), hcall (by decide +kernel), hconstant (by decide +kernel),
      hcall (by decide +kernel), .joined, by simp⟩
  case oracle =>
    exact ⟨hcall (by decide +kernel), hcall (by decide +kernel), hconstant (by decide +kernel),
      hcall (by decide +kernel), .random, .listAggregate, .joined, by simp⟩
  case sqlserver =>
    exact ⟨hcall (by decide +kernel), hcall (by decide +kernel), .date, hcall (by decide +kernel),
      hcall (by decide +kernel), .stringAggregate false, hcall (by decide +kernel), by simp⟩

theorem ownForm_of_functionForm? {name : String} {form : FunctionForm}
    (h : d.functionForm? name = some form) : OwnForm form :=
  ownForm_backend d.backend _ (Dialect.functionForm?_mem h)

theorem OwnForm.steady {form : FunctionForm} (h : OwnForm form) : SteadyForm d form := by
  cases h with
  | call hsafe _ => exact Steady.calmText (calmText_plain hsafe.1)
  | constant hsafe _ => exact Steady.calmText (calmText_plain hsafe.1)
  | random => exact Steady.calmText (calmText_ofList rfl)
  | date =>
    have hname : Steady d fun _ => "GETDATE".toList := Steady.calmText (calmText_ofList rfl)
    have hnothing : Steady d fun _ => [] := steady_calm rfl
    have hall := hname.append hnothing.enclosed
    have heq : ("GETDATE()" : String) = "GETDATE" ++ "(" ++ ")" := rfl
    simpa only [SteadyForm, heq, String.toList_append, toList_opening, toList_closing,
      List.append_assoc, List.cons_append, List.nil_append] using hall
  | joined => exact calmText_ofList rfl
  | stringAggregate => trivial
  | listAggregate => trivial

theorem steady_call {name : String} (hname : Steady d fun _ => name.toList) (distinct : Bool)
    {fs : List Fragment} (h : ∀ f ∈ fs, Steady d fun n => f.chars d n) :
    Steady d fun n =>
      (Fragment.ofLayout (d.functionLayout name fs.length distinct) fs).chars d n := by
  unfold Dialect.functionLayout
  cases hf : d.functionForm? name with
  | none =>
    have hform : SteadyForm d (.call name) := hname
    exact steady_layout hform distinct h
  | some form =>
    exact steady_layout (ownForm_of_functionForm? hf).steady distinct h

end Scan

/-- The names of calls are plain, there is no raw text, and pages have checked bounds. -/
def Rules.plain : Rules where
  call := fun name => Dialect.isPlainName name.toList = true
  raw := fun _ => False
  page := fun p => Plan.checkPagination (some p) = .ok ()

/-- An offset that is skipped is a number, if it is one where it is given. -/
theorem Paging.skipped_number {offset : Option Value}
    (h : ∀ v, offset = some v → ∃ n, v = .number n) : ∃ n, skipped offset = .number n := by
  cases offset with
  | none => exact ⟨_, rfl⟩
  | some v =>
    obtain ⟨n, rfl⟩ := h v rfl
    exact ⟨n, rfl⟩

namespace Scan
variable {d : Dialect}

theorem bound_number {v : Value} (h : Plan.isBound v = true) : ∃ n, v = .number n := by
  cases v with
  | number n => exact ⟨n, rfl⟩
  | _ => cases h

theorem page_bounds {p : Pagination} (h : Plan.checkPagination (some p) = .ok ()) :
    (∀ v, p.limit = some v → Plan.isBound v = true) ∧
      ∀ v, p.offset = some v → Plan.isBound v = true := by
  obtain ⟨_, hl, ho⟩ := bind_eq_ok.1 h
  have hbound (label : String) (x : Option Value) (h : Plan.checkBound label x = .ok ()) :
      ∀ v, x = some v → Plan.isBound v = true := by
    rintro v rfl
    rw [Plan.checkBound] at h
    by_cases hv : Plan.isBound v
    · exact hv
    · rw [if_neg hv] at h
      obtain ⟨_, _, h⟩ := bind_eq_ok.1 h
      cases h
  exact ⟨hbound _ _ hl, hbound _ _ ho⟩

/-- The bounds of a checked page are numbers. -/
theorem page_numbers {p : Pagination} (h : Plan.checkPagination (some p) = .ok ()) :
    (∀ v, p.limit = some v → ∃ n, v = .number n) ∧
      ∀ v, p.offset = some v → ∃ n, v = .number n := by
  obtain ⟨hlimit, hoffset⟩ := page_bounds h
  exact ⟨fun v hv => bound_number (hlimit v hv), fun v hv => bound_number (hoffset v hv)⟩

theorem calmText_numberValue (n : Number) : CalmText (Value.number n).text := calmText_number n

/-- What a query puts into text is steady, if the names of its calls and its raw texts are. -/
theorem closed_steady_of {r : Rules}
    (hcall : ∀ name, r.call name → Steady d fun _ => name.toList)
    (hraw : ∀ sql values f, r.raw sql → Raw.fragment sql values = .ok f →
      Steady d fun n => f.chars d n)
    (hpage : ∀ p, r.page p → Plan.checkPagination (some p) = .ok ()) :
    Closed d r (fun s => Steady d fun _ => s.toList) (fun f => Steady d fun n => f.chars d n) where
  calm := fun _ h => Steady.calmText h
  name := steady_identifier
  both := fun s t hs ht => by
    simpa only [String.toList_append] using hs.append ht
  between := fun s hs => by
    simpa only [String.toList_append, toList_opening, toList_closing, List.cons_append,
      List.nil_append] using hs.enclosed
  limit := fun p v hp hv => by
    obtain ⟨hlimit, hoffset⟩ := page_numbers (hpage p hp)
    obtain ⟨n, rfl⟩ := hlimit v hv
    obtain ⟨m, hskipped⟩ := Paging.skipped_number hoffset
    -- the last row is a sum of two numbers, so it is a number as well
    rw [hskipped]
    exact ⟨Steady.calmText (calmText_numberValue n), Steady.calmText (calmText_numberValue _)⟩
  offset := fun p hp => by
    obtain ⟨_, hoffset⟩ := page_numbers (hpage p hp)
    obtain ⟨m, hskipped⟩ := Paging.skipped_number hoffset
    rw [hskipped]
    refine ⟨Steady.calmText (calmText_numberValue m), fun v hv => ?_⟩
    obtain ⟨n, rfl⟩ := hoffset v hv
    exact Steady.calmText (calmText_numberValue n)
  empty := steady_calm rfl
  text := fun _ h => h.text
  bind := steady_bind
  append := fun _ _ hf hg => hf.fragment hg
  around := fun _ _ _ hs ht hf => hs.around ht hf
  around₂ := fun _ _ _ _ _ hs hs' ht ht' hf => hs.around₂ hs' ht ht' hf
  call := fun name distinct _ hname h => steady_call (hcall name hname) distinct h
  raw := hraw

theorem closed_steady (d : Dialect) : Closed d Rules.plain (fun s => Steady d fun _ => s.toList)
    (fun f => Steady d fun n => f.chars d n) :=
  closed_steady_of (fun _ h => Steady.calmText (calmText_plain h)) (fun _ _ _ h _ => h.elim)
    (fun _ h => h)

end Scan

end PolyQuery