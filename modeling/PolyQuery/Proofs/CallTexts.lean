import Mathlib.Algebra.GroupWithZero.Nat
import PolyQuery.Dialect.Function

/-! The texts of a call. A call keeps its arguments when it is written as fixed texts with the
arguments between them, each once and in order, and the word `DISTINCT` stands in these texts
exactly where it was asked for. `exists_keeps_iff` says which calls do. -/
namespace PolyQuery

/-- A text, and behind it arguments, each with the text that follows it. -/
def woven (first : String) (behind arguments : List String) : String :=
  first ++ String.join (List.zipWith (· ++ ·) arguments behind)

/-- How often the word `DISTINCT` stands in a text. -/
def distinctWords (s : String) : Nat :=
  (s.toList.splitOnP fun c => !Dialect.isNameChar c).count "DISTINCT".toList

/-- The fixed texts of the calls of a function with so many arguments. What stands in the name of
the function is not counted as a word that was asked for. -/
structure Dialect.Keeps (d : Dialect) (name : String) (count : Nat) (distinct : Bool)
    (first : String) (behind : List String) : Prop where
  length : behind.length = count
  written : ∀ arguments : List String, arguments.length = count →
    d.renderFunction name arguments distinct = woven first behind arguments
  word : ((first :: behind).map distinctWords).sum =
    distinctWords name + if distinct then 1 else 0

/-- A form keeps so many arguments, and the word `DISTINCT`. -/
def FunctionForm.keeps (count : Nat) (distinct : Bool) : FunctionForm → Bool
  | .call _ => true
  | .joined _ => !distinct
  | .constant _ => count == 0 && !distinct
  | .stringAggregate keepsDistinct => count ≤ 2 && (keepsDistinct || !distinct)
  | .listAggregate => count == 0 && !distinct

/-! ## Woven texts -/

theorem woven_cons (first text : String) (behind : List String) (a : String)
    (arguments : List String) :
    woven first (text :: behind) (a :: arguments) = first ++ a ++ woven text behind arguments := by
  simp only [woven, List.zipWith_cons_cons, String.join_cons, String.append_assoc]

theorem length_woven (first : String) {behind arguments : List String}
    (h : behind.length = arguments.length) : (woven first behind arguments).length =
      first.length + (behind.map String.length).sum + (arguments.map String.length).sum := by
  induction arguments generalizing first behind with
  | nil =>
    cases behind with
    | nil => simp [woven]
    | cons t behind => cases h
  | cons a arguments ih =>
    cases behind with
    | nil => cases h
    | cons t behind =>
      rw [woven_cons, String.length_append, String.length_append, ih t (Nat.succ.inj h)]
      simp only [List.map_cons, List.sum_cons]
      omega

/-- A text with an argument of any kind behind it ends where the argument begins. -/
theorem eq_nil_of_append_any {s u : List Char} {f g : List Char → List Char}
    (h : ∀ a, s ++ (a ++ f a) = s ++ u ++ (a ++ g a)) : u = [] := by
  cases u with
  | nil => rfl
  | cons c u =>
    -- an argument that begins with another character than the text goes on with
    obtain ⟨other, hother⟩ : ∃ other : Char, other ≠ c := by
      by_cases hc : c = 'a'
      · exact ⟨'b', by rw [hc]; decide⟩
      · exact ⟨'a', Ne.symm hc⟩
    have happend := h [other]
    rw [List.append_assoc] at happend
    exact absurd (List.cons.inj (List.append_cancel_left happend)).1 hother

theorem eq_of_append_any {s t : List Char} {f g : List Char → List Char}
    (h : ∀ a, s ++ (a ++ f a) = t ++ (a ++ g a)) : s = t := by
  obtain ⟨u, rfl, -⟩ | ⟨u, rfl, -⟩ := List.append_eq_append_iff.1 (h [])
  · rw [eq_nil_of_append_any h, List.append_nil]
  · rw [eq_nil_of_append_any fun a => (h a).symm, List.append_nil]

/-- The fixed texts are determined by what is written. -/
theorem woven_injective {first first' : String} {behind behind' : List String}
    (hlength : behind.length = behind'.length)
    (h : ∀ arguments : List String, arguments.length = behind.length →
      woven first behind arguments = woven first' behind' arguments) :
    first = first' ∧ behind = behind' := by
  induction behind generalizing first first' behind' with
  | nil =>
    obtain rfl : behind' = [] := List.eq_nil_of_length_eq_zero hlength.symm
    have hall := h [] rfl
    simpa [woven] using hall
  | cons text behind ih =>
    obtain ⟨text', behind', rfl⟩ := List.exists_cons_of_length_eq_add_one hlength.symm
    have hcons (a : String) (rest : List String) (hrest : rest.length = behind.length) :
        first ++ a ++ woven text behind rest = first' ++ a ++ woven text' behind' rest := by
      have hall := h (a :: rest) (congrArg (· + 1) hrest)
      rwa [woven_cons, woven_cons] at hall
    -- the texts in front agree, as whatever is written between is the same on both sides
    have hfirst : first.toList = first'.toList := by
      refine eq_of_append_any
        (f := fun _ => (woven text behind (List.replicate behind.length "")).toList)
        (g := fun _ => (woven text' behind' (List.replicate behind.length "")).toList) fun a => ?_
      have hall := congrArg String.toList
        (hcons (String.ofList a) (List.replicate behind.length "") (List.length_replicate ..))
      simpa using hall
    obtain rfl : first = first' := String.toList_inj.1 hfirst
    obtain ⟨rfl, rfl⟩ := ih (Nat.succ.inj hlength) fun rest hrest =>
      String.append_right_inj _ |>.1 (hcons "" rest hrest)
    exact ⟨rfl, rfl⟩

/-! ## The word -/

theorem distinctWords_append {s t : String} {c : Char} (hc : Dialect.isNameChar c = false) :
    distinctWords (s ++ String.ofList (c :: t.toList)) = distinctWords s + distinctWords t := by
  have hends : (!Dialect.isNameChar c) = true := by rw [hc]; rfl
  have hsplit := List.splitOnP_append_cons (p := fun c => !Dialect.isNameChar c) s.toList t.toList
    hends
  have hlist : (String.ofList (c :: t.toList)).toList = c :: t.toList := String.toList_ofList
  unfold distinctWords
  rw [String.toList_append, hlist, hsplit, List.count_append]

/-- The word stands before the arguments, where it was asked for. -/
theorem distinctWords_opening (name : String) (distinct : Bool) :
    distinctWords (name ++ "(" ++ FunctionForm.distinctWord distinct) =
      distinctWords name + if distinct then 1 else 0 := by
  have happend := distinctWords_append (s := name) (t := FunctionForm.distinctWord distinct)
    (c := '(') rfl
  have heq : String.ofList ('(' :: (FunctionForm.distinctWord distinct).toList) =
      "(" ++ FunctionForm.distinctWord distinct := by
    cases distinct <;> rfl
  have hword : distinctWords (FunctionForm.distinctWord distinct) = if distinct then 1 else 0 := by
    cases distinct <;> decide
  rw [String.append_assoc, ← heq, happend, hword]

theorem distinctWords_closed (s : String) : distinctWords (s ++ ")") = distinctWords s :=
  distinctWords_append (s := s) (t := "") (c := ')') rfl

/-- The fixed texts of a form that a backend gives to a function do not have the word. -/
def FunctionForm.isQuiet : FunctionForm → Bool
  | .call name => distinctWords name == 0
  | .joined operator => distinctWords (" " ++ operator ++ " ") == 0
  | .constant text => distinctWords text == 0
  | .stringAggregate _ => true
  | .listAggregate => true

theorem isQuiet_backend (b : Backend) : ∀ entry ∈ b.functionForms, entry.2.isQuiet = true := by
  cases b <;> decide +kernel

theorem mem_of_mem_splitOnP {p : Char → Bool} {cs piece : List Char} {c : Char}
    (hpiece : piece ∈ cs.splitOnP p) (hc : c ∈ piece) : c ∈ cs := by
  induction cs generalizing piece with
  | nil =>
    rw [List.splitOnP_nil, List.mem_singleton] at hpiece
    rwa [hpiece] at hc
  | cons d cs ih =>
    rw [List.splitOnP_cons_eq_if_modifyHead] at hpiece
    split at hpiece
    · obtain rfl | hpiece := List.mem_cons.1 hpiece
      · cases hc
      · exact List.mem_cons_of_mem _ (ih hpiece hc)
    -- a character that does not split belongs to the first piece of the rest
    · cases hpieces : cs.splitOnP p with
      | nil =>
        rw [hpieces] at hpiece
        cases hpiece
      | cons first rest =>
        rw [hpieces, List.modifyHead_cons] at hpiece
        rw [hpieces] at ih
        obtain rfl | hpiece := List.mem_cons.1 hpiece
        · obtain rfl | hc := List.mem_cons.1 hc
          · exact List.mem_cons_self ..
          · exact List.mem_cons_of_mem _ (ih (List.mem_cons_self ..) hc)
        · exact List.mem_cons_of_mem _ (ih (List.mem_cons_of_mem _ hpiece) hc)

/-- The letters of the word stay as they are in upper case, and no function that a backend writes in
a way of its own has both of the first two in its name. -/
theorem distinctWords_mapped {d : Dialect} {name : String} {form : FunctionForm}
    (h : d.functionForm? name = some form) : distinctWords name = 0 := by
  refine Nat.eq_zero_of_not_pos fun hword => ?_
  have hpiece : "DISTINCT".toList ∈ name.toList.splitOnP fun c => !Dialect.isNameChar c :=
    List.count_pos_iff.1 hword
  have hupper {c : Char} (hc : c ∈ name.toList) (hsame : Text.upperChar c = [c]) :
      c ∈ (Text.upper name).toList := by
    rw [Text.upper, String.toList_ofList]
    exact List.mem_flatMap.2 ⟨c, hc, by rw [hsame]; exact List.mem_singleton_self c⟩
  have hd := hupper (mem_of_mem_splitOnP hpiece (c := 'D') (by decide)) (by decide)
  have hi := hupper (mem_of_mem_splitOnP hpiece (c := 'I') (by decide)) (by decide)
  have htable : ∀ b : Backend, ∀ entry ∈ b.functionForms,
      ¬ ('D' ∈ entry.1.toList ∧ 'I' ∈ entry.1.toList) := by
    intro b
    cases b <;> decide +kernel
  exact htable d.backend _ (Dialect.functionForm?_mem h) ⟨hd, hi⟩

/-! ## Arguments side by side -/

/-- The texts behind arguments that stand side by side. -/
def behindEach (separator closing : String) : Nat → List String
  | 0 => []
  | 1 => [closing]
  | n + 2 => separator :: behindEach separator closing (n + 1)

theorem length_behindEach (separator closing : String) (count : Nat) :
    (behindEach separator closing count).length = count := by
  induction count using behindEach.induct with
  | case1 => rfl
  | case2 => rfl
  | case3 n ih => rw [behindEach, List.length_cons, ih]

theorem distinctWords_behindEach {separator closing : String}
    (hseparator : distinctWords separator = 0) (hclosing : distinctWords closing = 0)
    (count : Nat) :
    ((behindEach separator closing count).map distinctWords).sum = 0 := by
  induction count using behindEach.induct with
  | case1 => rfl
  | case2 => simp [behindEach, hclosing]
  | case3 n ih => rw [behindEach, List.map_cons, List.sum_cons, ih, hseparator]

theorem woven_behindEach (opening separator closing a : String) (rest : List String) :
    woven opening (behindEach separator closing (a :: rest).length) (a :: rest) =
      opening ++ String.join ((a :: rest).intersperse separator) ++ closing := by
  induction rest generalizing opening a with
  | nil => simp [behindEach, woven, String.append_assoc]
  | cons b rest ih =>
    have hrest := ih separator b
    rw [List.length_cons, List.length_cons, behindEach, woven_cons]
    rw [List.length_cons] at hrest
    rw [hrest, List.intersperse_cons_cons]
    simp only [String.join_cons, String.append_assoc]

theorem map_intersperse {α β : Type} (f : α → β) (separator : α) (xs : List α) :
    (xs.intersperse separator).map f = (xs.map f).intersperse (f separator) := by
  induction xs with
  | nil => rfl
  | cons x xs ih =>
    cases xs with
    | nil => rfl
    | cons y xs =>
      rw [List.intersperse_cons_cons, List.map_cons, List.map_cons, ih]
      rfl

/-! ## Forms -/

/-- The text of a part among arguments. -/
def LayoutPart.shown (arguments : List String) : LayoutPart → String
  | .text s => s
  | .argument place => (arguments[place]?).getD ""

namespace FunctionForm

/-- A call in a form. -/
def write (form : FunctionForm) (arguments : List String) (distinct : Bool) : String :=
  String.join ((form.layout arguments.length distinct).map (LayoutPart.shown arguments))

theorem write_separated {form : FunctionForm} {opening separator closing : String} {distinct : Bool}
    {arguments : List String}
    (h : form.layout arguments.length distinct =
      [.text opening] ++ separated separator arguments.length ++ [.text closing]) :
    form.write arguments distinct =
      opening ++ String.join (arguments.intersperse separator) ++ closing := by
  have hplaces : (List.range arguments.length).map (fun i => (arguments[i]?).getD "") =
      arguments := by
    refine List.ext_getElem (by simp) fun i hi _ => ?_
    have hi' : i < arguments.length := by simpa using hi
    simp [hi']
  have hparts : (separated separator arguments.length).map (LayoutPart.shown arguments) =
      arguments.intersperse separator := by
    rw [separated, map_intersperse, List.map_map]
    exact congrArg (List.intersperse separator) hplaces
  rw [write, h, List.map_append, List.map_append, hparts]
  simp [LayoutPart.shown, String.append_assoc]

/-- The fixed texts of the calls in a form, with a number of times that the word stands in them. -/
structure Fixes (form : FunctionForm) (count : Nat) (distinct : Bool) (words : Nat)
    (first : String) (behind : List String) : Prop where
  length : behind.length = count
  written : ∀ arguments : List String, arguments.length = count →
    form.write arguments distinct = woven first behind arguments
  word : ((first :: behind).map distinctWords).sum = words

variable {form : FunctionForm} {count : Nat} {distinct : Bool} {words : Nat} {first : String}
  {behind : List String}

/-- Arguments that stand side by side are kept. -/
theorem fixes_separated (opening separator closing : String)
    (hlayout : form.layout count distinct =
      [.text opening] ++ separated separator count ++ [.text closing])
    (hopening : distinctWords opening = words) (hseparator : distinctWords separator = 0)
    (hclosing : distinctWords closing = 0) (hclosed : distinctWords (opening ++ closing) = words) :
    ∃ first behind, form.Fixes count distinct words first behind := by
  cases count with
  | zero =>
    refine ⟨opening ++ closing, [], rfl, ?_, by simpa using hclosed⟩
    intro arguments harguments
    obtain rfl := List.eq_nil_of_length_eq_zero harguments
    rw [write_separated hlayout]
    simp [woven]
  | succ count =>
    refine ⟨opening, behindEach separator closing (count + 1), length_behindEach .., ?_, ?_⟩
    · intro arguments harguments
      obtain ⟨a, rest, rfl⟩ := List.exists_cons_of_length_eq_add_one harguments
      rw [← harguments] at hlayout ⊢
      rw [write_separated hlayout, woven_behindEach]
    · rw [List.map_cons, List.sum_cons, distinctWords_behindEach hseparator hclosing, hopening,
        Nat.add_zero]

/-- The length of a call is that of its fixed texts and of its arguments, each counted once. -/
theorem Fixes.length_write (h : form.Fixes count distinct words first behind)
    (arguments arguments' : List String) (harguments : arguments.length = count)
    (harguments' : arguments'.length = count) :
    (form.write arguments distinct).length + (arguments'.map String.length).sum =
      (form.write arguments' distinct).length + (arguments.map String.length).sum := by
  rw [h.written _ harguments, h.written _ harguments',
    length_woven first (h.length.trans harguments.symm),
    length_woven first (h.length.trans harguments'.symm)]
  omega

/-- Calls that are written alike have the same fixed texts. -/
theorem Fixes.unique {form' : FunctionForm} {distinct' : Bool} {words' : Nat} {first' : String}
    {behind' : List String} (h : form.Fixes count distinct words first behind)
    (h' : form'.Fixes count distinct' words' first' behind')
    (hsame : ∀ arguments : List String,
      form.write arguments distinct = form'.write arguments distinct') : words = words' := by
  have hlength := h.length.trans h'.length.symm
  obtain ⟨rfl, rfl⟩ := woven_injective hlength fun arguments harguments => by
    rw [h.length] at harguments
    rw [← h.written _ harguments, ← h'.written _ harguments, hsame]
  exact h.word.symm.trans h'.word

/-- A call under a name keeps everything. -/
theorem exists_fixes_call (name : String) (count : Nat) (distinct : Bool) : ∃ first behind,
    (call name).Fixes count distinct (distinctWords name + if distinct then 1 else 0) first
      behind := by
  have hopening := distinctWords_opening name distinct
  exact fixes_separated _ _ _ rfl hopening (by decide) (by decide)
    ((distinctWords_closed _).trans hopening)

/-- A form that has texts of its own keeps what it is said to keep. -/
theorem exists_fixes (hquiet : form.isQuiet = true) (hkeeps : form.keeps count distinct = true) :
    ∃ first behind, form.Fixes count distinct (if distinct then 1 else 0) first behind := by
  cases form with
  | call name =>
    have hfixes := exists_fixes_call name count distinct
    rwa [eq_of_beq hquiet, Nat.zero_add] at hfixes
  | joined operator =>
    have hdistinct : distinct = false := by simpa [keeps] using hkeeps
    subst hdistinct
    exact fixes_separated "(" (" " ++ operator ++ " ") ")" rfl (by decide) (eq_of_beq hquiet)
      (by decide) (by decide)
  | constant text =>
    obtain ⟨rfl, rfl⟩ : count = 0 ∧ distinct = false := by simpa [keeps] using hkeeps
    refine ⟨text, [], rfl, ?_, eq_of_beq hquiet⟩
    intro arguments harguments
    obtain rfl := List.eq_nil_of_length_eq_zero harguments
    simp [write, layout, LayoutPart.shown, woven]
  | stringAggregate keepsDistinct =>
    obtain ⟨hcount, hdistinct⟩ : count ≤ 2 ∧ (keepsDistinct = true ∨ distinct = false) := by
      simpa [keeps] using hkeeps
    have hkept : (keepsDistinct && distinct) = distinct := by
      cases keepsDistinct <;> cases distinct <;> simp_all
    -- the separator has a default, so there is a case for each number of arguments
    obtain rfl | rfl | rfl : count = 0 ∨ count = 1 ∨ count = 2 := by omega
    · refine ⟨"STRING_AGG(" ++ distinctWord distinct ++ "undefined, ',')", [], rfl, ?_, ?_⟩
      · intro arguments harguments
        obtain rfl := List.eq_nil_of_length_eq_zero harguments
        rw [write, layout, hkept]
        cases distinct <;> decide
      · cases distinct <;> decide
    · refine ⟨"STRING_AGG(" ++ distinctWord distinct, [", ',')"], rfl, ?_, ?_⟩
      · intro arguments harguments
        obtain ⟨a, rfl⟩ := List.length_eq_one_iff.1 harguments
        have htail : ", ',')" = ", " ++ "','" ++ ")" := rfl
        rw [write, layout, hkept, htail]
        simp [argumentOr, LayoutPart.shown, woven, String.append_assoc]
      · cases distinct <;> decide
    · refine ⟨"STRING_AGG(" ++ distinctWord distinct, [", ", ")"], rfl, ?_, ?_⟩
      · intro arguments harguments
        obtain ⟨a, rest, rfl⟩ := List.exists_cons_of_length_eq_add_one harguments
        obtain ⟨b, rfl⟩ := List.length_eq_one_iff.1 (Nat.succ.inj harguments)
        rw [write, layout, hkept]
        simp [argumentOr, LayoutPart.shown, woven, String.append_assoc]
      · cases distinct <;> decide
  | listAggregate =>
    obtain ⟨rfl, rfl⟩ : count = 0 ∧ distinct = false := by simpa [keeps] using hkeeps
    refine ⟨"LISTAGG(undefined, ',') WITHIN GROUP (ORDER BY undefined)", [], rfl, ?_, by decide⟩
    intro arguments harguments
    obtain rfl := List.eq_nil_of_length_eq_zero harguments
    decide

/-- A form that keeps the arguments of a call, and is written alike with the word and without, loses
the word. -/
theorem not_fixes_of_same (hquiet : form.isQuiet = true) (hkeeps : form.keeps count false = true)
    (hsame : ∀ arguments : List String, form.write arguments true = form.write arguments false) :
    ¬ ∃ first behind, form.Fixes count true 1 first behind := by
  rintro ⟨first, behind, h⟩
  obtain ⟨_, _, h'⟩ := exists_fixes hquiet hkeeps
  exact absurd (h.unique h' hsame) (by decide)

/-- A form that is not said to keep a call does not. -/
theorem not_fixes (hquiet : form.isQuiet = true) (hkeeps : form.keeps count distinct = false) :
    ¬ ∃ first behind, form.Fixes count distinct (if distinct then 1 else 0) first behind := by
  cases form with
  | call name => cases hkeeps
  | joined operator =>
    obtain rfl : distinct = true := by simpa [keeps] using hkeeps
    exact not_fixes_of_same hquiet rfl fun _ => rfl
  | constant text =>
    cases count with
    | zero =>
      obtain rfl : distinct = true := by simpa [keeps] using hkeeps
      exact not_fixes_of_same hquiet rfl fun _ => rfl
    | succ n =>
      -- the first argument is not written
      rintro ⟨first, behind, h⟩
      have hlength := h.length_write ("x" :: List.replicate n "") ("" :: List.replicate n "")
        (by simp) (by simp)
      simp [write, layout, LayoutPart.shown] at hlength
  | stringAggregate keepsDistinct =>
    by_cases hcount : count ≤ 2
    · obtain ⟨rfl, rfl⟩ : keepsDistinct = false ∧ distinct = true := by
        simpa [keeps, hcount] using hkeeps
      exact not_fixes_of_same hquiet (by simpa [keeps] using hcount) fun _ => rfl
    · -- the third argument is not written
      obtain ⟨n, rfl⟩ : ∃ n, count = n + 3 := ⟨count - 3, by omega⟩
      rintro ⟨first, behind, h⟩
      have hlength := h.length_write ("" :: "" :: "x" :: List.replicate n "")
        ("" :: "" :: "" :: List.replicate n "") (by simp) (by simp)
      simp [write, layout, argumentOr, LayoutPart.shown] at hlength
  | listAggregate =>
    cases count with
    | zero =>
      obtain rfl : distinct = true := by simpa [keeps] using hkeeps
      exact not_fixes_of_same hquiet rfl fun _ => rfl
    | succ n =>
      -- the first argument is written twice
      rintro ⟨first, behind, h⟩
      have hlength := h.length_write ("x" :: List.replicate n "") ("" :: List.replicate n "")
        (by simp) (by simp)
      cases n with
      | zero =>
        simp [write, layout, argumentOr, LayoutPart.shown] at hlength
        exact absurd hlength (by decide)
      | succ n =>
        simp [write, layout, argumentOr, LayoutPart.shown] at hlength
        exact absurd hlength (by decide)

end FunctionForm

namespace Dialect
variable {d : Dialect} {name : String} {count : Nat} {distinct : Bool} {first : String}
  {behind : List String}

/-- The form in which a dialect writes a function. -/
def formOf (d : Dialect) (name : String) : FunctionForm := (d.functionForm? name).getD (.call name)

theorem keeps_iff_fixes : d.Keeps name count distinct first behind ↔
    (d.formOf name).Fixes count distinct (distinctWords name + if distinct then 1 else 0) first
      behind :=
  ⟨fun h => ⟨h.length, h.written, h.word⟩, fun h => ⟨h.length, h.written, h.word⟩⟩

/-- There are fixed texts with the arguments between them, each once and in order, and with the word
`DISTINCT` exactly where it was asked for, when the function is written under a name, when its
operands are joined and the word was not asked for, when nothing at all was passed to a constant
or an ordered list, and when at most two arguments were passed to a string aggregate that keeps
the word or was not asked for it. In all other calls an argument is dropped or written twice, or the
word is dropped. -/
theorem exists_keeps_iff (d : Dialect) (name : String) (count : Nat) (distinct : Bool) :
    (∃ first behind, d.Keeps name count distinct first behind) ↔
      (d.formOf name).keeps count distinct = true := by
  simp only [keeps_iff_fixes]
  unfold formOf
  cases hform : d.functionForm? name with
  | none => exact ⟨fun _ => rfl, fun _ => FunctionForm.exists_fixes_call name count distinct⟩
  | some form =>
    -- no form of a backend has the word `DISTINCT` in its own texts, so it stands only where it was
    -- asked for
    have hquiet : form.isQuiet = true := isQuiet_backend d.backend _ (functionForm?_mem hform)
    rw [distinctWords_mapped hform, Nat.zero_add, Option.getD_some]
    constructor
    · intro h
      cases hkeeps : form.keeps count distinct with
      | true => rfl
      | false => exact absurd h (FunctionForm.not_fixes hquiet hkeeps)
    · exact FunctionForm.exists_fixes hquiet

/-- SQL Server loses the word that PostgreSQL keeps, SQLite drops an argument, and Oracle writes one
twice: none of these calls has fixed texts. -/
theorem distinctAggregate_loses_word :
    (Dialect.make .sqlserver none).renderFunction "GROUP_CONCAT" ["name"] true =
        "STRING_AGG(name, ',')" ∧
      ¬ (∃ first behind,
        (Dialect.make .sqlserver none).Keeps "GROUP_CONCAT" 1 true first behind) ∧
      (Dialect.make .postgres none).renderFunction "GROUP_CONCAT" ["name"] true =
        "STRING_AGG(DISTINCT name, ',')" ∧
      (Dialect.make .sqlite none).renderFunction "NOW" ["?"] false = "CURRENT_TIMESTAMP" ∧
      ¬ (∃ first behind, (Dialect.make .sqlite none).Keeps "NOW" 1 false first behind) ∧
      (Dialect.make .oracle none).renderFunction "GROUP_CONCAT" [":p1"] false =
        "LISTAGG(:p1, ',') WITHIN GROUP (ORDER BY :p1)" ∧
      ¬ (∃ first behind,
        (Dialect.make .oracle none).Keeps "GROUP_CONCAT" 1 false first behind) := by
  simp only [keeps_iff_fixes]
  refine ⟨by decide +kernel, ?_, by decide +kernel, by decide +kernel, ?_, by decide +kernel, ?_⟩
  · exact @FunctionForm.not_fixes (.stringAggregate false) _ _ rfl rfl
  · exact @FunctionForm.not_fixes (.constant "CURRENT_TIMESTAMP") _ _ (by decide +kernel) rfl
  · exact @FunctionForm.not_fixes .listAggregate _ _ rfl rfl

end Dialect

end PolyQuery
