import PolyQuery.Proofs.Composition
import PolyQuery.Proofs.Parameters

/-! Placeholders and values side by side. Where every call keeps its arguments in order, the holes
of a compiled statement from the left are its values in order, and these are the values of its
places in the order of the text. -/
namespace PolyQuery

/-- A call under some name, or operands between which an operator stands. -/
def FunctionForm.keepsOrder : FunctionForm → Bool
  | .call _ => true
  | .joined _ => true
  | _ => false

/-- Whether the dialect writes the arguments of a function once each and in order. -/
def Dialect.keepsOrder (d : Dialect) (name : String) : Bool :=
  (d.functionForm? name).all FunctionForm.keepsOrder

/-- All calls keep the order of their arguments. -/
def Rules.orderedCalls (d : Dialect) : Rules where
  call := fun name => d.keepsOrder name = true
  raw := fun _ => True
  page := fun _ => True

/-- The text of a piece, with the dialect's placeholder in a hole. -/
def Piece.shown (d : Dialect) : Piece → String
  | .text s => s
  | .hole position => d.placeholder (position + 1)

namespace Fragment

/-- Arguments that are laid out with a text between two of them stand side by side. The list is cut
anywhere, as the places of the right part count on from the left one. -/
theorem layoutPieces_separated (separator : String) (before fs : List Fragment) :
    (((List.range' before.length fs.length).map LayoutPart.argument).intersperse
        (.text separator)).flatMap (layoutPieces (before ++ fs)) =
      (join separator fs).pieces.map (Piece.shift (before.flatMap bindings).length) := by
  induction fs generalizing before with
  | nil => rfl
  | cons f fs ih =>
    have hplace : layoutPieces (before ++ f :: fs) (.argument before.length) =
        f.pieces.map (Piece.shift (before.flatMap bindings).length) := by
      simp [layoutPieces, offset]
    cases fs with
    | nil => simpa [join] using hplace
    | cons g gs =>
      have hrest := ih (before ++ [f])
      have hlength : ((before ++ [f]).flatMap bindings).length =
          (before.flatMap bindings).length + f.bindings.length := by simp
      -- the others are numbered behind the first fragment, and together they are shifted at once
      have hshift : Piece.shift ((before.flatMap bindings).length + f.bindings.length) =
          Piece.shift (before.flatMap bindings).length ∘ Piece.shift f.bindings.length :=
        funext fun p => (shift_shift _ _ p).symm
      rw [List.length_append, List.length_singleton, List.append_assoc, List.singleton_append,
        hlength, hshift] at hrest
      have hplaces : ((List.range' before.length (f :: g :: gs).length).map
          LayoutPart.argument).intersperse (.text separator) =
          .argument before.length :: .text separator :: ((List.range' (before.length + 1)
            (g :: gs).length).map LayoutPart.argument).intersperse (.text separator) := rfl
      rw [hplaces, List.flatMap_cons, List.flatMap_cons, hplace, hrest, join_cons_cons]
      simp [append_def, text, Piece.shift, layoutPieces]

/-- A layout that keeps the order of its arguments is a text, the arguments and a text. -/
theorem ofLayout_separated (opening separator closing : String) (fs : List Fragment) :
    ofLayout ([.text opening] ++ FunctionForm.separated separator fs.length ++ [.text closing]) fs =
      text opening ++ join separator fs ++ text closing := by
  have hpieces := layoutPieces_separated separator [] fs
  rw [List.length_nil, ← List.range_eq_range', List.nil_append] at hpieces
  simp only [append_def, ofLayout, text, bindings_join, List.flatMap_append, List.nil_append,
    List.append_nil, FunctionForm.separated, hpieces]
  rfl

theorem aligned_empty : Aligned empty := rfl

theorem aligned_join (separator : String) {fs : List Fragment} (h : ∀ f ∈ fs, Aligned f) :
    Aligned (join separator fs) := by
  induction fs with
  | nil => exact aligned_empty
  | cons f fs ih =>
    cases fs with
    | nil => exact h f (by simp)
    | cons g gs =>
      rw [join_cons_cons]
      have hf := (h f (by simp)).append (aligned_text separator)
      exact hf.append (ih fun k hk => h k (by simp [hk]))

/-- A call that keeps the order of its arguments keeps the order of their holes. -/
theorem aligned_call {d : Dialect} {name : String} (hname : d.keepsOrder name = true)
    (distinct : Bool) {fs : List Fragment} (h : ∀ f ∈ fs, Aligned f) :
    Aligned (ofLayout (d.functionLayout name fs.length distinct) fs) := by
  have hside (opening separator closing : String) : Aligned (ofLayout
      ([.text opening] ++ FunctionForm.separated separator fs.length ++ [.text closing]) fs) := by
    rw [ofLayout_separated]
    exact ((aligned_text opening).append (aligned_join separator h)).append (aligned_text closing)
  unfold Dialect.keepsOrder at hname
  unfold Dialect.functionLayout
  cases hform : d.functionForm? name with
  | none => exact hside _ _ _
  | some form =>
    rw [hform] at hname
    cases form with
    | call name => exact hside _ _ _
    | joined operator => exact hside _ _ _
    | constant text => cases hname
    | stringAggregate keepsDistinct => cases hname
    | listAggregate => cases hname

theorem aligned_interleave (pieces : List (List Char)) (values : List Value) :
    Aligned (Raw.interleave pieces values) := by
  induction values generalizing pieces with
  | nil => cases pieces <;> rfl
  | cons v vs ih =>
    cases pieces with
    | nil => rfl
    | cons p ps =>
      have hfirst := (aligned_text (String.ofList p)).append (aligned_bind (.plain v))
      exact hfirst.append (ih ps)

/-- Raw text keeps the order of its parameters. -/
theorem aligned_raw {sql : String} {values : List Value} {f : Fragment}
    (h : Raw.fragment sql values = .ok f) : Aligned f := by
  unfold Raw.fragment at h
  dsimp only at h
  split at h
  · cases h
    exact aligned_interleave _ _
  · cases h

theorem closed_aligned (d : Dialect) :
    Closed d (Rules.orderedCalls d) (fun _ => True) Aligned where
  calm := fun _ _ => trivial
  name := fun _ => trivial
  both := fun _ _ _ _ => trivial
  between := fun _ _ => trivial
  limit := fun _ _ _ _ => ⟨trivial, trivial⟩
  offset := fun _ _ => ⟨trivial, fun _ _ => trivial⟩
  empty := aligned_empty
  text := fun s _ => aligned_text s
  bind := aligned_bind
  append := fun _ _ => Aligned.append
  around := fun _ _ _ _ _ h => ((aligned_text _).append h).append (aligned_text _)
  around₂ := fun _ _ _ _ _ _ _ _ _ h => ((aligned_text _).append h).append (aligned_text _)
  call := fun _ distinct _ hname h => aligned_call hname distinct h
  raw := fun _ _ _ _ h => aligned_raw h

end Fragment

/-- A compiled statement is a sequence of texts and holes. The holes from the left are numbered
through, each with its placeholder, and the values to bind are those of the places of the statement
in the order of its text. -/
theorem compile_aligned {d : Dialect} {s : Statement} {c : Compiled}
    (hcalls : (Rules.orderedCalls d).statement s) (h : compile d s = .ok c) :
    ∃ pieces, Sql.statement d s = .ok ⟨pieces, c.bindings⟩ ∧
      c.sql = String.join (pieces.map (Piece.shown d)) ∧
      Fragment.holes ⟨pieces, c.bindings⟩ = List.range c.parameters.length ∧
      c.parameters.length = c.bindings.length ∧
      c.bindings = (Slots.statement d s).map Slot.binding ∧
      c.parameters = (Slots.statement d s).map Slot.value := by
  obtain ⟨f, _, hf, rfl⟩ := compile_ok h
  have haligned := (Fragment.closed_aligned d).of_statement s hcalls hf
  have hbindings := Sql.statement_bindings s hf
  have hlength : (f.bindings.map Binding.value).length = f.bindings.length := by simp
  have hvalue : Binding.value ∘ Slot.binding = Slot.value := funext Slot.binding_value
  have hparameters : f.bindings.map Binding.value = (Slots.statement d s).map Slot.value := by
    rw [hbindings, List.map_map, hvalue]
  -- the text is read off the pieces; the holes are numbered through by `haligned`, which counts
  -- bindings where the parameters are asked for
  refine ⟨f.pieces, hf, ?_, ?_, hlength, hbindings, hparameters⟩
  · exact congrArg String.join (List.map_congr_left fun p _ => by cases p <;> rfl)
  · exact haligned.trans (congrArg List.range hlength.symm)

/-- A change with a concatenation, a list with an undefined literal, and raw text in the list. -/
def mixedUpdate : Statement := .update
  { table := "t"
    assignments := [⟨"a", .call "concat"
      [.column none "b" none, .literal (.string "x") ⟨"string", none, none⟩] false none⟩]
    condition := some (.inList (.column none "c" none)
      [.literal .undefined ⟨"null", none, none⟩, .raw "? + ?" [.string "y", .string "z"]] false)
    returning := [] }

theorem compile_aligned_mixedUpdate :
    (Rules.orderedCalls (.make .sqlite none)).statement mixedUpdate ∧
    ∃ c, compile (.make .sqlite none) mixedUpdate = .ok c ∧
      c.sql = "UPDATE t SET a = (b || ?) WHERE c IN (?, ? + ?)" ∧
      c.parameters = [.string "x", .null, .string "y", .string "z"] ∧
      ∃ pieces, Sql.statement (.make .sqlite none) mixedUpdate = .ok ⟨pieces, c.bindings⟩ ∧
        c.sql = String.join (pieces.map (Piece.shown (.make .sqlite none))) ∧
        Fragment.holes ⟨pieces, c.bindings⟩ = List.range c.parameters.length := by
  have hcalls : (Rules.orderedCalls (.make .sqlite none)).statement mixedUpdate := by
    have hname : (Dialect.make .sqlite none).keepsOrder "concat" = true := by decide +kernel
    refine ⟨⟨⟨hname, ?_, ?_⟩, ?_⟩, ?_, ?_⟩
    · exact ⟨trivial, trivial, trivial⟩
    · trivial
    · trivial
    · exact .inr ⟨trivial, trivial, trivial, trivial⟩
    · trivial
  obtain ⟨c, hc, hsql⟩ := compile_of_sql (d := .make .sqlite none) (s := mixedUpdate)
    "UPDATE t SET a = (b || ?) WHERE c IN (?, ? + ?)" (by decide +kernel)
  obtain ⟨pieces, hpieces, htext, hholes, _, _, hparameters⟩ := compile_aligned hcalls hc
  exact ⟨hcalls, c, hc, hsql, hparameters, pieces, hpieces, htext, hholes⟩

/-- A selection whose condition is raw text with an undefined parameter. -/
def undefinedParameter : Statement := .query (.select
  { SelectPlan.all (some (.table "t" none)) with condition := some (.raw "a = ?" [.undefined]) })

/-- An undefined parameter of raw text is handed on as it is: only literals read it as null. -/
theorem raw_parameter_stays_undefined :
    (Rules.orderedCalls (.make .sqlite none)).statement undefinedParameter ∧
    ∃ c, compile (.make .sqlite none) undefinedParameter = .ok c ∧
      c.parameters ≠ (Slots.statement (.make .sqlite none) undefinedParameter).map
        fun place => place.given.settled := by
  have hcalls : (Rules.orderedCalls (.make .sqlite none)).statement undefinedParameter :=
    ⟨trivial, trivial, trivial, trivial, trivial, trivial, trivial, trivial, fun _ h => nomatch h⟩
  obtain ⟨c, hc, _⟩ := compile_of_sql (d := .make .sqlite none) (s := undefinedParameter)
    "SELECT * FROM t WHERE a = ?" (by decide +kernel)
  have hparameters : c.parameters = [.undefined] := by
    obtain ⟨f, _, hf, rfl⟩ := compile_ok hc
    have hbindings := Sql.statement_bindings undefinedParameter hf
    change f.bindings.map Binding.value = _
    rw [hbindings]
    rfl
  refine ⟨hcalls, c, hc, ?_⟩
  rw [hparameters]
  intro h
  cases h

end PolyQuery
