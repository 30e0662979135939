import Mathlib.Data.List.Forall2
import PolyQuery.Proofs.CallTexts
import PolyQuery.Proofs.Places

/-! What a call holds, read back from its text: arguments with commas between them behind a name, or
operands of `||` between brackets. Main statement: `call_operands_iff`, when the operands that are
read are the arguments, each of them whole. -/
namespace PolyQuery

namespace Grammar

/-- The operands between the brackets of a call. -/
def inside (join : Nat) (j : Joint) (ts : List Token) : List (List Token) :=
  if ts.isEmpty then [] else series join j ts.length ts

/-- Arguments without the word that asks for different ones. -/
def undistinct : List Token → List Token
  | .key .distinct :: ts => ts
  | ts => ts

/-- The operands of a call: those of the first brackets, behind a name or at the beginning. -/
def operands (join : Nat) : List Token → List (List Token)
  | .opening :: ts => ((close 0 ts).map fun p => inside join .bars p.1).getD []
  | .word _ :: .opening :: ts =>
    ((close 0 ts).map fun p => inside join .comma (undistinct p.1)).getD []
  | _ => []

/-- The operands of a call, unless its text opens a comment. -/
def operands? (join : Nat) (ts : List Token) : Option (List (List Token)) :=
  if .mark "--" ∈ ts then none else some (operands join ts)

end Grammar

namespace FunctionForm

/-- Whether a form makes operands of its arguments, with an operator between them. -/
def joins : FunctionForm → Bool
  | joined _ => true
  | _ => false

/-- The joint that a form puts between operands. -/
def joint (form : FunctionForm) : Joint := if form.joins then .bars else .comma

end FunctionForm

namespace Scan
variable {d : Dialect} {fs : List Fragment}

/-- The tokens of an operand by itself. -/
def placeTokens (d : Dialect) (fs : List Fragment) : LayoutPart → List Token
  | .text s => tokens d s.toList
  | .argument place => ((fs[place]?).map fun f => tokens d (f.sql d).toList).getD []

/-- Wherever an operand stands, it has the tokens that it has by itself. -/
theorem spells_place (h : ∀ f ∈ fs, Steady d fun n => f.chars d n) {p : LayoutPart}
    (hp : ∀ s, p = .text s → CalmText s) :
    Spells d (fun n => partChars d fs n p) (placeTokens d fs p) := by
  have hspells := (steady_part h hp).spells.1
  cases p with
  | text s => exact hspells
  | argument place =>
    rw [placeTokens]
    cases hf : fs[place]? with
    | none =>
      simp only [partChars, hf, Option.map_none, Option.getD_none]
      exact spells_nothing
    | some f =>
      have hown := (h f (List.mem_of_getElem? hf)).spells.1
      simp only [partChars, hf, Option.map_some, Option.getD_some, Fragment.toList_sql]
      exact hown.shift _

theorem spells_bars : Spells d (fun _ => ['|', '|']) [.mark "|", .mark "|"] := by
  have hbegin : begin d '|' = ([], .mark '|') := begin_sign rfl rfl rfl rfl
  have hstep : step d (.mark '|') '|' = ([.mark "|"], .mark '|') := by
    have hafter : step d (.mark '|') '|' = after d (.mark '|') '|' := rfl
    rw [hafter, after, hbegin]
    rfl
  -- the second sign ends the first one, and is itself pending at the end
  refine ⟨[.mark "|"], .mark '|', trivial, rfl, fun _ => ?_⟩
  rw [run, step, hbegin, run, hstep, run]
  rfl

/-- A joint and the operand behind it. -/
theorem follows_joint {form : FunctionForm} (hform : IsForm d form) {g : Nat → List Char}
    {ts : List Token} (h : Spells d g ts) :
    Follows d (fun n => form.between.toList ++ g n)
      ((form.joint.sign :: form.joint.more) ++ ts) := by
  have hcomma : Follows d (fun n => ", ".toList ++ g n) (.comma :: ts) := by
    have hsign : separator ',' = some [.comma] := rfl
    have hchars : ", ".toList = [',', ' '] := String.toList_ofList
    have hall := h.spaced.spells.behind hsign
    simpa only [hchars, List.cons_append, List.nil_append] using hall
  cases form with
  | joined operator =>
    obtain rfl : operator = "||" := hform
    have hchars : "||".toList = ['|', '|'] := String.toList_ofList
    have hbars := (spells_bars.append h.spaced).spaced
    have htext : Follows d (fun n => (" " ++ "||" ++ " ").toList ++ g n)
        (.mark "|" :: .mark "|" :: ts) := by
      simpa only [String.toList_append, toList_blank, hchars, List.append_assoc, List.cons_append,
        List.nil_append] using hbars
    exact htext
  | _ => exact hcomma

end Scan

/-- Texts with joints between them, if there are any. -/
def Joint.row (j : Joint) : List (List Token) → List Token
  | [] => []
  | ts :: others => j.joined ts others

theorem Joint.joined_append (j : Joint) (ts us : List Token) (others : List (List Token)) :
    j.joined (ts ++ us) others = ts ++ j.joined us others := by
  induction others generalizing us with
  | nil => rfl
  | cons vs others ih =>
    rw [Joint.joined, List.foldl_cons, List.append_assoc, List.append_assoc, ← List.append_assoc us]
    exact ih _

namespace Scan
variable {d : Dialect} {fs : List Fragment}

/-- Operands with joints between them. -/
theorem spells_places {form : FunctionForm} (hform : IsForm d form)
    {p : LayoutPart} {ps : List LayoutPart}
    (h : ∀ q ∈ p :: ps, Spells d (fun n => partChars d fs n q) (placeTokens d fs q)) :
    Spells d (fun n => ((p :: ps).intersperse (.text form.between)).flatMap (partChars d fs n))
      (form.joint.joined (placeTokens d fs p) (ps.map (placeTokens d fs))) := by
  induction ps generalizing p with
  | nil =>
    have hp := h p List.mem_cons_self
    rw [List.map_nil, Joint.joined, List.foldl_nil]
    simpa only [List.intersperse_singleton, List.flatMap_cons, List.flatMap_nil,
      List.append_nil] using hp
  | cons q ps ih =>
    obtain ⟨hp, hrest⟩ := List.forall_mem_cons.1 h
    have hall := hp.append (follows_joint hform (ih hrest))
    -- the row is built from its last operand here, and from its first one in `Joint.joined`
    have htokens : form.joint.joined (placeTokens d fs p) ((q :: ps).map (placeTokens d fs)) =
        placeTokens d fs p ++ ((form.joint.sign :: form.joint.more) ++
          form.joint.joined (placeTokens d fs q) (ps.map (placeTokens d fs))) := by
      rw [← Joint.joined_append, ← Joint.joined_append]
      rw [List.map_cons, Joint.joined, List.foldl_cons, List.append_assoc]
      rfl
    rw [htokens]
    simpa only [List.intersperse_cons_cons, List.flatMap_cons, partChars_text] using hall

/-- What stands between the brackets of a call: its operands, perhaps behind a word. -/
theorem tokens_inner {form : FunctionForm} (hform : IsForm d form) (distinct : Bool)
    (h : ∀ f ∈ fs, Steady d fun n => f.chars d n) :
    Scan.tokens d ((form.inner fs.length distinct).flatMap (partChars d fs 0)) =
      (if form.keepsWord distinct then [.key .distinct] else []) ++
        form.joint.row ((form.places fs.length).map (placeTokens d fs)) := by
  have hplaces : ∀ q ∈ form.places fs.length,
      Spells d (fun n => partChars d fs n q) (placeTokens d fs q) :=
    fun q hq => spells_place h fun s hs => calm_places form fs.length (hs ▸ hq)
  have hrow : Spells d (fun n => ((form.places fs.length).intersperse
      (.text form.between)).flatMap (partChars d fs n))
      (form.joint.row ((form.places fs.length).map (placeTokens d fs))) := by
    generalize form.places fs.length = ps at hplaces
    cases ps with
    | nil => exact spells_nothing
    | cons p ps => exact spells_places hform hplaces
  rw [FunctionForm.inner]
  generalize form.keepsWord distinct = kept
  -- the word before the arguments is written with a blank behind it
  cases kept with
  | false => exact hrow.tokens 0
  | true =>
    have hall := (spells_keyword (d := d) .distinct).append hrow.spaced
    have hword : (FunctionForm.distinctWord true).toList =
        (Keyword.text d .distinct).toList ++ [' '] := by
      have hparts : FunctionForm.distinctWord true = Keyword.text d .distinct ++ " " := rfl
      rw [hparts, String.toList_append, toList_blank]
    rw [List.flatMap_cons, partChars_text, hword, List.append_assoc]
    exact hall.tokens 0

end Scan

namespace Grammar
variable {join : Nat} {j : Joint} {first : List Token} {others : List (List Token)}

theorem inside_joined_iff (hj : j.Sound) (hf : IsOperand j first)
    (ho : ∀ ts ∈ others, IsOperand j ts) :
    inside join j (j.joined first others) = first :: others ↔ others = [] ∨
      (∀ t ∈ Post.start.operators first, j.sign.strength join ≤ t.strength join) ∧
        ∀ ts ∈ others, ∀ t ∈ Post.start.operators ts, j.sign.strength join < t.strength join := by
  have hne : j.joined first others ≠ [] := by
    intro h
    have hrun := hj.run_joined hf ho
    rw [h] at hrun
    cases hrun
  have hsome : (j.joined first others).isEmpty = false := List.isEmpty_eq_false_iff.2 hne
  rw [inside, hsome, if_neg Bool.false_ne_true]
  exact series_joined_iff hj hf ho Joint.length_le_joined

/-- A word that asks for different arguments is no part of the first one. -/
theorem undistinct_operand {ts : List Token} (h : ∀ t ∈ Post.start.operators ts, t ≠ .key .distinct) :
    undistinct ts = ts := by
  cases ts with
  | nil => rfl
  | cons t ts =>
    by_cases ht : t = .key .distinct
    · subst ht
      exact absurd rfl (h _ List.mem_cons_self)
    · unfold undistinct
      split
      · next heq =>
        cases heq
        exact absurd rfl ht
      · rfl

end Grammar

/-- Arguments that `||` may stand between: the first one has no operator that binds less, and the
others have none that binds as little. -/
def Expr.JoinsUnder (d : Dialect) (join : Nat) : List Expr → Prop
  | [] => True
  | e :: es => es = [] ∨ (∀ t ∈ e.operators d, join ≤ t.strength join) ∧
    ∀ e' ∈ es, ∀ t ∈ e'.operators d, join < t.strength join

namespace Scan
variable {d : Dialect} {fs : List Fragment} {arguments : List Expr} {join : Nat}

theorem reads_exprs {es : List Expr} (hp : (Rules.paired d).exprs es) (hes : ∀ e ∈ es, e.Fits d)
    {fs : List Fragment} (h : Sql.exprs d es = .ok fs) :
    List.Forall₂ (fun e f => Reads d (e.operators d) f) es fs := by
  induction es generalizing fs with
  | nil =>
    cases h
    exact .nil
  | cons e es ih =>
    obtain ⟨g, gs, hg, hgs, rfl⟩ := Sql.exprs_cons_ok h
    obtain ⟨hfirst, hrest⟩ := List.forall_mem_cons.1 hes
    exact .cons (reads_expr e hp.1 hfirst hg) (ih hp.2 hrest hgs)

/-- The tokens of an operand by itself begin and end it. -/
theorem Reads.own {us : List Token} {f : Fragment} (h : Reads d us f) :
    Exposes true us (Scan.tokens d (f.sql d).toList) false := by
  obtain ⟨ts, hwritten, hexposes⟩ := h.written
  have htokens : Scan.tokens d (f.sql d).toList = ts := by
    rw [Fragment.toList_sql]
    exact Spells.tokens hwritten 0
  rwa [htokens]

theorem exposes_undefined : Exposes true [] (Scan.tokens d "undefined".toList) false := by
  have hbare : IsBare "undefined" := by decide +kernel
  have hspells := spells_word (d := d) hbare.1
  rw [hspells.tokens 0, hbare.ofWord]
  exact .word _

/-- A comma between quotes separates no arguments. -/
theorem exposes_quotedComma : Exposes true [] (Scan.tokens d "','".toList) false := by
  have hquote : begin d '\'' = ([], .mark '\'') := begin_sign rfl rfl rfl rfl
  have hcomma : separator ',' = some [.comma] := rfl
  have hchars : "','".toList = ['\''] ++ ',' :: ['\''] := String.toList_ofList
  have hspells := (spells_sign hquote).append ((spells_sign hquote).behind hcomma)
  rw [hchars, hspells.tokens 0]
  exact ⟨⟨fun _ => rfl, fun _ => rfl⟩, rfl, rfl⟩

/-- Every operand that a form writes is one, whether it is an argument or stands for a missing one. -/
theorem exposes_place (h : List.Forall₂ (fun e f => Reads d (e.operators d) f) arguments fs)
    {form : FunctionForm} {p : LayoutPart} (hp : p ∈ form.places fs.length) :
    ∃ us, Exposes true us (placeTokens d fs p) false ∧ ∀ t ∈ us, t.Binds := by
  have hargument {place : Nat} (hplace : place < fs.length) :
      ∃ us, Exposes true us (placeTokens d fs (.argument place)) false ∧ ∀ t ∈ us, t.Binds := by
    have harguments : place < arguments.length := h.length_eq ▸ hplace
    have hown := (h.get harguments hplace).own
    rw [placeTokens, List.getElem?_eq_getElem hplace]
    exact ⟨_, hown, fun t ht => Expr.binds_of_mem _ ht⟩
  -- a place without an argument shows a word or a text in quotes, and no operators
  have hmissing {m : String} (hm : Exposes true [] (Scan.tokens d m.toList) false) {place : Nat}
      (hp : p = FunctionForm.argumentOr fs.length place m) :
      ∃ us, Exposes true us (placeTokens d fs p) false ∧ ∀ t ∈ us, t.Binds := by
    unfold FunctionForm.argumentOr at hp
    split at hp
    · next hplace => exact hp ▸ hargument hplace
    · exact ⟨[], hp ▸ hm, nofun⟩
  have hpair (hp : p ∈ [FunctionForm.argumentOr fs.length 0 "undefined",
      FunctionForm.argumentOr fs.length 1 "','"]) :
      ∃ us, Exposes true us (placeTokens d fs p) false ∧ ∀ t ∈ us, t.Binds := by
    rcases List.mem_cons.1 hp with hp | hp
    · exact hmissing exposes_undefined hp
    · exact hmissing exposes_quotedComma (List.mem_singleton.1 hp)
  cases form with
  | constant text => cases hp
  | stringAggregate keepsDistinct => exact hpair hp
  | listAggregate => exact hpair hp
  | _ =>
    obtain ⟨place, hplace, rfl⟩ := List.mem_map.1 hp
    exact hargument (List.mem_range.1 hplace)

/-- The tokens of a place are an operand of a call. -/
theorem isOperand_place (h : List.Forall₂ (fun e f => Reads d (e.operators d) f) arguments fs)
    {form : FunctionForm} {p : LayoutPart} (hp : p ∈ form.places fs.length) :
    IsOperand form.joint (placeTokens d fs p) ∧
      ∀ t ∈ Post.start.operators (placeTokens d fs p), t.Binds := by
  obtain ⟨us, hexposes, hbinds⟩ := exposes_place h hp
  have hshown : Post.start.operators (placeTokens d fs p) = us := hexposes.shown
  rw [hshown]
  refine ⟨⟨hexposes.run, ?_⟩, hbinds⟩
  rw [hshown]
  intro hsign
  obtain ⟨hcomma, hbars, -⟩ := (hbinds _ hsign).ne
  cases form with
  | joined operator => exact hbars rfl
  | _ => exact hcomma rfl

theorem operators_own (h : List.Forall₂ (fun e f => Reads d (e.operators d) f) arguments fs) :
    fs.map (fun f => Post.start.operators (Scan.tokens d (f.sql d).toList)) =
      arguments.map (Expr.operators d) := by
  induction h with
  | nil => rfl
  | cons hreads _ ih =>
    rw [List.map_cons, List.map_cons, ih]
    exact congrArg (· :: _) hreads.own.shown

/-- The operands of a call that is written with all of its arguments. -/
theorem places_range : ((List.range fs.length).map LayoutPart.argument).map (placeTokens d fs) =
    fs.map fun f => Scan.tokens d (f.sql d).toList := by
  refine List.ext_getElem (by simp) fun i hi hi' => ?_
  have hlength : i < fs.length := by simpa using hi'
  simp only [List.getElem_map, List.getElem_range, placeTokens, List.getElem?_eq_getElem hlength,
    Option.map_some, Option.getD_some]

/-- What stands between `||` is read as the arguments if each of them binds strongly enough. -/
theorem inside_bars_iff (h : List.Forall₂ (fun e f => Reads d (e.operators d) f) arguments fs)
    (join : Nat) :
    (Grammar.inside join .bars (Joint.bars.row (fs.map fun f => Scan.tokens d (f.sql d).toList)) =
      fs.map fun f => Scan.tokens d (f.sql d).toList) ↔ Expr.JoinsUnder d join arguments := by
  -- an argument shows the operators that it has itself, and never the sign between arguments
  have hoperand {e : Expr} {f : Fragment} (hreads : Reads d (e.operators d) f) :
      IsOperand .bars (Scan.tokens d (f.sql d).toList) := by
    refine ⟨hreads.own.run, fun hsign => ?_⟩
    have hshown : Post.start.operators (Scan.tokens d (f.sql d).toList) = e.operators d :=
      hreads.own.shown
    rw [hshown] at hsign
    exact (Expr.binds_of_mem e hsign).ne.2.1 rfl
  cases h with
  | nil => exact iff_of_true rfl trivial
  | @cons e f es fs hfirst hrest =>
    have hothers : ∀ ts ∈ fs.map (fun f => Scan.tokens d (f.sql d).toList), IsOperand .bars ts := by
      rw [List.forall_mem_map]
      intro g hg
      obtain ⟨i, hi, rfl⟩ := List.getElem_of_mem hg
      have hlength : i < es.length := hrest.length_eq ▸ hi
      exact hoperand (hrest.get hlength hi)
    have hshown : Post.start.operators (Scan.tokens d (f.sql d).toList) = e.operators d :=
      hfirst.own.shown
    have hoperators := operators_own hrest
    have hstrength : Joint.bars.sign.strength join = join := rfl
    have hall : (∀ ts ∈ fs.map (fun f => Scan.tokens d (f.sql d).toList),
        ∀ t ∈ Post.start.operators ts, join < t.strength join) ↔
          ∀ e' ∈ es, ∀ t ∈ e'.operators d, join < t.strength join := by
      rw [List.forall_mem_map, ← List.forall_mem_map (f := Expr.operators d)
        (P := fun us => ∀ t ∈ us, join < t.strength join), ← hoperators, List.forall_mem_map]
    have hnone : fs.map (fun f => Scan.tokens d (f.sql d).toList) = [] ↔ es = [] := by
      rw [List.map_eq_nil_iff, ← List.length_eq_zero_iff, ← List.length_eq_zero_iff,
        hrest.length_eq]
    rw [List.map_cons, Joint.row]
    rw [Grammar.inside_joined_iff Joint.sound_bars (hoperand hfirst) hothers, hshown, hstrength,
      hall, hnone]
    rfl

theorem joint_comma {form : FunctionForm} (h : form.joins = false) : form.joint = .comma := by
  rw [FunctionForm.joint, h]
  rfl

theorem isOperand_places (h : List.Forall₂ (fun e f => Reads d (e.operators d) f) arguments fs)
    {form : FunctionForm} (hform : form.joins = false) :
    ∀ ts ∈ (form.places fs.length).map (placeTokens d fs),
      IsOperand .comma ts ∧ ∀ t ∈ Post.start.operators ts, t.Binds := by
  rw [List.forall_mem_map, ← joint_comma hform]
  exact fun p hp => isOperand_place h hp

/-- Between commas anything is read as it was written. -/
theorem inside_commas (h : List.Forall₂ (fun e f => Reads d (e.operators d) f) arguments fs)
    {form : FunctionForm} (hform : form.joins = false) :
    Grammar.inside join .comma
        (Joint.comma.row ((form.places fs.length).map (placeTokens d fs))) =
      (form.places fs.length).map (placeTokens d fs) := by
  have hplaces := isOperand_places h hform
  generalize (form.places fs.length).map (placeTokens d fs) = texts at hplaces
  cases texts with
  | nil => rfl
  | cons ts others =>
    obtain ⟨⟨hfirst, hbinds⟩, hothers⟩ := List.forall_mem_cons.1 hplaces
    have hcomma : Joint.comma.sign.strength join = 0 := rfl
    refine (Grammar.inside_joined_iff Joint.sound_comma hfirst fun ts hts => (hothers ts hts).1).2
      (.inr ⟨fun t ht => ?_, fun ts hts t ht => ?_⟩)
    · rw [hcomma]
      exact Nat.zero_le _
    · rw [hcomma]
      exact ((hothers ts hts).2 t ht).strength_pos join

/-- The row between the brackets of a call, without the word before it. -/
theorem undistinct_row (h : List.Forall₂ (fun e f => Reads d (e.operators d) f) arguments fs)
    {form : FunctionForm} (hform : form.joins = false) (kept : Bool) :
    Grammar.undistinct ((if kept then [.key .distinct] else []) ++
        Joint.comma.row ((form.places fs.length).map (placeTokens d fs))) =
      Joint.comma.row ((form.places fs.length).map (placeTokens d fs)) := by
  cases kept with
  | true => rfl
  | false =>
    have hplaces := isOperand_places h hform
    generalize (form.places fs.length).map (placeTokens d fs) = texts at hplaces
    cases texts with
    | nil => rfl
    | cons ts others =>
      obtain ⟨⟨hfirst, hbinds⟩, hothers⟩ := List.forall_mem_cons.1 hplaces
      -- an argument begins with no word that could be taken for the one before the row
      refine Grammar.undistinct_operand ?_
      refine (Joint.sound_comma.forall_operators hfirst (fun us hus => (hothers us hus).1) ?_).2
        ⟨fun t ht => (hbinds t ht).ne.2.2, fun us hus t ht => ((hothers us hus).2 t ht).ne.2.2⟩
      exact Token.noConfusion

/-- The operands of a call with brackets are those between them. -/
theorem operands_brackets (form : FunctionForm) {inner : List Token} (h : Paired inner)
    (us : List Token) :
    Grammar.operands join (headTokens form ++ (.opening :: inner ++ [.closing]) ++ us) =
      if form.joins then Grammar.inside join .bars inner
      else Grammar.inside join .comma (Grammar.undistinct inner) := by
  have hclose : Grammar.close 0 (inner ++ .closing :: us) = some (inner, us) :=
    Grammar.close_closing h us
  have hbrackets : (.opening :: inner ++ [.closing]) ++ us =
      .opening :: (inner ++ .closing :: us) := by
    rw [List.cons_append, List.cons_append, List.append_assoc]
    rfl
  rw [List.append_assoc, hbrackets]
  cases form with
  | joined operator =>
    have hread : Grammar.operands join (.opening :: (inner ++ .closing :: us)) =
        ((Grammar.close 0 (inner ++ .closing :: us)).map
          fun p => Grammar.inside join .bars p.1).getD [] := rfl
    rw [headTokens, List.nil_append, hread, hclose]
    rfl
  -- any other head is a word before the bracket
  | _ =>
    have hread (w : String) : Grammar.operands join
        (.word w :: .opening :: (inner ++ .closing :: us)) =
        ((Grammar.close 0 (inner ++ .closing :: us)).map
          fun p => Grammar.inside join .comma (Grammar.undistinct p.1)).getD [] := rfl
    rw [headTokens, List.cons_append, List.nil_append, hread, hclose]
    · rfl
    · nofun

/-- A word without brackets has no operands. -/
theorem operands_word {w : String} {us : List Token} (h : ∀ vs, us ≠ .opening :: vs) :
    Grammar.operands join (.word w :: us) = [] := by
  cases us with
  | nil => rfl
  | cons t us =>
    cases t with
    | opening => exact absurd rfl (h us)
    | _ => rfl

/-- A call and what follows it, written as tokens that are read as its operands. -/
theorem operands_layout_iff (h : List.Forall₂ (fun e f => Reads d (e.operators d) f) arguments fs)
    (hs : ∀ f ∈ fs, Steady d fun n => f.chars d n) {form : FunctionForm} (hform : IsForm d form)
    (distinct : Bool) (join : Nat) :
    ∃ ts, Written d (Fragment.ofLayout (form.layout fs.length distinct) fs) ts ∧
      ∀ us, (∀ vs, us ≠ .opening :: vs) →
        (Grammar.operands join (ts ++ us) = (form.places fs.length).map (placeTokens d fs) ↔
          (form.joins = true → Expr.JoinsUnder d join arguments)) := by
  have hbracketed (hb : form.isBracketed = true) :
      ∃ ts, Written d (Fragment.ofLayout (form.layout fs.length distinct) fs) ts ∧
      ∀ us, (∀ vs, us ≠ .opening :: vs) →
        (Grammar.operands join (ts ++ us) = (form.places fs.length).map (placeTokens d fs) ↔
          (form.joins = true → Expr.JoinsUnder d join arguments)) := by
    obtain ⟨vs, -, hwritten, hpaired⟩ := written_layout hform hb distinct hs
    refine ⟨_, hwritten, fun us _ => ?_⟩
    rw [List.append_assoc, operands_brackets form hpaired, tokens_inner hform distinct hs]
    cases hjoins : form.joins with
    | false =>
      rw [if_neg Bool.false_ne_true, joint_comma hjoins, undistinct_row h hjoins,
        inside_commas h hjoins]
      exact iff_of_true rfl nofun
    | true =>
      cases form with
      | joined operator =>
        have hrow := inside_bars_iff h join
        rw [← places_range] at hrow
        rw [if_pos rfl]
        exact hrow.trans ⟨fun h _ => h, fun h => h rfl⟩
      | _ => cases hjoins
  cases form with
  | constant text =>
    obtain ⟨w, ts, hwritten, -, hopening⟩ := written_constant hform
    refine ⟨.word w :: ts, ?_, fun us hus => iff_of_true ?_ nofun⟩
    · simpa only [Written, chars_ofLayout, FunctionForm.layout, List.flatMap_cons, List.flatMap_nil,
        partChars_text, List.append_nil, Fragment.chars_text] using hwritten
    -- a constant has no operands, even where it ends with brackets
    · cases ts with
      | nil => exact operands_word hus
      | cons t ts =>
        by_cases ht : t = .opening
        · subst ht
          obtain rfl := hopening ts rfl
          rfl
        · exact operands_word fun vs hvs => ht (List.cons.inj hvs).1
  | _ => exact hbracketed rfl

end Scan

/-- What is read between the brackets of a compiled call are its arguments, each of them whole,
unless the call is written with `||` between them. Then they are read exactly if every one of them
binds as strongly as `||`, and all but the first more strongly: outside of brackets there must be no
weaker operator in it. That holds however strongly `||` binds, wherever the call stands (`n` values
before it), and as long as no minus before another one opens a comment. -/
theorem call_operands_iff {d : Dialect} {name : String} {arguments : List Expr} {distinct : Bool}
    {windowed : Option Window} {f : Fragment}
    (hp : (Rules.paired d).expr (.call name arguments distinct windowed))
    (hname : (Expr.call name arguments distinct windowed).Fits d)
    (harguments : ∀ e ∈ arguments, e.Fits d)
    (h : Sql.expr d (.call name arguments distinct windowed) = .ok f) (join n : Nat) :
    ∃ fs, Sql.exprs d arguments = .ok fs ∧
      (Grammar.operands? join (Scan.tokens d (f.chars d n)) =
          some (((d.formOf name).places arguments.length).map (Scan.placeTokens d fs)) ↔
        .mark "--" ∉ Scan.tokens d (f.chars d n) ∧
          ((d.formOf name).joins = true → Expr.JoinsUnder d join arguments)) := by
  obtain ⟨fs, framed, -, hfs, hover, rfl⟩ := Sql.call_ok h
  obtain ⟨-, hargs, hwindow⟩ := hp
  have hsteady := (Scan.closed_paired d).of_exprs arguments hargs hfs
  have hreads := Scan.reads_exprs hargs harguments hfs
  obtain ⟨ts, hwritten, hiff⟩ := Scan.operands_layout_iff hreads hsteady
    (Scan.isForm_of_name hname) distinct join
  have hlength := Sql.length_exprs hfs
  -- a window follows behind a word, so that the brackets of the call stay the first ones
  have hall : ∃ us, Scan.tokens d ((Sql.windowedCall (Fragment.ofLayout
      (d.functionLayout name arguments.length distinct) fs) framed).chars d n) = ts ++ us ∧
      ∀ vs, us ≠ .opening :: vs := by
    rw [← hlength]
    cases framed with
    | none => exact ⟨[], by rw [List.append_nil]; exact Scan.Spells.tokens hwritten n, nofun⟩
    | some g =>
      obtain ⟨us, hbehind, -⟩ := Scan.readsBehind_over
        ((Scan.closed_paired d).of_optionalWindow windowed hwindow hover g rfl)
      have hwhole := hwritten.append hbehind
      rw [← Fragment.append_assoc] at hwhole
      exact ⟨.word "OVER" :: us, Scan.Spells.tokens hwhole n, nofun⟩
  obtain ⟨us, htokens, hus⟩ := hall
  refine ⟨fs, hfs, ?_⟩
  have hread := hiff us hus
  rw [htokens, Grammar.operands?, ← hlength]
  by_cases hcomment : .mark "--" ∈ ts ++ us
  · rw [if_pos hcomment]
    exact iff_of_false nofun fun hright => hright.1 hcomment
  · rw [if_neg hcomment, Option.some.injEq]
    exact hread.trans ⟨fun h => ⟨hcomment, h⟩, And.right⟩

/-- An expression joined with a column. -/
def concatenated (e : Expr) : Expr := .call "CONCAT" [e, .plainColumn "c"] false none

/-- The names that such a call writes close what they open, and its arguments fit. -/
theorem fits_concatenated (d : Dialect) (op : BinaryOp) :
    (Rules.paired d).expr (concatenated (.binary op (.plainColumn "a") (.plainColumn "b"))) ∧
      (∀ e ∈ [Expr.binary op (.plainColumn "a") (.plainColumn "b"), .plainColumn "c"], e.Fits d) ∧
      d.IsWord "CONCAT" := by
  have hname : Scan.Steady d fun _ => "CONCAT".toList := .calmText (calmText_ofList rfl)
  have hword : Scan.IsBare "CONCAT" := by decide +kernel
  refine ⟨⟨hname, ⟨⟨trivial, trivial⟩, trivial, trivial⟩, trivial⟩, ?_, hword.isWord⟩
  refine List.forall_mem_cons.2 ⟨⟨fun _ => trivial, fun _ => trivial⟩, ?_⟩
  exact List.forall_mem_singleton.2 trivial

/-- A product binds strongly enough. -/
theorem concatenatedProduct_operands :
    ∃ f fs, (Rules.paired (.make .sqlite none)).expr
        (concatenated (.binary .mul (.plainColumn "a") (.plainColumn "b"))) ∧
      Sql.expr (.make .sqlite none)
        (concatenated (.binary .mul (.plainColumn "a") (.plainColumn "b"))) = .ok f ∧
      f.sql (.make .sqlite none) = "(a * b || c)" ∧
      Sql.exprs (.make .sqlite none)
        [.binary .mul (.plainColumn "a") (.plainColumn "b"), .plainColumn "c"] = .ok fs ∧
      Grammar.operands? 5 (Scan.tokens (.make .sqlite none) (f.chars (.make .sqlite none) 0)) =
        some ((((Dialect.make .sqlite none).formOf "CONCAT").places 2).map
          (Scan.placeTokens (.make .sqlite none) fs)) := by
  obtain ⟨hp, harguments, hword⟩ := fits_concatenated (.make .sqlite none) .mul
  obtain ⟨fs, hfs, hiff⟩ := call_operands_iff (f := _) hp (fun _ => hword) harguments rfl 5 0
  refine ⟨_, fs, hp, rfl, by decide +kernel, hfs, hiff.2 ⟨by decide +kernel, fun _ => ?_⟩⟩
  exact .inr ⟨by decide +kernel, by decide +kernel⟩

/-- A disjunction is torn apart: `a OR b` joined with `c` is `(a OR b || c)`. -/
theorem concatenatedChoice_torn :
    ¬ ∀ (d : Dialect) (name : String) (arguments : List Expr) (distinct : Bool)
      (windowed : Option Window) (f : Fragment) (fs : List Fragment) (join : Nat),
      d.mapsFunction name = true →
      (Rules.paired d).expr (.call name arguments distinct windowed) →
      (∀ e ∈ arguments, e.Fits d) → 5 ≤ join →
      Sql.expr d (.call name arguments distinct windowed) = .ok f →
      Sql.exprs d arguments = .ok fs →
      Grammar.operands? join (Scan.tokens d (f.chars d 0)) =
        some (((d.formOf name).places arguments.length).map (Scan.placeTokens d fs)) := by
  intro hall
  obtain ⟨hp, harguments, -⟩ := fits_concatenated (.make .sqlite none) .or
  have hread := hall (.make .sqlite none) "CONCAT" _ false none _ _ 5 (by decide +kernel) hp
    harguments (Nat.le_refl 5) rfl rfl
  exact absurd hread (by decide +kernel)

end PolyQuery
