import Mathlib.Data.List.Forall2
import PolyQuery.Proofs.Comments
import PolyQuery.Proofs.Unbracketed

/-! Signs side by side. A minus in front of a text that begins with a minus makes a comment of the
rest of the statement, and nothing else that the compiler writes does. Main statement:
`compile_opensComment_iff`. -/
namespace PolyQuery

namespace Expr

/-- The text of an expression begins with a minus. -/
def beginsWithSign (d : Dialect) : Expr → Bool
  | .unary .neg _ => true
  | .unary .isNull e => !Standing.subject.wraps e && e.beginsWithSign d
  | .unary .isNotNull e => !Standing.subject.wraps e && e.beginsWithSign d
  | .binary op left _ => !(Standing.operand op .left).wraps left && left.beginsWithSign d
  | .inList e values _ =>
    Sql.listCount d values == 1 && !Standing.subject.wraps e && e.beginsWithSign d
  | .inQuery e _ _ => !Standing.subject.wraps e && e.beginsWithSign d
  | .named e _ => e.beginsWithSign d
  | _ => false

/-- A minus right in front of a text that begins with one. -/
def doublesSign (d : Dialect) : Expr → Bool
  | .unary .neg e => !Standing.subject.wraps e && e.beginsWithSign d
  | _ => false

end Expr

/-- The arguments that a call writes. -/
def Dialect.shownArguments (d : Dialect) (name : String) (arguments : List Expr) (distinct : Bool) :
    List Expr :=
  (d.functionLayout name arguments.length distinct).filterMap fun
    | .text _ => none
    | .argument place => arguments[place]?

namespace Phrase

/-- The phrases that a dialect writes. Neither the operand of a membership test in no values is, nor an
argument that the form of its call has no place for. -/
def shown (d : Dialect) : Phrase → List Phrase
  | expr (.inList _ [] _) => []
  | expr (.call name arguments distinct windowed) =>
    (d.shownArguments name arguments distinct ++ windowed.toList.flatMap Window.expressions).map expr
  | p => p.inner

def doublesSign (d : Dialect) : Phrase → Bool
  | expr e => e.doublesSign d
  | query _ => false

/-- Somewhere in a phrase a minus stands in front of a minus. -/
def Doubles (d : Dialect) (p : Phrase) : Prop := ∃ m, Within (shown d) p m ∧ m.doublesSign d = true

def AnyDoubles (d : Dialect) (ps : List Phrase) : Prop := ∃ p ∈ ps, p.Doubles d

variable {d : Dialect} {p : Phrase} {ps qs : List Phrase}

@[simp] theorem anyDoubles_nil : AnyDoubles d [] ↔ False := by simp [AnyDoubles]

@[simp] theorem anyDoubles_cons : AnyDoubles d (p :: ps) ↔ p.Doubles d ∨ AnyDoubles d ps := by
  simp [AnyDoubles]

@[simp] theorem anyDoubles_append : AnyDoubles d (ps ++ qs) ↔ AnyDoubles d ps ∨ AnyDoubles d qs := by
  simp [AnyDoubles, or_and_right, exists_or]

theorem doubles_iff : p.Doubles d ↔ p.doublesSign d = true ∨ AnyDoubles d (p.shown d) := by
  constructor
  · rintro ⟨m, hm, hsign⟩
    obtain rfl | ⟨c, hc, hm⟩ := within_iff.1 hm
    · exact .inl hsign
    · exact .inr ⟨c, hc, m, hm, hsign⟩
  · rintro (hsign | ⟨c, hc, m, hm, hsign⟩)
    · exact ⟨p, .refl, hsign⟩
    · exact ⟨m, within_iff.2 (.inr ⟨c, hc, hm⟩), hsign⟩

/-- Where a phrase is no minus before a minus itself, one of the phrases in it is. -/
theorem doubles_inner (h : p.doublesSign d = false) : p.Doubles d ↔ AnyDoubles d (p.shown d) := by
  rw [doubles_iff, h]
  simp

end Phrase

namespace Fragment
open Watch
variable {d : Dialect} {b b' c : Prop} {f : Fragment} {fs : List Fragment}

/-- Fragments of which some open a comment exactly when `b`. -/
def Listed (d : Dialect) (b : Prop) (fs : List Fragment) : Prop :=
  (∀ f ∈ fs, f.Watched d (Settled d) (f.Opens d)) ∧ ((∃ f ∈ fs, f.Opens d) ↔ b)

namespace Listed

theorem nil : Listed d False [] := ⟨nofun, by simp⟩

theorem cons (h : f.Watched d (Settled d) b) (hfs : Listed d b' fs) : Listed d (b ∨ b') (f :: fs) := by
  refine ⟨List.forall_mem_cons.2 ⟨h.iff h.opens_iff.symm, hfs.1⟩, ?_⟩
  simp only [List.mem_cons, exists_eq_or_imp, h.opens_iff, hfs.2]

theorem iff (h : Listed d b fs) (hb : b ↔ b') : Listed d b' fs := ⟨h.1, h.2.trans hb⟩

theorem join {s : String} (hs : SetsOff d s) (h : Listed d b fs) :
    (Fragment.join s fs).Watched d (Settled d) b := (Watched.joined hs h.1).iff h.2

end Listed

/-- Brackets hide the sign that a text begins with. -/
theorem Noted.dress (h : f.Noted d b c) (s : Standing) (e : Expr) :
    (s.dress e f).Noted d b (s.wraps e = false ∧ c) := by
  rw [Standing.dress]
  cases s.wraps e with
  | true => exact h.enclosed.iff Iff.rfl (by simp)
  | false => exact h.iff Iff.rfl (by simp)

end Fragment

namespace Sql
open Fragment Watch
variable {d : Dialect} {b b' c : Prop} {f : Fragment} {fs : List Fragment}

theorem setsOff_spaced {s : String} (h : Quiet d s) : SetsOff d (" " ++ s ++ " ") :=
  (setsOff_space d).behind ((setsOff_space d).quiet.append h)

theorem setsOff_symbol (op : BinaryOp) : SetsOff d (" " ++ op.symbol ++ " ") := by
  cases op with
  | sub =>
    have hdash : Runs d (Settled d) False ['-'] (Ready d) := runs_dash.reach fun _ => signed_ready
    exact (setsOff_space d).behind ((setsOff_space d).before (t := "-") hdash)
  | div => exact runs_slash
  | _ => exact setsOff_spaced (quiet_ofList rfl)

theorem quiet_membershipKeyword (negated : Bool) : Quiet d (membershipKeyword negated) := by
  cases negated <;> exact quiet_ofList rfl

theorem setsOff_qualifiedName {table : Option String} {name : String} (h : SetsOff d name) :
    SetsOff d (Sql.qualified d table name) := by
  unfold Sql.qualified
  split
  · split
    · exact h
    · exact h.behind ((setsOff_qualified _).quiet.append (quiet_ofList rfl))
  · exact h

theorem noted_unary (op : UnaryOp) (e : Expr) (h : f.Noted d b c) :
    (unary op e f).Noted d (b ∨ (op = .neg ∧ Standing.subject.wraps e = false ∧ c))
      (op = .neg ∨ ((op = .isNull ∨ op = .isNotNull) ∧ Standing.subject.wraps e = false ∧ c)) := by
  have hsubject := h.dress .subject e
  rw [← predicateOperand_eq] at hsubject
  cases op with
  | neg => exact hsubject.behind_dash.iff (by simp) (by simp)
  | not => exact (Noted.of_ready (.behind (setsOff_ofList rfl) hsubject.settled)).iff (by simp) (by simp)
  | isNull => exact (hsubject.before (quiet_ofList rfl)).iff (by simp) (by simp)
  | isNotNull => exact (hsubject.before (quiet_ofList rfl)).iff (by simp) (by simp)
  | exists_ => exact (Noted.of_ready (.behind (setsOff_ofList rfl) h.settled)).iff (by simp) (by simp)
  | notExists => exact (Noted.of_ready (.behind (setsOff_ofList rfl) h.settled)).iff (by simp) (by simp)

theorem noted_binary (op : BinaryOp) (left right : Expr) {g : Fragment} {c' : Prop}
    (hleft : f.Noted d b c) (hright : g.Noted d b' c') :
    (operand op .left left f ++ Fragment.text (" " ++ op.symbol ++ " ") ++
      operand op .right right g).Noted d (b ∨ b')
      ((Standing.operand op .left).wraps left = false ∧ c) := by
  have hl := hleft.dress (.operand op .left) left
  have hr := hright.dress (.operand op .right) right
  rw [operand_eq, operand_eq, append_assoc]
  exact hl.append (.behind (setsOff_symbol op) hr.settled)

/-- Each value of a membership test stands in one of its lists, and nothing else does. -/
theorem mem_chunks_iff {α : Type} (d : Dialect) (values : List α) (x : α) :
    (∃ part ∈ chunks (d.maxInList.getD values.length) values.length values, x ∈ part) ↔
      x ∈ values := by
  have hsize : 0 < d.maxInList.getD values.length ∨ values = [] := by
    unfold Dialect.maxInList
    split
    · exact .inl (Nat.zero_lt_succ 999)
    · exact (List.eq_nil_or_concat values).symm.imp_left fun ⟨l, a, heq⟩ => by simp [heq]
  rcases hsize with hsize | rfl
  · rw [← List.mem_flatten, flatten_chunks hsize (Nat.le_refl _)]
  · simp [chunks]

/-- The lists of a membership test, with what opens a comment in one of them. -/
theorem memberLists_watched (negated : Bool) {values : List Fragment} (h : Listed d b values) :
    (∀ r ∈ memberLists d negated values, r.Watched d (Ready d) (r.Opens d)) ∧
      ((∃ r ∈ memberLists d negated values, r.Opens d) ↔ b) := by
  have hkeyword : SetsOff d (" " ++ membershipKeyword negated ++ " (") :=
    (setsOff_ofList rfl).behind ((setsOff_space d).quiet.append (quiet_membershipKeyword negated))
  have hlist (part : List Fragment) (hpart : ∀ f ∈ part, f ∈ values) :
      (Fragment.text (" " ++ membershipKeyword negated ++ " (") ++ Fragment.join ", " part ++
        Fragment.text ")").Watched d (Ready d) (∃ f ∈ part, f.Opens d) := by
    have hjoin := Watched.joined (d := d) (s := ", ") (setsOff_ofList rfl)
      fun f hf => h.1 f (hpart f hf)
    exact (Watched.behind hkeyword hjoin).before (quiet_ofList rfl)
  have hmem := mem_chunks_iff d values
  unfold memberLists
  generalize chunks (d.maxInList.getD values.length) values.length values = parts at hmem
  -- the parts have the values of the list, and no others
  have hsub (part : List Fragment) (hpart : part ∈ parts) : ∀ f ∈ part, f ∈ values :=
    fun f hf => (hmem f).1 ⟨part, hpart, hf⟩
  constructor
  · intro r hr
    obtain ⟨part, hpart, rfl⟩ := List.mem_map.1 hr
    exact (hlist part (hsub part hpart)).told
  · rw [← h.2]
    constructor
    · rintro ⟨r, hr, hopens⟩
      obtain ⟨part, hpart, rfl⟩ := List.mem_map.1 hr
      obtain ⟨f, hf, hfo⟩ := (hlist part (hsub part hpart)).settled.opens_iff.1 hopens
      exact ⟨f, hsub part hpart f hf, hfo⟩
    · rintro ⟨f, hf, hfo⟩
      obtain ⟨part, hpart, hfp⟩ := (hmem f).2 hf
      refine ⟨_, List.mem_map_of_mem hpart, ?_⟩
      exact (hlist part (hsub part hpart)).settled.opens_iff.2 ⟨f, hfp, hfo⟩

theorem memberLists_ne_nil (negated : Bool) {values : List Fragment} (h : values ≠ []) :
    memberLists d negated values ≠ [] := by
  cases values with
  | nil => exact absurd rfl h
  | cons v vs =>
    rw [memberLists, List.length_cons, chunks, if_neg (by simp)]
    exact List.cons_ne_nil _ _

/-- A membership test in one list begins as its operand does, and one in several lists with a bracket. -/
theorem noted_membership (negated : Bool) {values : List Fragment}
    (hne : memberLists d negated values ≠ []) (h : f.Noted d b c) (hvalues : Listed d b' values) :
    (membership d negated f values).Noted d (b ∨ b')
      ((memberLists d negated values).length = 1 ∧ c) := by
  obtain ⟨hwatched, hopens⟩ := memberLists_watched (d := d) negated hvalues
  rw [membership_eq]
  -- the operand is written once for each list, so what it opens is opened as long as there is one
  generalize memberLists d negated values = rests at hne hwatched hopens ⊢
  match rests with
  | [] => exact absurd rfl hne
  | [r] =>
    have hr : r.Opens d ↔ b' := by rw [← hopens]; simp
    exact (h.append ((hwatched r List.mem_cons_self).iff hr)).iff Iff.rfl (by simp)
  | r :: e :: es =>
    have htests : Listed d (b ∨ b') ((r :: e :: es).map (f ++ ·)) := by
      have htest {x : Fragment} (hx : x ∈ r :: e :: es) :=
        (h.settled.append (hwatched x hx)).opens_iff
      refine ⟨fun g hg => ?_, ?_⟩
      · obtain ⟨x, hx, rfl⟩ := List.mem_map.1 hg
        exact (h.settled.append (hwatched x hx)).iff (htest hx).symm
      · rw [← hopens]
        constructor
        · rintro ⟨g, hg, hgo⟩
          obtain ⟨x, hx, rfl⟩ := List.mem_map.1 hg
          exact ((htest hx).1 hgo).imp_right fun hxo => ⟨x, hx, hxo⟩
        · rintro (hb | ⟨x, hx, hxo⟩)
          · exact ⟨_, List.mem_map_of_mem List.mem_cons_self, (htest List.mem_cons_self).2 (.inl hb)⟩
          · exact ⟨_, List.mem_map_of_mem hx, (htest hx).2 (.inr hxo)⟩
    have hword : SetsOff d (if negated then " AND " else " OR ") := by
      cases negated <;> exact setsOff_ofList rfl
    exact (Noted.of_ready (htests.join hword).enclosed).iff Iff.rfl (by simp)

theorem watched_clause {keyword : String} (hk : Quiet d keyword) (h : f.Watched d (Settled d) b) :
    (clause keyword f).Watched d (Ready d) b :=
  .behind ((setsOff_space d).behind hk) h

theorem watched_optionalClause {keyword : String} (hk : Quiet d keyword) {x : Option Fragment}
    (h : Listed d b x.toList) : (optionalClause keyword x).Watched d (Ready d) b := by
  cases x with
  | none => exact Watched.of_empty.iff (by rw [← h.2]; simp)
  | some f => exact watched_clause hk ((h.1 f (by simp)).iff (by rw [← h.2]; simp))

theorem watched_listClause {keyword : String} (hk : Quiet d keyword) (h : Listed d b fs) :
    (listClause keyword fs).Watched d (Ready d) b := by
  cases fs with
  | nil => exact Watched.of_empty.iff (by rw [← h.2]; simp)
  | cons f fs => exact watched_clause hk (h.join (setsOff_ofList rfl))

theorem noted_selectItem (e : Expr) (h : f.Noted d b c) : (selectItem d e f).Noted d b c := by
  unfold selectItem
  split
  · exact h.before ((setsOff_identifier _).behind (quiet_ofList rfl)).quiet
  · exact h

theorem watched_aliased (h : f.Watched d (Ready d) b) (name : String) :
    (aliased d f name).Watched d (Ready d) b := by
  have hkeyword : Quiet d d.tableAliasKeyword := by
    unfold Dialect.tableAliasKeyword
    split <;> exact quiet_ofList rfl
  exact h.before ((setsOff_identifier _).behind hkeyword).quiet

theorem watched_table (name : String) (shown : Option String) :
    (table d name shown).Watched d (Ready d) False := by
  have hname : (Fragment.text (d.quoteQualified name)).Watched d (Ready d) False :=
    .of_quiet (setsOff_qualified name).quiet
  unfold table
  dsimp only
  split
  · split
    · exact hname
    · exact watched_aliased hname _
  · exact hname

theorem watched_setOperand (side : Side) (q : Query) (h : f.Watched d (Ready d) b) :
    (setOperand d side q f).Watched d (Ready d) b := by
  have henclosed := h.settled.enclosed
  have hselected : (Fragment.text "SELECT * FROM " ++ f.enclosed).Watched d (Ready d) b :=
    .behind (setsOff_ofList rfl) henclosed.settled
  unfold setOperand
  dsimp only
  split
  · exact henclosed
  · split
    · split
      · exact hselected
      · exact h
    · split
      · exact hselected
      · exact h

theorem watched_withClause (recursive : Bool) (hfs : Listed d b fs)
    (h : f.Watched d (Ready d) b') : (withClause d recursive fs f).Watched d (Ready d) (b ∨ b') := by
  unfold withClause
  cases fs with
  | nil => exact h.iff (by rw [← hfs.2]; simp)
  | cons g gs =>
    dsimp only
    have hkeyword : Quiet d (if recursive && d.hasRecursiveKeyword then "WITH RECURSIVE"
        else "WITH") := by
      split <;> exact quiet_ofList rfl
    have hctes := watched_clause hkeyword (hfs.join (s := ", ") (setsOff_ofList rfl))
    rw [if_neg (by simp)]
    exact (hctes.before (quiet_ofList rfl)).append h

/-- The words before the body of a common table expression. -/
theorem setsOff_cteHead (name : String) (columns : Option (List String)) (materialized : Option Bool) :
    SetsOff d (d.quoteIdentifier name ++ columnList d columns ++ " AS" ++
      materialization materialized ++ " ") := by
  have hcolumns : Quiet d (columnList d columns) := by
    unfold columnList
    split
    · exact ((quiet_ofList rfl).append (quiet_names _)).append (quiet_ofList rfl)
    · exact quiet_ofList rfl
  have hwords : Quiet d (materialization materialized) := by
    unfold materialization
    split <;> exact quiet_ofList rfl
  refine (setsOff_space d).behind (Quiet.append (Quiet.append ?_ (quiet_ofList rfl)) hwords)
  exact (setsOff_identifier name).quiet.append hcolumns

theorem watched_windowParts {partitions orders : List Fragment} (hp : Listed d b partitions)
    (ho : Listed d b' orders) (frame : Option Frame) :
    (Fragment.join " " (windowParts partitions orders frame)).Watched d (Ready d) (b ∨ b') := by
  have hpartition : (clause "PARTITION BY" (Fragment.join ", " partitions)).Watched d (Ready d) b :=
    watched_clause (quiet_ofList rfl) (hp.join (setsOff_ofList rfl))
  have horder : (clause "ORDER BY" (Fragment.join ", " orders)).Watched d (Ready d) b' :=
    watched_clause (quiet_ofList rfl) (ho.join (setsOff_ofList rfl))
  have hframe (f : Frame) : (Fragment.text (frameText f)).Watched d (Ready d) False :=
    .of_quiet (quiet_frame f)
  have hparts : ∀ f ∈ windowParts partitions orders frame, f.Watched d (Ready d) (f.Opens d) := by
    intro f hf
    simp only [windowParts, List.mem_append] at hf
    rcases hf with (hf | hf) | hf
    · split at hf
      · cases hf
      · rw [List.mem_singleton.1 hf]
        exact hpartition.told
    · split at hf
      · cases hf
      · rw [List.mem_singleton.1 hf]
        exact horder.told
    · cases frame with
      | none => cases hf
      | some frame =>
        rw [List.mem_singleton.1 hf]
        exact (hframe frame).told
  -- a part that is not written opens nothing, and it is left out only where it would be empty
  refine (Watched.join (setsOff_space d) (fun _ h => h.1) (fun _ h => h) hparts).iff ?_
  have hframe' (f : Frame) := (hframe f).settled.opens_iff
  cases partitions with
  | nil =>
    have hb : ¬ b := by simp [← hp.2]
    cases orders with
    | nil =>
      have hb' : ¬ b' := by simp [← ho.2]
      cases frame <;> simp [windowParts, hframe', hb, hb']
    | cons o os => cases frame <;> simp [windowParts, hframe', hb, horder.settled.opens_iff]
  | cons p ps =>
    cases orders with
    | nil =>
      have hb' : ¬ b' := by simp [← ho.2]
      cases frame <;> simp [windowParts, hframe', hb', hpartition.settled.opens_iff]
    | cons o os =>
      cases frame <;> simp [windowParts, hframe', hpartition.settled.opens_iff,
        horder.settled.opens_iff]

end Sql

/-! ### Pages -/

/-- The bounds of a page are numbers. -/
def Pagination.IsNumeric (p : Pagination) : Prop :=
  ∀ v, p.limit = some v ∨ p.offset = some v → ∃ n, v = .number n

namespace Paging
open Fragment Watch
variable {d : Dialect} {b b' : Prop} {core order body : Fragment}

theorem still_value {v : Value} (h : ∃ n, v = .number n) : Still d v.text := by
  obtain ⟨n, rfl⟩ := h
  exact still_number n

theorem watched_limitOffset {limit offset : Option Value}
    (hl : ∀ v, limit = some v → ∃ n, v = .number n) (ho : ∀ v, offset = some v → ∃ n, v = .number n)
    (h : (core ++ order).Watched d (Ready d) b) :
    (limitOffset d core order limit offset).Watched d (Ready d) b := by
  have hlimit {s : String} (hs : Still d s) : Quiet d (" LIMIT " ++ s) :=
    (setsOff_ofList rfl).before hs
  have hoffset {s : String} (hs : Still d s) : Quiet d (" OFFSET " ++ s) :=
    (setsOff_ofList rfl).before hs
  -- the word for no limit may be a number with a sign, which opens no remark
  have hnone {words : String} (hw : d.noLimit = some words) : Still d words := by
    unfold Dialect.noLimit at hw
    split at hw
    · cases hw
      exact still_dash (s := "1") (quiet_ofList rfl)
    · cases hw
      exact (quiet_ofList rfl).still
    · cases hw
      exact (quiet_ofList rfl).still
    · cases hw
  unfold limitOffset
  dsimp only
  refine ((h.append (?_ : Watched d _ False _)).append (?_ : Watched d _ False _)).iff (by simp)
  · split
    · next v => exact .of_quiet (hlimit (still_value (hl v rfl)))
    · split
      · next words hw => exact .of_quiet (hlimit (hnone hw))
      · exact .of_empty
  · split
    · next v => exact .of_quiet (hoffset (still_value (ho v rfl)))
    · exact .of_empty

theorem watched_offsetFetch {ordered : Bool} {limit offset : Option Value}
    (hl : ∀ v, limit = some v → ∃ n, v = .number n) (ho : ∀ v, offset = some v → ∃ n, v = .number n)
    (hcore : core.Watched d (Ready d) b) (horder : order.Watched d (Ready d) b')
    (hordered : ordered = false → ¬ b') :
    (offsetFetch d core order ordered limit offset).Watched d (Ready d) (b ∨ b') := by
  have hskip : Quiet d (" OFFSET " ++ (skipped offset).text ++ " ROWS") :=
    ((setsOff_ofList rfl).before (still_value (skipped_number ho))).append (quiet_ofList rfl)
  have hordering : (if !ordered && d.offsetNeedsOrder then
      Fragment.text " ORDER BY (SELECT NULL)" else order).Watched d (Ready d) b' := by
    split
    · next h =>
      rw [Bool.and_eq_true, Bool.not_eq_true'] at h
      exact (Watched.of_quiet (quiet_ofList rfl)).iff (iff_of_false id (hordered h.1))
    · exact horder
  unfold offsetFetch
  dsimp only
  refine (((hcore.append hordering).before hskip).append (?_ : Watched d _ False _)).iff (by simp)
  split
  · next v =>
    exact .of_quiet (((setsOff_ofList rfl).before (still_value (hl v rfl))).append (quiet_ofList rfl))
  · exact .of_empty

theorem watched_rownum {limit offset : Option Value}
    (hl : ∀ v, limit = some v → ∃ n, v = .number n) (ho : ∀ v, offset = some v → ∃ n, v = .number n)
    (h : (core ++ order).Watched d (Ready d) b) :
    (rownum core order limit offset).Watched d (Ready d) b := by
  have hfrom : SetsOff d "SELECT * FROM (" := setsOff_ofList rfl
  have hnumbered : SetsOff d "SELECT * FROM (SELECT q_.*, ROWNUM rn_ FROM (" :=
    setsOff_ofList rfl
  have hskip := still_value (d := d) (skipped_number ho)
  unfold rownum
  dsimp only
  split
  · next v =>
    obtain ⟨n, rfl⟩ := hl v rfl
    split
    · exact (Watched.behind hfrom h.settled).before ((setsOff_ofList rfl).before (still_number n))
    -- with an offset the last row is a sum of two numbers
    · obtain ⟨m, hm⟩ := skipped_number ho
      have hlast : SetsOff d (") q_ WHERE ROWNUM <= " ++ (plus (skipped offset) (.number n)).text ++
          ") WHERE rn_ > ") := by
        rw [hm]
        exact (setsOff_ofList rfl).behind ((setsOff_ofList rfl).before (still_number _))
      exact (Watched.behind hnumbered h.settled).before (hlast.before hskip)
  · exact (Watched.behind hnumbered h.settled).before ((setsOff_ofList rfl).before hskip)

/-- A query with its page, in each of the five ways in which it can end. -/
theorem watched_finish {ordered applied : Bool} {pagination : Option Pagination}
    (hpage : ∀ p, pagination = some p → p.IsNumeric) (hcore : core.Watched d (Ready d) b)
    (horder : order.Watched d (Ready d) b') (hordered : ordered = false → ¬ b')
    (h : finish d core order ordered pagination applied = .ok body) :
    body.Watched d (Ready d) (b ∨ b') := by
  have hl (v : Value) (hv : pagination.bind Pagination.limit = some v) : ∃ n, v = .number n := by
    obtain ⟨p, rfl, hp⟩ := Option.bind_eq_some_iff.1 hv
    exact hpage p rfl v (.inl hp)
  have ho (v : Value) (hv : pagination.bind Pagination.offset = some v) : ∃ n, v = .number n := by
    obtain ⟨p, rfl, hp⟩ := Option.bind_eq_some_iff.1 hv
    exact hpage p rfl v (.inr hp)
  have hinner := hcore.append horder
  obtain ⟨rfl, _⟩ | ⟨rfl, _⟩ | ⟨rfl, _⟩ | ⟨rfl, _⟩ | ⟨v, hv, rfl, _⟩ := finish_ok h
  · exact hinner
  · exact watched_limitOffset hl ho hinner
  · exact watched_offsetFetch hl ho hcore horder hordered
  · exact watched_rownum hl ho hinner
  · have hhead : SetsOff d ("SELECT TOP " ++ v.text ++ " * FROM (") :=
      (setsOff_ofList rfl).behind ((setsOff_ofList rfl).before (still_value (hl v hv)))
    exact ((Watched.behind hhead hcore.settled).before (quiet_ofList rfl)).append horder

end Paging

namespace FunctionForm
open Fragment Watch Scan
variable {d : Dialect} {fs : List Fragment}

/-- A layout whose arguments stand behind texts that set them off. -/
inductive Laid (d : Dialect) : List LayoutPart → Prop
  | nil : Laid d []
  | text {s : String} {parts : List LayoutPart} (hs : SetsOff d s) (h : Laid d parts) :
      Laid d (.text s :: parts)
  | argument {s : String} {parts : List LayoutPart} (place : Nat) (hs : SetsOff d s)
      (h : Laid d parts) : Laid d (.text s :: .argument place :: parts)

theorem Laid.argumentOr {s m : String} {parts : List LayoutPart} (hs : SetsOff d s)
    (hm : SetsOff d m) (count place : Nat) (h : Laid d parts) :
    Laid d (.text s :: argumentOr count place m :: parts) := by
  unfold FunctionForm.argumentOr
  split
  · exact .argument place hs h
  · exact .text hs (.text hm h)

theorem Laid.intersperse {s t u : String} (hs : SetsOff d s) (ht : SetsOff d t) (hu : SetsOff d u)
    (places : List Nat) :
    Laid d ([.text s] ++ (places.map LayoutPart.argument).intersperse (.text t) ++ [.text u]) := by
  induction places generalizing s with
  | nil => exact .text hs (.text hu .nil)
  | cons p ps ih =>
    cases ps with
    | nil => exact .argument p hs (.text hu .nil)
    | cons q qs => exact .argument p hs (ih ht)

/-- Some argument that a layout has a place for opens a comment. -/
def ShowsOpening (d : Dialect) (fs : List Fragment) (parts : List LayoutPart) : Prop :=
  ∃ place, .argument place ∈ parts ∧ ∃ f, fs[place]? = some f ∧ f.Opens d

theorem Laid.watched (hfs : ∀ f ∈ fs, f.Watched d (Settled d) (f.Opens d))
    {parts : List LayoutPart} (h : Laid d parts) :
    (Fragment.ofLayout parts fs).Watched d (Ready d) (ShowsOpening d fs parts) := by
  intro n
  rw [chars_ofLayout]
  induction h with
  | nil => exact Runs.nil.iff (by simp [ShowsOpening])
  | text hs h ih =>
    rw [List.flatMap_cons]
    exact (Runs.before (hs.quiet) ih).iff (by simp [ShowsOpening])
  | @argument s parts place hs h ih =>
    -- a place without an argument writes nothing
    have hplace : Runs d (Settled d) (∃ f, fs[place]? = some f ∧ f.Opens d)
        (partChars d fs n (.argument place)) (Ready d) := by
      cases hf : fs[place]? with
      | none =>
        simp only [partChars, hf, Option.map_none, Option.getD_none]
        exact (Runs.nil.reach fun _ hw => hw.1).iff (by simp)
      | some f =>
        simp only [partChars, hf, Option.map_some, Option.getD_some]
        exact (hfs f (List.mem_of_getElem? hf) _).iff (by simp)
    rw [List.flatMap_cons, List.flatMap_cons]
    refine (Runs.before hs (hplace.append ih)).iff ?_
    simp [ShowsOpening, or_and_right, exists_or]

/-- The names and words that a form is made of. -/
def words : FunctionForm → List String
  | .call name => [name]
  | .joined operator => [operator]
  | .constant text => [text]
  | .stringAggregate _ => []
  | .listAggregate => []

theorem bland_words (b : Backend) : ∀ entry ∈ b.functionForms, ∀ s ∈ entry.2.words,
    s.toList.all isBland = true ∧ s.toList ≠ [] := by
  cases b <;> decide +kernel

theorem setsOff_distinct {s : String} (h : SetsOff d s) (distinct : Bool) :
    SetsOff d (s ++ distinctWord distinct) := by
  cases distinct with
  | true => exact (setsOff_ofList rfl).behind h.quiet
  | false => simpa [distinctWord] using h

theorem laid_call {name : String} (h : Quiet d name) (count : Nat) (distinct : Bool) :
    Laid d ((FunctionForm.call name).layout count distinct) := by
  have hopen : SetsOff d (name ++ "(") := (setsOff_ofList rfl).behind h
  exact .intersperse (setsOff_distinct hopen distinct) (setsOff_ofList rfl) (setsOff_ofList rfl) _

theorem laid_layout {form : FunctionForm} (h : ∀ s ∈ form.words, SetsOff d s) (count : Nat)
    (distinct : Bool) : Laid d (form.layout count distinct) := by
  have hfirst : SetsOff d "undefined" := setsOff_ofList rfl
  have hcomma : SetsOff d ", " := setsOff_ofList rfl
  have hclose : SetsOff d ")" := setsOff_ofList rfl
  have hsecond : SetsOff d "','" := setsOff_quotedComma
  have hname : SetsOff d "STRING_AGG(" := setsOff_ofList rfl
  cases form with
  | call name => exact laid_call (h name (by simp [words])).quiet count distinct
  | joined operator =>
    have hbetween : SetsOff d (" " ++ operator ++ " ") :=
      Sql.setsOff_spaced (h operator (by simp [words])).quiet
    exact .intersperse (setsOff_ofList rfl) hbetween hclose _
  | constant text => exact .text (h text (by simp [words])) .nil
  | stringAggregate keepsDistinct =>
    exact .argumentOr (setsOff_distinct hname _) hfirst count 0
      (.argumentOr hcomma hsecond count 1 (.text hclose .nil))
  -- its first argument is written once more, as what the list is ordered by
  | listAggregate =>
    have hwithin : SetsOff d ") WITHIN GROUP (ORDER BY " := setsOff_ofList rfl
    have hname : SetsOff d "LISTAGG(" := setsOff_ofList rfl
    exact .argumentOr hname hfirst count 0
      (.argumentOr hcomma hsecond count 1 (.argumentOr hwithin hfirst count 0 (.text hclose .nil)))

theorem laid_function {name : String} (h : Quiet d name) (count : Nat) (distinct : Bool) :
    Laid d (d.functionLayout name count distinct) := by
  unfold Dialect.functionLayout
  cases hform : d.functionForm? name with
  | none => exact laid_call h count distinct
  | some form =>
    refine laid_layout (fun s hs => ?_) count distinct
    -- the words of a form are those of the table of the backend
    obtain ⟨hbland, hne⟩ := bland_words d.backend _ (Dialect.functionForm?_mem hform) s hs
    exact setsOff_of_bland hbland hne

end FunctionForm

/-! ### Statements -/

/-- A text with neither dashes nor slashes that closes the quotes that it opens. -/
structure Dialect.Signless (d : Dialect) (s : String) : Prop where
  closes : d.Closes s
  dash : '-' ∉ s.toList
  slash : '/' ∉ s.toList

/-- Raw texts and the names of calls are signless, and the bounds of pages are numbers. -/
def Rules.signless (d : Dialect) : Rules where
  call := d.Signless
  raw := d.Signless
  page := Pagination.IsNumeric

namespace Sql
open Fragment Watch Phrase
variable {d : Dialect}

/-- What is known of the text of an expression. -/
def Told (d : Dialect) (e : Expr) (f : Fragment) : Prop :=
  f.Watched d (Settled d) ((Phrase.expr e).Doubles d)

theorem listed_of_told {es : List Expr} {fs : List Fragment} (h : List.Forall₂ (Told d) es fs) :
    Listed d (AnyDoubles d (es.map .expr)) fs := by
  induction h with
  | nil => exact Listed.nil.iff (by simp)
  | cons he _ ih => exact (ih.cons he).iff (by simp)

theorem told_getElem? {es : List Expr} {fs : List Fragment} (h : List.Forall₂ (Told d) es fs)
    (place : Nat) : (∃ f, fs[place]? = some f ∧ f.Opens d) ↔
      ∃ e, es[place]? = some e ∧ (Phrase.expr e).Doubles d := by
  induction h generalizing place with
  | nil => simp
  | cons he _ ih =>
    cases place with
    | zero => simpa using he.opens_iff
    | succ place => simpa using ih place

/-- The arguments that a call shows are those that its layout has a place for. -/
theorem showsOpening_iff {es : List Expr} {fs : List Fragment} (h : List.Forall₂ (Told d) es fs)
    (name : String) (distinct : Bool) :
    FunctionForm.ShowsOpening d fs (d.functionLayout name es.length distinct) ↔
      AnyDoubles d ((d.shownArguments name es distinct).map .expr) := by
  simp only [FunctionForm.ShowsOpening, told_getElem? h, AnyDoubles, Dialect.shownArguments,
    List.mem_map, List.mem_filterMap]
  constructor
  · rintro ⟨place, hmem, e, he, hdoubles⟩
    exact ⟨_, ⟨e, ⟨_, hmem, he⟩, rfl⟩, hdoubles⟩
  · rintro ⟨_, ⟨e, ⟨part, hmem, he⟩, rfl⟩, hdoubles⟩
    cases part with
    | text s => cases he
    | argument place => exact ⟨place, hmem, e, he, hdoubles⟩

/-- An expression that begins with no minus and is none itself. -/
theorem noted_closed {e : Expr} {f : Fragment} (hdouble : e.doublesSign d = false)
    (hbegin : e.beginsWithSign d = false)
    (h : f.Watched d (Ready d) (AnyDoubles d ((Phrase.expr e).shown d))) :
    f.Noted d ((Phrase.expr e).Doubles d) (e.beginsWithSign d = true) :=
  (Noted.of_ready h).iff (doubles_inner (p := .expr e) hdouble).symm (by simp [hbegin])

theorem noted_leaf {e : Expr} {f : Fragment} (hshown : (Phrase.expr e).shown d = [])
    (hdouble : e.doublesSign d = false) (hbegin : e.beginsWithSign d = false)
    (h : f.Watched d (Ready d) False) :
    f.Noted d ((Phrase.expr e).Doubles d) (e.beginsWithSign d = true) :=
  noted_closed hdouble hbegin (h.iff (by simp [hshown]))

theorem shown_inList {e : Expr} {values : List Expr} {negated : Bool} (h : values ≠ []) :
    (Phrase.expr (.inList e values negated)).shown d = .expr e :: values.map .expr := by
  cases values with
  | nil => exact absurd rfl h
  | cons v vs => rfl

theorem watched_windowedCall {b b' : Prop} {called : Fragment} {framed : Option Fragment}
    (h : called.Watched d (Ready d) b) (hf : Listed d b' framed.toList) :
    (windowedCall called framed).Watched d (Ready d) (b ∨ b') := by
  cases framed with
  | none => exact h.iff (by rw [← hf.2]; simp)
  | some f =>
    have hwindow : f.enclosed.Watched d (Ready d) b' :=
      ((hf.1 f (by simp)).iff (by rw [← hf.2]; simp)).enclosed
    exact (h.before (quiet_ofList rfl)).append hwindow

theorem anyDoubles_of_isEmpty {es : List Expr} (h : es.isEmpty = true) :
    ¬ AnyDoubles d (es.map .expr) := by
  rw [List.isEmpty_iff.1 h]
  simp

theorem anyDoubles_unordered {ts : List OrderTerm} (h : (!ts.isEmpty) = false) :
    ¬ AnyDoubles d ((ts.map OrderTerm.expression).map .expr) := by
  refine anyDoubles_of_isEmpty ?_
  rw [List.isEmpty_map]
  simpa using h

theorem watched_items {b : Prop} {items : List Expr} {fs : List Fragment} (h : Listed d b fs)
    (hlength : items.isEmpty = true → ¬ b) :
    (if items.isEmpty then Fragment.text "*" else Fragment.join ", " fs).Watched d (Settled d) b := by
  split
  · next hempty =>
    exact (Watched.of_quiet (quiet_ofList rfl)).settled.iff (iff_of_false id (hlength hempty))
  · exact h.join (setsOff_ofList rfl)

/-- The words before a select list. -/
theorem setsOff_selectHead (distinct : Bool) {pagination : Option Pagination}
    (hpage : ∀ p, pagination = some p → p.IsNumeric) :
    SetsOff d (selectHead distinct (topLimit d pagination)) := by
  have hdistinct : Quiet d ("SELECT" ++ if distinct then " DISTINCT" else "") := by
    refine Quiet.append (quiet_ofList rfl) ?_
    cases distinct <;> exact quiet_ofList rfl
  unfold selectHead
  refine (setsOff_space d).behind (hdistinct.append ?_)
  cases hl : topLimit d pagination with
  | none => exact quiet_ofList rfl
  | some v =>
    have hv : ∃ n, v = .number n := by
      unfold topLimit at hl
      split at hl
      · obtain ⟨p, hp, hlimit⟩ := Option.bind_eq_some_iff.1 hl
        exact hpage p hp v (.inl hlimit)
      · cases hl
    exact (setsOff_ofList rfl).before (Paging.still_value hv)

mutual

theorem query_watched (q : Query) (hr : (Rules.signless d).query q) {f : Fragment}
    (h : Sql.query d q = .ok f) : f.Watched d (Ready d) ((Phrase.query q).Doubles d) := by
  cases q with
  | select p =>
    rw [Sql.query] at h
    exact select_watched p hr h
  | combined p =>
    rw [Sql.query] at h
    exact combined_watched p hr h

theorem select_watched (p : SelectPlan) (hr : (Rules.signless d).select p) {f : Fragment}
    (h : Sql.select d p = .ok f) : f.Watched d (Ready d) ((Phrase.query (.select p)).Doubles d) := by
  obtain ⟨ws, items, source, joined, condition, groups, having, orders, body, _, hw, hi, hs, hj, hc,
    hg, hh, ho, hb, rfl⟩ := select_ok h
  cases p with
  | mk items' source' joined' condition' groupBy having' orderBy pagination distinct ctes =>
  obtain ⟨hrw, hri, hrs, hrj, hrc, hrg, hrh, hro, hpage⟩ := hr
  dsimp only at *
  have hitems := watched_items (itemList_watched items' hri hi) anyDoubles_of_isEmpty
  have hfrom := (Watched.behind (setsOff_selectHead distinct hpage) hitems).append
    (optionalSource_watched source' hrs hs)
  have hwhere : (optionalClause " WHERE" condition).Watched d (Ready d) _ :=
    watched_optionalClause (quiet_ofList rfl) (optional_watched condition' hrc hc)
  have hgroups : (listClause " GROUP BY" groups).Watched d (Ready d) _ :=
    watched_listClause (quiet_ofList rfl) (listed_of_told (exprs_watched groupBy hrg hg))
  have hhaving : (optionalClause " HAVING" having).Watched d (Ready d) _ :=
    watched_optionalClause (quiet_ofList rfl) (optional_watched having' hrh hh)
  have horder : (listClause " ORDER BY" orders).Watched d (Ready d) _ :=
    watched_listClause (quiet_ofList rfl) (terms_watched orderBy hro ho)
  have hcore := (((hfrom.append (joins_watched joined' hrj hj)).append hwhere).append hgroups).append
    hhaving
  have hbody := Paging.watched_finish hpage hcore horder anyDoubles_unordered hb
  have hall := watched_withClause (ctes.any Cte.recursive) (cteList_watched ctes hrw hw) hbody
  -- the clauses are written in another order than their phrases are listed in
  refine hall.iff (.trans ?_ (doubles_inner rfl).symm)
  simp only [shown, Phrase.inner, SelectPlan.queries, SelectPlan.sources, SelectPlan.expressions,
    List.filterMap_append, List.map_append, anyDoubles_append]
  grind

theorem combined_watched (p : SetPlan) (hr : (Rules.signless d).combined p) {f : Fragment}
    (h : Sql.combined d p = .ok f) :
    f.Watched d (Ready d) ((Phrase.query (.combined p)).Doubles d) := by
  obtain ⟨ws, left, right, orders, body, _, hw, _, hl, hg, ho, hb, rfl⟩ := combined_ok h
  cases p with
  | mk operator all left' right' orderBy pagination ctes =>
  obtain ⟨hrw, hrl, hrr, hro, hpage⟩ := hr
  dsimp only at *
  -- no word of a set operator has a sign in it, and blanks stand around it
  have hkeyword : SetsOff d (" " ++ d.setOperatorKeyword operator.keyword ++
      (if all then " ALL " else " ")) := by
    have hword : Quiet d (d.setOperatorKeyword operator.keyword) := by
      unfold Dialect.setOperatorKeyword
      split
      · exact quiet_ofList rfl
      · cases operator <;> exact quiet_ofList rfl
    refine SetsOff.behind ?_ ((setsOff_space d).quiet.append hword)
    cases all <;> exact setsOff_ofList rfl
  have hleft := watched_setOperand .left left' (query_watched left' hrl hl)
  have hright := watched_setOperand .right right' (query_watched right' hrr hg)
  have hcore := (hleft.before hkeyword.quiet).append hright
  have horder : (listClause " ORDER BY" orders).Watched d (Ready d) _ :=
    watched_listClause (quiet_ofList rfl) (terms_watched orderBy hro ho)
  have hbody := Paging.watched_finish hpage hcore horder anyDoubles_unordered hb
  have hall := watched_withClause (ctes.any Cte.recursive) (cteList_watched ctes hrw hw) hbody
  refine hall.iff (.trans ?_ (doubles_inner rfl).symm)
  simp only [shown, Phrase.inner, SetPlan.queries, SetPlan.expressions, List.map_append, List.map_cons,
    List.map_nil, anyDoubles_append, anyDoubles_cons, anyDoubles_nil, or_false]
  grind

theorem cteList_watched (cs : List Cte) (hr : (Rules.signless d).cteList cs) {fs : List Fragment}
    (h : Sql.cteList d cs = .ok fs) : Listed d (AnyDoubles d ((cs.map Cte.query).map .query)) fs := by
  cases cs with
  | nil => cases h; exact Listed.nil.iff (by simp)
  | cons c cs =>
    obtain ⟨g, gs, hg, hgs, rfl⟩ := cteList_cons_ok h
    exact ((cteList_watched cs hr.2 hgs).cons (cte_watched c hr.1 hg).settled).iff (by simp)

theorem cte_watched (c : Cte) (hr : (Rules.signless d).cte c) {f : Fragment}
    (h : Sql.cte d c = .ok f) : f.Watched d (Ready d) ((Phrase.query c.query).Doubles d) := by
  obtain ⟨columns, body, hb, rfl⟩ := cte_ok h
  cases c with
  | mk name body' columns' materialized recursive =>
  have hbody := (query_watched body' hr hb).settled.enclosed
  exact .behind (setsOff_cteHead name columns materialized) hbody.settled

theorem source_watched (s : Source) (hr : (Rules.signless d).source s) {f : Fragment}
    (h : Sql.source d s = .ok f) :
    f.Watched d (Ready d) (AnyDoubles d (s.query?.toList.map .query)) := by
  cases s with
  | table name shown =>
    cases h
    exact (watched_table name shown).iff (by simp [Source.query?])
  | query q name =>
    obtain ⟨g, hg, rfl⟩ := source_query_ok h
    have hquery := (query_watched q hr hg).settled.enclosed
    exact (watched_aliased hquery name).iff (by simp [Source.query?])

theorem optionalSource_watched (s : Option Source) (hr : (Rules.signless d).optionalSource s)
    {f : Fragment} (h : Sql.optionalSource d s = .ok f) :
    f.Watched d (Ready d) (AnyDoubles d ((s.toList.filterMap Source.query?).map .query)) := by
  cases s with
  | none =>
    cases h
    have hwords : Quiet d d.selectWithoutSource := by
      unfold Dialect.selectWithoutSource
      split <;> exact quiet_ofList rfl
    exact (Watched.of_quiet hwords).iff (by simp)
  | some s =>
    obtain ⟨g, hg, rfl⟩ := optionalSource_some_ok h
    have hsource : (clause " FROM" g).Watched d (Ready d) _ :=
      watched_clause (quiet_ofList rfl) (source_watched s hr hg).settled
    refine hsource.iff ?_
    cases hs : s.query? <;> simp [hs]

theorem joins_watched (js : List Join) (hr : (Rules.signless d).joins js) {f : Fragment}
    (h : Sql.joins d js = .ok f) : f.Watched d (Ready d)
      (AnyDoubles d (((js.map Join.target).filterMap Source.query?).map .query) ∨
        AnyDoubles d ((js.filterMap Join.on).map .expr)) := by
  cases js with
  | nil => cases h; exact Watched.of_empty.iff (by simp)
  | cons j js =>
    obtain ⟨g, gs, hg, hgs, rfl⟩ := joins_cons_ok h
    refine ((join_watched j hr.1 hg).append (joins_watched js hr.2 hgs)).iff ?_
    cases hq : j.target.query? <;> cases ho : j.on <;> simp [hq, ho] <;> grind

theorem join_watched (j : Join) (hr : (Rules.signless d).join j) {f : Fragment}
    (h : Sql.join d j = .ok f) : f.Watched d (Ready d)
      (AnyDoubles d (j.target.query?.toList.map .query) ∨ AnyDoubles d (j.on.toList.map .expr)) := by
  obtain ⟨target, on, ht, ho, rfl⟩ := join_ok h
  cases j with
  | mk kind target' on' blank =>
  have hkeyword : SetsOff d (" " ++ kind.keyword ++ " JOIN ") := by
    refine (setsOff_ofList rfl).behind ((setsOff_space d).quiet.append ?_)
    cases kind <;> exact quiet_ofList rfl
  have htarget := Watched.behind hkeyword (source_watched target' hr.1 ht).settled
  exact htarget.append (watched_optionalClause (quiet_ofList rfl) (optional_watched on' hr.2 ho))

theorem expr_watched (e : Expr) (hr : (Rules.signless d).expr e) {f : Fragment}
    (h : Sql.expr d e = .ok f) : f.Noted d ((Phrase.expr e).Doubles d) (e.beginsWithSign d = true) := by
  cases e with
  | column table name shown =>
    cases h
    exact noted_leaf rfl rfl rfl (.of_quiet (setsOff_qualifiedName (setsOff_identifier name)).quiet)
  | star table =>
    cases h
    exact noted_leaf rfl rfl rfl (.of_quiet (setsOff_qualifiedName (setsOff_ofList rfl)).quiet)
  | literal value hint =>
    cases h
    exact noted_leaf rfl rfl rfl (.of_bind _)
  | raw sql parameters => exact noted_leaf rfl rfl rfl (runs_raw hr.closes hr.dash hr.slash h)
  | binary op left right =>
    obtain ⟨l, g, hl, hg, rfl⟩ := binary_ok h
    have hleft := expr_watched left hr.1 hl
    have hright := expr_watched right hr.2 hg
    refine (noted_binary op left right hleft hright).iff (.trans ?_ (doubles_inner rfl).symm) ?_
    · simp [shown, Phrase.inner]
    · simp [Expr.beginsWithSign]
  | unary op e =>
    obtain ⟨g, hg, rfl⟩ := unary_ok h
    refine (noted_unary op e (expr_watched e hr hg)).iff ?_ ?_
    · rw [doubles_iff (p := .expr (.unary op e))]
      cases op <;> simp [Phrase.doublesSign, Expr.doublesSign, shown, Phrase.inner, or_comm]
    · cases op <;> simp [Expr.beginsWithSign]
  | inList e values negated =>
    -- in no values, the operand is not written
    rcases inList_ok h with ⟨rfl, rfl⟩ | ⟨hv, g, gs, hg, hgs, rfl⟩
    · refine noted_leaf rfl rfl rfl (.of_quiet ?_)
      cases negated <;> exact quiet_ofList rfl
    · obtain ⟨hre, hrv⟩ := hr.resolve_left hv
      have hsubject := (expr_watched e hre hg).dress .subject e
      have hvalues := listed_of_told (exprs_watched values hrv hgs)
      have hlength := length_exprs hgs
      have hlists : memberLists d negated gs ≠ [] := by
        refine memberLists_ne_nil negated fun hnone => hv ?_
        rw [hnone] at hlength
        exact List.length_eq_zero_iff.1 hlength.symm
      rw [predicateOperand_eq]
      refine (noted_membership negated hlists hsubject hvalues).iff
        (.trans ?_ (doubles_inner rfl).symm) ?_
      · rw [shown_inList hv]
        simp
      · rw [length_memberLists negated hlength]
        simp [Expr.beginsWithSign, and_assoc]
  | inQuery e q negated =>
    obtain ⟨g, body, hg, hb, rfl⟩ := inQuery_ok h
    have hsubject := (expr_watched e hr.1 hg).dress .subject e
    have hbody := (query_watched q hr.2 hb).settled.enclosed
    have hrest := Watched.behind (setsOff_spaced (quiet_membershipKeyword negated)) hbody.settled
    rw [predicateOperand_eq, append_assoc]
    refine (hsubject.append hrest).iff (.trans ?_ (doubles_inner rfl).symm) ?_
    · simp [shown, Phrase.inner]
    · simp [Expr.beginsWithSign]
  | call name arguments distinct windowed =>
    obtain ⟨fs, framed, _, hf, ho, rfl⟩ := call_ok h
    obtain ⟨hname, harguments, hwindow⟩ := hr
    have htold := exprs_watched arguments harguments hf
    have hlaid := FunctionForm.laid_function (quiet_closed hname.closes hname.dash hname.slash)
      arguments.length distinct
    have hcalled := (hlaid.watched (listed_of_told htold).1).iff (showsOpening_iff htold name distinct)
    have hall := watched_windowedCall hcalled (optionalWindow_watched windowed hwindow ho)
    refine noted_closed rfl rfl (hall.iff ?_)
    simp [shown]
  | window w =>
    rw [Sql.expr] at h
    exact noted_closed rfl rfl (window_watched w hr h)
  | subquery q =>
    obtain ⟨g, hg, rfl⟩ := subquery_ok h
    refine noted_closed rfl rfl ((query_watched q hr hg).settled.enclosed.iff ?_)
    simp [shown, Phrase.inner]
  | cases bs otherwise =>
    obtain ⟨gs, last, hg, hl, rfl⟩ := cases_ok h
    have hcase : (Fragment.text "CASE" ++ gs).Watched d (Ready d) _ :=
      .behind (setsOff_ofList rfl) (branches_watched bs hr.1 hg).settled
    have helse : (optionalClause " ELSE" last).Watched d (Ready d) _ :=
      watched_optionalClause (quiet_ofList rfl) (optional_watched otherwise hr.2 hl)
    have hend : Quiet d " END" := quiet_ofList rfl
    refine noted_closed rfl rfl (((hcase.append helse).before hend).iff ?_)
    simp [shown, Phrase.inner]
  | named e name =>
    rw [Sql.expr] at h
    refine (expr_watched e hr h).iff (.trans ?_ (doubles_inner rfl).symm) ?_
    · simp [shown, Phrase.inner]
    · simp [Expr.beginsWithSign]

theorem exprs_watched (es : List Expr) (hr : (Rules.signless d).exprs es) {fs : List Fragment}
    (h : Sql.exprs d es = .ok fs) : List.Forall₂ (Told d) es fs := by
  cases es with
  | nil => cases h; exact .nil
  | cons e es =>
    obtain ⟨g, gs, hg, hgs, rfl⟩ := exprs_cons_ok h
    exact .cons (expr_watched e hr.1 hg).settled (exprs_watched es hr.2 hgs)

theorem optional_watched (o : Option Expr) (hr : (Rules.signless d).optional o)
    {x : Option Fragment} (h : Sql.optional d o = .ok x) :
    Listed d (AnyDoubles d (o.toList.map .expr)) x.toList := by
  cases o with
  | none => cases h; exact Listed.nil.iff (by simp)
  | some e =>
    obtain ⟨g, hg, rfl⟩ := optional_some_ok h
    exact (Listed.nil.cons (expr_watched e hr hg).settled).iff (by simp)

theorem itemList_watched (es : List Expr) (hr : (Rules.signless d).exprs es) {fs : List Fragment}
    (h : Sql.itemList d es = .ok fs) : Listed d (AnyDoubles d (es.map .expr)) fs := by
  cases es with
  | nil => cases h; exact Listed.nil.iff (by simp)
  | cons e es =>
    obtain ⟨g, gs, hg, hgs, rfl⟩ := itemList_cons_ok h
    have hitem := (noted_selectItem e (expr_watched e hr.1 hg)).settled
    exact ((itemList_watched es hr.2 hgs).cons hitem).iff (by simp)

theorem branches_watched (bs : List Branch) (hr : (Rules.signless d).branches bs) {f : Fragment}
    (h : Sql.branches d bs = .ok f) :
    f.Watched d (Ready d) (AnyDoubles d ((bs.flatMap Branch.expressions).map .expr)) := by
  cases bs with
  | nil => cases h; exact Watched.of_empty.iff (by simp)
  | cons b bs =>
    obtain ⟨c, g, gs, hc, hg, hgs, rfl⟩ := branches_cons_ok h
    cases b with
    | mk condition result =>
    obtain ⟨hrc, hrr, hrb⟩ := hr
    have hwhen : (clause " WHEN" c).Watched d (Ready d) _ :=
      watched_clause (quiet_ofList rfl) (expr_watched condition hrc hc).settled
    have hthen : (clause " THEN" g).Watched d (Ready d) _ :=
      watched_clause (quiet_ofList rfl) (expr_watched result hrr hg).settled
    exact ((hwhen.append hthen).append (branches_watched bs hrb hgs)).iff
      (by simp [Branch.expressions, or_assoc])

theorem window_watched (w : Window) (hr : (Rules.signless d).window w) {f : Fragment}
    (h : Sql.window d w = .ok f) :
    f.Watched d (Ready d) (AnyDoubles d (w.expressions.map .expr)) := by
  obtain ⟨partitions, orders, hp, ho, rfl⟩ := window_ok h
  cases w with
  | mk partitionBy orderBy frame =>
  have hpartitions := listed_of_told (exprs_watched partitionBy hr.1 hp)
  have horders := terms_watched orderBy hr.2 ho
  refine (watched_windowParts hpartitions horders frame).iff ?_
  simp [Window.expressions]

theorem optionalWindow_watched (w : Option Window) (hr : (Rules.signless d).optionalWindow w)
    {x : Option Fragment} (h : Sql.optionalWindow d w = .ok x) :
    Listed d (AnyDoubles d ((w.toList.flatMap Window.expressions).map .expr)) x.toList := by
  cases w with
  | none => cases h; exact Listed.nil.iff (by simp)
  | some w =>
    obtain ⟨g, hg, rfl⟩ := optionalWindow_some_ok h
    exact (Listed.nil.cons (window_watched w hr hg).settled).iff (by simp)

theorem terms_watched (ts : List OrderTerm) (hr : (Rules.signless d).terms ts) {fs : List Fragment}
    (h : Sql.terms d ts = .ok fs) :
    Listed d (AnyDoubles d ((ts.map OrderTerm.expression).map .expr)) fs := by
  cases ts with
  | nil => cases h; exact Listed.nil.iff (by simp)
  | cons t ts =>
    obtain ⟨g, gs, hg, hgs, rfl⟩ := terms_cons_ok h
    cases t with
    | mk e direction =>
    have hdirection : Quiet d (" " ++ direction.keyword) := by
      refine (setsOff_space d).quiet.append ?_
      cases direction <;> exact quiet_ofList rfl
    have hterm := (expr_watched e hr.1 hg).settled.before hdirection
    exact ((terms_watched ts hr.2 hgs).cons hterm).iff (by simp)

end

theorem returning_watched (items : List Expr) (hr : (Rules.signless d).exprs items) {f : Fragment}
    (h : Sql.returning d items = .ok f) :
    f.Watched d (Ready d) (AnyDoubles d (items.map .expr)) := by
  obtain ⟨rfl, rfl⟩ | ⟨_, fs, hf, rfl⟩ := returning_ok h
  · exact Watched.of_empty.iff (by simp)
  · exact watched_clause (quiet_ofList rfl)
      ((itemList_watched items hr hf).join (setsOff_ofList rfl))

theorem rowList_watched (rows : List (List Expr)) (hr : (Rules.signless d).rows rows)
    {fs : List Fragment} (h : Sql.rowList d rows = .ok fs) :
    Listed d (AnyDoubles d (rows.flatten.map .expr)) fs := by
  induction rows generalizing fs with
  | nil => cases h; exact Listed.nil.iff (by simp)
  | cons row rows ih =>
    obtain ⟨g, gs, hg, hgs, rfl⟩ := rowList_cons_ok h
    have hrow := (listed_of_told (exprs_watched row hr.1 hg)).join (s := ", ") (setsOff_ofList rfl)
    exact ((ih hr.2 hgs).cons hrow.enclosed.settled).iff (by simp)

theorem assignments_watched (as : List Assignment)
    (hr : (Rules.signless d).exprs (as.map Assignment.value)) {fs : List Fragment}
    (h : Sql.assignments d as = .ok fs) :
    Listed d (AnyDoubles d ((as.map Assignment.value).map .expr)) fs := by
  induction as generalizing fs with
  | nil => cases h; exact Listed.nil.iff (by simp)
  | cons a as ih =>
    obtain ⟨g, gs, hg, hgs, rfl⟩ := assignments_cons_ok h
    have hcolumn : SetsOff d (d.quoteIdentifier a.column ++ " = ") :=
      (setsOff_ofList rfl).behind (setsOff_identifier a.column).quiet
    have hvalue := Watched.behind hcolumn (expr_watched a.value hr.1 hg).settled
    exact ((ih hr.2 hgs).cons hvalue.settled).iff (by simp)

/-- The text of a statement opens a comment exactly where a minus stands in front of a minus. -/
theorem statement_watched (s : Statement) (hr : (Rules.signless d).statement s) {f : Fragment}
    (h : Sql.statement d s = .ok f) : f.Watched d (Ready d) (AnyDoubles d s.phrases) := by
  have hlist : SetsOff d ", " := setsOff_ofList rfl
  cases s with
  | query q => exact (query_watched q hr h).iff (by simp [Statement.phrases])
  | insert p =>
    obtain ⟨rows, returned, hrows, hreturned, rfl⟩ := insert_ok h
    have hhead : SetsOff d ("INSERT INTO " ++ d.quoteQualified p.table ++ " (" ++
        ", ".intercalate (p.columns.map d.quoteIdentifier) ++ ") VALUES ") := by
      -- names in a head are quoted, so what they are cannot open a remark
      have hinto : Quiet d ("INSERT INTO " ++ d.quoteQualified p.table) :=
        Quiet.append (quiet_ofList rfl) (setsOff_qualified p.table).quiet
      refine (setsOff_ofList rfl).behind (Quiet.append (hinto.append ?_) (quiet_names _))
      exact quiet_ofList rfl
    have hall := (Watched.behind hhead ((rowList_watched p.rows hr.1 hrows).join hlist)).append
      (returning_watched p.returning hr.2 hreturned)
    exact hall.iff (by simp [Statement.phrases])
  | update p =>
    obtain ⟨set, condition, returned, hset, hc, hreturned, rfl⟩ := update_ok h
    obtain ⟨hra, hrc, hrr⟩ := hr
    have hhead : SetsOff d ("UPDATE " ++ d.quoteQualified p.table ++ " SET ") :=
      (setsOff_ofList rfl).behind (Quiet.append (quiet_ofList rfl) (setsOff_qualified p.table).quiet)
    have hset := Watched.behind hhead ((assignments_watched p.assignments hra hset).join hlist)
    have hwhere : (optionalClause " WHERE" condition).Watched d (Ready d) _ :=
      watched_optionalClause (quiet_ofList rfl) (optional_watched p.condition hrc hc)
    have hall := (hset.append hwhere).append (returning_watched p.returning hrr hreturned)
    exact hall.iff (by simp [Statement.phrases, or_assoc])
  | delete p =>
    obtain ⟨condition, returned, hc, hreturned, rfl⟩ := delete_ok h
    have hhead : (Fragment.text ("DELETE FROM " ++ d.quoteQualified p.table)).Watched d (Ready d) False :=
      .of_quiet (Quiet.append (quiet_ofList rfl) (setsOff_qualified p.table).quiet)
    have hwhere : (optionalClause " WHERE" condition).Watched d (Ready d) _ :=
      watched_optionalClause (quiet_ofList rfl) (optional_watched p.condition hr.1 hc)
    have hall := (hhead.append hwhere).append (returning_watched p.returning hr.2 hreturned)
    exact hall.iff (by simp [Statement.phrases])

end Sql

/-- A compiled statement opens a comment exactly when somewhere in it a minus stands right in front of
the minus that its operand begins with. -/
theorem compile_opensComment_iff {d : Dialect} {s : Statement} {c : Compiled}
    (hr : (Rules.signless d).statement s) (h : compile d s = .ok c) :
    d.OpensComment c.sql ↔ ∃ e, s.Has (Phrase.shown d) (.expr e) ∧ e.doublesSign d = true := by
  obtain ⟨f, -, hf, rfl⟩ := compile_ok h
  have hopens := (Sql.statement_watched s hr hf).settled.opens_iff
  rw [Watch.opensComment_iff, Fragment.toList_sql]
  refine Iff.trans hopens ?_
  constructor
  -- only an expression can have a minus in front of a minus
  · rintro ⟨p, hp, m, hm, hsign⟩
    cases m with
    | expr e => exact ⟨e, ⟨p, hp, hm⟩, hsign⟩
    | query q => cases hsign
  · rintro ⟨e, ⟨p, hp, hm⟩, hsign⟩
    exact ⟨p, hp, _, hm, hsign⟩

/-- A selection of one expression from a table. -/
def selecting (e : Expr) : Statement := .query (.select
  { SelectPlan.all (some (.table "t" none)) with items := [e] })

/-- The opposite of a difference that begins with a minus and that a name keeps from its brackets. -/
def oppositeDifference : Expr := .unary .neg (.named (.binary .sub (.unary .neg (.column none "a" none))
  (.call "ABS" [.raw "b" []] false none)) "x")

theorem signless_selecting (d : Dialect) {e : Expr} (h : (Rules.signless d).expr e) :
    (Rules.signless d).statement (selecting e) :=
  ⟨trivial, ⟨h, trivial⟩, trivial, trivial, trivial, trivial, trivial, trivial, fun _ hp => nomatch hp⟩

theorem signless_word {d : Dialect} {s : String}
    (h : s.toList.all isBland = true) : d.Signless s := by
  have hmem (c : Char) (hc : isBland c = false) : c ∉ s.toList := by
    intro hin
    have hbland := List.all_eq_true.1 h c hin
    rw [hc] at hbland
    cases hbland
  refine ⟨fun p hp => ?_, hmem '-' rfl, hmem '/' rfl⟩
  cases hs : s.toList with
  | nil => exact Watch.isInside_of_outer hp
  | cons c cs =>
    rw [hs] at h
    obtain ⟨-, -, hsingle, hopen, hclose⟩ := Watch.bland_cases (d := d) (c := '?') rfl
    rw [Watch.place_bland (List.mem_append_left _ hp) h, Watch.step_outer hp hsingle hopen hclose]
    rfl

theorem compile_oppositeDifference_opensComment :
    (Rules.signless (.make .sqlite none)).statement (selecting oppositeDifference) ∧
    ∃ c, compile (.make .sqlite none) (selecting oppositeDifference) = .ok c ∧
      (Dialect.make .sqlite none).OpensComment c.sql := by
  have hr : (Rules.signless (.make .sqlite none)).statement (selecting oppositeDifference) := by
    refine signless_selecting _ ⟨trivial, ?_, ⟨?_, trivial⟩, trivial⟩
    · exact signless_word (by decide +kernel)
    · exact signless_word (by decide +kernel)
  obtain ⟨c, hc, -⟩ := compile_of_sql (d := .make .sqlite none) (s := selecting oppositeDifference)
    "SELECT --a - ABS(b) FROM t" (by decide +kernel)
  refine ⟨hr, c, hc, (compile_opensComment_iff hr hc).2 ⟨oppositeDifference, ?_, rfl⟩⟩
  exact ⟨_, List.mem_cons_self, .single List.mem_cons_self⟩

/-- A minus of a minus makes a comment of the rest of the statement. -/
theorem double_minus_opens_comment : ¬ ∀ (d : Dialect) (s : Statement) (c : Compiled),
    (Rules.signless d).statement s → compile d s = .ok c → ¬ d.OpensComment c.sql := by
  intro hall
  have hr : (Rules.signless (.make .sqlite none)).statement
      (selecting (.unary .neg (.unary .neg (.column none "a" none)))) := signless_selecting _ trivial
  obtain ⟨c, hc, hsql⟩ := compile_of_sql (d := .make .sqlite none)
    (s := selecting (.unary .neg (.unary .neg (.column none "a" none)))) "SELECT --a FROM t"
    (by decide +kernel)
  refine hall _ _ c hr hc ?_
  rw [hsql]
  exact ⟨"SELECT ".toList, _, "a FROM t".toList, by decide +kernel, .inl rfl, by decide +kernel⟩

end PolyQuery
