import PolyQuery.Proofs.Contained

/-! The text of a selection, up to its ordering. It is one run of tokens that no other query ends, and
it is no query between brackets with words around them: `written_selects`. -/
namespace PolyQuery

/-- What a selection reads from stands between brackets or is named. -/
def Source.Contained (d : Dialect) : Source → Prop
  | .table _ _ => True
  | .query q _ => (Rules.paired d).query q

def Join.AllContained (d : Dialect) : List Join → Prop
  | [] => True
  | j :: rest =>
    j.target.Contained d ∧ Expr.OptionalContained d j.on ∧ Join.AllContained d rest

namespace Scan
variable {d : Dialect}

theorem legible_identifier (name : String) : Legible d (.text (d.quoteIdentifier name)) := by
  have h := legible_path (d := d) [some name] (List.cons_ne_nil _ _)
  simpa [partText] using h

/-- The tokens of an alias behind its word, where it has one. -/
def aliasTokens (d : Dialect) (name : String) : List Token :=
  (if d.backend = .oracle then [] else [.word "AS"]) ++ [Tree.partToken d (some name)]

theorem writtenBehind_alias (name : String) :
    WrittenBehind d (.text (d.tableAliasKeyword ++ d.quoteIdentifier name)) (aliasTokens d name) ∧
      Free (Token.isClause d) (aliasTokens d name) := by
  have hname := (spells_identifier (d := d) name).spaced
  have hfree : Free (Token.isClause d) [Tree.partToken d (some name)] :=
    .plain (partToken_plain _) (Token.isClause_part _) .nil
  unfold Dialect.tableAliasKeyword aliasTokens
  by_cases hd : d.backend = .oracle
  · rw [if_pos hd, if_pos hd]
    refine ⟨writtenBehind_text ?_, hfree⟩
    simpa only [String.toList_append, toList_blank, List.cons_append, List.nil_append] using hname
  · rw [if_neg hd, if_neg hd]
    have hword : Follows d (fun _ => (String.join (["AS"].map (" " ++ ·))).toList) [.word "AS"] :=
      follows_wordTokens ["AS"] (by decide +kernel)
    have hall := hword.append hname
    have htext : (" AS " : String) = String.join (["AS"].map (" " ++ ·)) ++ " " := rfl
    refine ⟨writtenBehind_text ?_, .plain rfl (Token.isClause_safe (by decide +kernel)) hfree⟩
    simpa only [htext, String.toList_append, toList_blank, List.append_assoc, List.cons_append,
      List.nil_append] using hall

theorem legible_aliased {f : Fragment} (hf : Legible d f) (name : String) :
    Legible d (Sql.aliased d f name) :=
  hf.append ⟨aliasTokens d name, writtenBehind_alias name⟩

/-- A table begins with a part of its name. -/
theorem written_table (name : String) (shown : Option String) :
    ∃ p ts, Written d (Sql.table d name shown) (Tree.partToken d p :: ts) ∧
      Free (Token.isClause d) (Tree.partToken d p :: ts) := by
  have hparts (parts : List (Option String)) (hne : parts ≠ []) :
      ∃ p ts, Tree.pathTokens d parts = Tree.partToken d p :: ts := by
    match parts, hne with
    | [p], _ => exact ⟨p, [], rfl⟩
    | p :: q :: ps, _ => exact ⟨p, _, rfl⟩
  have hname : Written d (.text (d.quoteQualified name)) (Tree.pathTokens d (Tree.nameParts name)) := by
    rw [quoteQualified_eq]
    exact written_text (spells_path _)
  have hpath := free_path (d := d) (Tree.nameParts name)
  obtain ⟨p, ts, heq⟩ := hparts _ (nameParts_ne_nil name)
  rw [heq] at hname hpath
  cases shown with
  | none => exact ⟨p, ts, hname, hpath⟩
  | some a =>
    unfold Sql.table
    dsimp only
    -- a name that is shown as itself is not written again
    split
    · exact ⟨p, ts, hname, hpath⟩
    · obtain ⟨halias, hfree⟩ := writtenBehind_alias (d := d) a
      exact ⟨p, ts ++ aliasTokens d a, hname.append halias, hpath.append hfree⟩

theorem legible_table (name : String) (shown : Option String) :
    Legible d (Sql.table d name shown) := by
  obtain ⟨p, ts, hwritten, hfree⟩ := written_table (d := d) name shown
  exact firm_of_spells hwritten (partToken_sign p) hfree

theorem legible_source (s : Source) (hs : s.Contained d) {f : Fragment}
    (h : Sql.source d s = .ok f) : Legible d f := by
  cases s with
  | table name shown =>
    cases h
    exact legible_table name shown
  | query q shown =>
    obtain ⟨g, hg, rfl⟩ := Sql.source_query_ok h
    have hinside : Steady d fun n => g.chars d n := (closed_paired d).of_query q hs hg
    exact legible_aliased hinside.legible_enclosed.legible shown

theorem legible_joins (js : List Join) (hj : Join.AllContained d js) {f : Fragment}
    (h : Sql.joins d js = .ok f) : LegibleBehind d f := by
  induction js generalizing f with
  | nil =>
    cases h
    exact legibleBehind_empty
  | cons j js ih =>
    obtain ⟨g, gs, hg, hgs, rfl⟩ := Sql.joins_cons_ok h
    obtain ⟨target, on, ht, ho, rfl⟩ := Sql.join_ok hg
    obtain ⟨htarget, hon, hrest⟩ := hj
    have hkind : IsSafe j.kind.keyword := by cases j.kind <;> decide +kernel
    have hwords : ∀ w ∈ [j.kind.keyword, "JOIN"], IsSafe w :=
      List.forall_mem_cons.2 ⟨hkind, by decide +kernel⟩
    have hjoin : (" JOIN " : String) = " " ++ "JOIN" ++ " " := rfl
    -- the kind of the join and JOIN are read as two words
    have htext : " " ++ j.kind.keyword ++ " JOIN " =
        String.join ([j.kind.keyword, "JOIN"].map (" " ++ ·)) ++ " " := by
      simp only [hjoin, List.map_cons, List.map_nil, String.join_cons, String.join_nil,
        String.append_assoc, String.append_empty]
    have hleft : LegibleBehind d (.text (" " ++ j.kind.keyword ++ " JOIN ") ++ target) :=
      (legible_source j.target htarget ht).behindWords _ htext hwords
    have hright := legible_optionalClause (d := d) ["ON"] rfl (by decide +kernel)
      (legible_optional j.on hon ho)
    exact (hleft.append hright).append (ih hrest hgs)

theorem legible_itemList (es : List Expr) (he : Expr.AllContained d es) {fs : List Fragment}
    (h : Sql.itemList d es = .ok fs) : ∀ f ∈ fs, Legible d f := by
  induction es generalizing fs with
  | nil => cases h; simp
  | cons e es ih =>
    obtain ⟨g, gs, hg, hgs, rfl⟩ := Sql.itemList_cons_ok h
    obtain ⟨hfirst, hrest⟩ := he
    have hitem := legible_expr e hfirst hg
    refine List.forall_mem_cons.2 ⟨?_, ih hrest hgs⟩
    rw [Sql.selectItem]
    split
    · next name _ =>
      have hname := (legible_identifier (d := d) name).behindWords ["AS"] rfl (by decide +kernel)
      have hall := hitem.append hname
      have htext : (" AS " : String) = String.join (["AS"].map (" " ++ ·)) ++ " " := rfl
      rw [htext]
      simpa only [Legible, Fragment.chars_append, Fragment.chars_text, Fragment.bindings_text,
        List.length_nil, Nat.add_zero, String.toList_append, List.append_assoc] using hall
    · exact hitem

theorem legible_listClause {s : String} (ws : List String) (hs : s = String.join (ws.map (" " ++ ·)))
    (h : ∀ w ∈ ws, IsSafe w) {fs : List Fragment} (hf : ∀ f ∈ fs, Legible d f) :
    LegibleBehind d (Sql.listClause s fs) := by
  cases fs with
  | nil => exact legibleBehind_empty
  | cons f fs => exact (Legible.list (List.cons_ne_nil f fs) hf).clause ws hs h

/-- The tokens of a source behind its word: names, or a query between brackets with its alias. -/
inductive FromTokens (d : Dialect) : List Token → Prop
  | none : FromTokens d []
  | named {t : Token} {ts : List Token} (ht : t ≠ .opening)
    (h : Free (Token.isClause d) (t :: ts)) : FromTokens d (.word "FROM" :: t :: ts)
  | query {ts : List Token} {name : String} (h : Paired ts)
    (hname : d.paginationStyle = .top → name ≠ "q_") :
    FromTokens d (.word "FROM" :: .opening :: (ts ++ .closing :: aliasTokens d name))

theorem not_free_from {ts : List Token} : ¬ Free Token.isFrom (.word "FROM" :: ts) := by
  intro h
  have hfrom : Token.isFrom (.word "FROM") = true := by decide +kernel
  rw [(h.tail rfl).1] at hfrom
  cases hfrom

theorem free_of_isClause {ts : List Token} (h : Free (Token.isClause d) ts) :
    Free Token.isFrom ts ∧ Free (Token.isBreak d) ts := by
  refine ⟨h.mono fun t ht => ?_, h.mono fun t ht => ?_⟩
  · rw [Token.isClause, ht, Bool.true_or]
  · rw [Token.isClause, ht, Bool.or_true]

theorem free_from {src : List Token} (hs : FromTokens d src) : Free (Token.isBreak d) src := by
  have hword : Token.isBreak d (.word "FROM") = false := by
    have hsection : Token.isSection (.word "FROM") = false := by decide +kernel
    have htop : (Text.upper "FROM" == "TOP") = false := by decide +kernel
    rw [Token.isBreak, hsection, Token.isTop, htop, Bool.and_false]
    rfl
  cases hs with
  | none => exact .nil
  | named _ h => exact .plain rfl hword (free_of_isClause h).2
  | query h _ =>
    exact .plain rfl hword (.group h (free_of_isClause (writtenBehind_alias _).2).2)

/-- The alias of a query between brackets is neither `WHERE` nor a name that it may not have. -/
theorem aliasTokens_cases {name : String} (hname : d.paginationStyle = .top → name ≠ "q_")
    (rest : List Token) : ∃ t more, aliasTokens d name ++ rest = t :: more ∧ t ≠ .word "WHERE" ∧
      (d.paginationStyle = .top → Grammar.behind? [.word "AS", .word "q_"] (t :: more) = none) := by
  have hpart (w : String) (hw : Tree.partToken d (some name) = .word w) :
      name = w ∧ d.needsQuotes name = false := by
    rw [Tree.partToken] at hw
    cases hq : d.needsQuotes name with
    | true => rw [hq] at hw; cases hw
    | false => rw [hq] at hw; cases hw; exact ⟨rfl, rfl⟩
  -- without `AS` in front, the alias itself comes first, which is quoted if it is a reserved word
  unfold aliasTokens
  by_cases hd : d.backend = .oracle
  · rw [if_pos hd]
    refine ⟨_, rest, rfl, fun hw => ?_, fun htop => ?_⟩
    · obtain ⟨rfl, hquotes⟩ := hpart _ hw
      simp [Dialect.needsQuotes, Dialect.isReserved, hd] at hquotes
      exact absurd hquotes (by decide +kernel)
    · rw [Dialect.backend_of_top htop] at hd
      cases hd
  · rw [if_neg hd]
    refine ⟨.word "AS", Tree.partToken d (some name) :: rest, rfl, by decide, fun htop => ?_⟩
    have hne : Token.word "q_" ≠ Tree.partToken d (some name) :=
      fun hw => hname htop (hpart _ hw.symm).1
    rw [Grammar.behind?, if_pos rfl]
    exact Grammar.behind?_ne hne _

/-- The items of a selection, its source and what follows: where `* FROM` stands in front, it is a
list of items with a source. -/
theorem selects_of_parts {items src more : List Token} (hi : Free (Token.isClause d) items)
    (hs : FromTokens d src) (hm : Free (Token.isClause d) more) :
    Grammar.Selects d (items ++ (src ++ more)) where
  free := (free_of_isClause hi).2.append ((free_from hs).append (free_of_isClause hm).2)
  source := by
    intro tail us htail hbehind
    have hall := Grammar.behind?_eq_some hbehind
    have hitems := (free_of_isClause hi).1
    have hrest : Free Token.isFrom (more ++ tail) := (free_of_isClause hm).1.append htail
    simp only [List.append_assoc, List.cons_append, List.nil_append] at hall
    -- where the source follows a star, the star is the only item
    match items, hitems, hall with
    | [], _, hall =>
      rw [List.nil_append] at hall
      cases hs with
      | none =>
        rw [List.nil_append] at hall
        rw [hall] at hrest
        exact absurd (hrest.tail rfl).2 not_free_from
      | named _ _ => cases hall
      | query _ _ => cases hall
    | [x], _, hall =>
      have hsource : src ++ (more ++ tail) = .word "FROM" :: .opening :: us :=
        (List.cons.inj hall).2
      cases hs with
      | none =>
        rw [List.nil_append] at hsource
        rw [hsource] at hrest
        exact absurd hrest not_free_from
      | named ht _ =>
        cases hsource
        exact absurd rfl ht
      | @query ts name h hname =>
        obtain ⟨t, rest, heq, ht, htop⟩ := aliasTokens_cases hname (more ++ tail)
        have hus : us = ts ++ .closing :: (t :: rest) := by
          rw [← heq]
          simpa using hsource.symm
        refine ⟨ts, t, rest, ?_, ht, htop⟩
        rw [hus, Grammar.close_closing h]
    | x :: y :: ys, hitems, hall =>
      obtain ⟨hx, htail⟩ := List.cons.inj hall
      obtain ⟨hy, _⟩ := List.cons.inj htail
      rw [hx, hy] at hitems
      exact absurd (hitems.tail rfl).2 not_free_from

/-- Bare words before a fragment. -/
theorem Written.behindWords {f : Fragment} {ts : List Token} (h : Written d f ts) {s : String}
    (ws : List String) (hs : s = String.join (ws.map (" " ++ ·)) ++ " ") (hws : ∀ w ∈ ws, IsBare w) :
    WrittenBehind d (.text s ++ f) (ws.map .word ++ ts) := by
  rw [hs]
  exact ((writtenBehind_text (follows_wordTokens ws hws)).append h.spaced).texts

theorem written_from (s : Option Source) (hs : ∀ x, s = some x → x.Contained d)
    (htop : d.paginationStyle = .top → ∀ q, s ≠ some (.query q "q_")) {f : Fragment}
    (h : Sql.optionalSource d s = .ok f) : ∃ ts, WrittenBehind d f ts ∧ FromTokens d ts := by
  have hfrom {g : Fragment} {ts : List Token} (hg : Written d g ts) :
      WrittenBehind d (Sql.clause " FROM" g) (.word "FROM" :: ts) :=
    Written.behindWords hg ["FROM"] rfl (by decide +kernel)
  cases s with
  | none =>
    cases h
    -- some dialects select from a table with one row where there is no source
    rw [Dialect.selectWithoutSource]
    split
    · have hwords := follows_wordTokens (d := d) ["FROM", "DUAL"] (by decide +kernel)
      exact ⟨_, writtenBehind_text hwords, .named (by decide)
        (.plain rfl (Token.isClause_safe (by decide +kernel)) .nil)⟩
    · exact ⟨[], writtenBehind_text follows_nothing, .none⟩
  | some x =>
    obtain ⟨g, hg, rfl⟩ := Sql.optionalSource_some_ok h
    cases x with
    | table name shown =>
      cases hg
      obtain ⟨p, ts, hwritten, hfree⟩ := written_table (d := d) name shown
      have hopening : Tree.partToken d p ≠ .opening := by
        intro hp
        have hbracket := congrArg Token.isBracket hp
        rw [(partToken_plain p)] at hbracket
        cases hbracket
      exact ⟨_, hfrom hwritten, .named hopening hfree⟩
    | query q shown =>
      obtain ⟨body, hb, rfl⟩ := Sql.source_query_ok hg
      have hsteady : Steady d fun n => body.chars d n :=
        (closed_paired d).of_query q (hs _ rfl) hb
      obtain ⟨hspells, hpaired⟩ := hsteady.spells
      have hname : d.paginationStyle = .top → shown ≠ "q_" := by
        rintro hd rfl
        exact htop hd q rfl
      have henclosed : Written d body.enclosed _ := (Written.enclosed hspells).spells
      have hall := hfrom (henclosed.append (writtenBehind_alias shown).1)
      refine ⟨_, hall, ?_⟩
      rw [List.append_assoc]
      exact .query hpaired hname

end Scan

/-- A selection whose parts keep to their places; where a page is put around a query as a selection
from `q_`, the selection itself is none from a query of that name. -/
structure SelectPlan.Contained (d : Dialect) (p : SelectPlan) : Prop where
  items : Expr.AllContained d p.items
  source : ∀ s, p.source = some s → s.Contained d
  other : d.paginationStyle = .top → ∀ q, p.source ≠ some (.query q "q_")
  joins : Join.AllContained d p.joins
  condition : Expr.OptionalContained d p.condition
  groupBy : Expr.AllContained d p.groupBy
  having : Expr.OptionalContained d p.having

namespace Scan
variable {d : Dialect}

/-- What follows the head of a selection. -/
theorem written_selects {p : SelectPlan} (hp : p.Contained d)
    {items groups : List Fragment} {source joined : Fragment} {condition having : Option Fragment}
    (hi : Sql.itemList d p.items = .ok items) (hs : Sql.optionalSource d p.source = .ok source)
    (hj : Sql.joins d p.joins = .ok joined) (hc : Sql.optional d p.condition = .ok condition)
    (hg : Sql.exprs d p.groupBy = .ok groups) (hh : Sql.optional d p.having = .ok having) :
    ∃ ts, Grammar.Selects d ts ∧ Written d
      ((if p.items.isEmpty then Fragment.text "*" else Fragment.join ", " items) ++ (source ++
        (joined ++ Sql.optionalClause " WHERE" condition ++ Sql.listClause " GROUP BY" groups ++
          Sql.optionalClause " HAVING" having))) ts := by
  have hlist : Legible d (if p.items.isEmpty then Fragment.text "*" else Fragment.join ", " items) := by
    split
    · exact legible_tokens spells_star (fun s hs => by cases hs; rfl) (.plain rfl rfl .nil)
    · next hne =>
      refine Legible.list (fun hnil => ?_) (legible_itemList p.items hp.items hi)
      cases hitems : p.items with
      | nil => rw [hitems] at hne; exact hne rfl
      | cons e es =>
        rw [hitems] at hi
        obtain ⟨_, _, _, _, rfl⟩ := Sql.itemList_cons_ok hi
        cases hnil
  have hwhere := legible_optionalClause (d := d) ["WHERE"] rfl (by decide +kernel)
    (legible_optional p.condition hp.condition hc)
  have hgroup := legible_listClause (d := d) ["GROUP", "BY"] rfl (by decide +kernel)
    (legible_exprs p.groupBy hp.groupBy hg)
  have hhaving := legible_optionalClause (d := d) ["HAVING"] rfl (by decide +kernel)
    (legible_optional p.having hp.having hh)
  -- the list, the source, and all that is behind it are read one by one
  obtain ⟨ts, hts, hfree⟩ := Firm.spells hlist
  obtain ⟨us, hus, hfrom⟩ := written_from p.source hp.source hp.other hs
  obtain ⟨vs, hvs, hfree'⟩ :=
    (((legible_joins p.joins hp.joins hj).append hwhere).append hgroup).append hhaving
  exact ⟨_, selects_of_parts hfree hfrom hfree', Written.append hts (hus.append hvs)⟩

end Scan

end PolyQuery
