import PolyQuery.Proofs.Batches
import PolyQuery.Proofs.Comments
import PolyQuery.Proofs.Conjuncts

/-! Batches confined to their parents. A modifier accumulates conditions, and the tests for the keys and
for the type of the parents come behind them with `AND`. In text they must hold for all that the batch
returns exactly if what was accumulated shows no `OR` outside of brackets: `childQuery_confined`. -/
namespace PolyQuery

/-! ## The condition of a selection -/

namespace Fragment
variable {f g : Fragment}

/-- A fragment stands in another one. -/
def StandsIn (f g : Fragment) : Prop := ∃ before behind, g = before ++ f ++ behind

theorem standsIn_refl (f : Fragment) : f.StandsIn f :=
  ⟨empty, empty, by rw [empty_append, append_empty]⟩

theorem StandsIn.before (h : f.StandsIn g) (last : Fragment) : f.StandsIn (g ++ last) := by
  obtain ⟨before, behind, rfl⟩ := h
  exact ⟨before, behind ++ last, append_assoc ..⟩

theorem StandsIn.behind (h : f.StandsIn g) (first : Fragment) : f.StandsIn (first ++ g) := by
  obtain ⟨before, behind, rfl⟩ := h
  exact ⟨first ++ before, behind, by rw [append_assoc, append_assoc, append_assoc]⟩

theorem StandsIn.trans {e : Fragment} (h : e.StandsIn f) (h' : f.StandsIn g) : e.StandsIn g := by
  obtain ⟨before, behind, rfl⟩ := h'
  exact (h.behind before).before behind

/-- The text of what stands in a fragment. -/
theorem StandsIn.chars (h : f.StandsIn g) (d : Dialect) : ∃ before behind n,
    g.chars d 0 = before ++ f.chars d n ++ behind := by
  obtain ⟨before, behind, rfl⟩ := h
  rw [chars_append, chars_append]
  exact ⟨_, _, _, rfl⟩

end Fragment

namespace Sql
open Fragment
variable {d : Dialect} {f : Fragment}

/-- A page stands around its query. -/
theorem standsIn_finish {core order body : Fragment} {ordered applied : Bool}
    {pagination : Option Pagination}
    (h : Paging.finish d core order ordered pagination applied = .ok body) : core.StandsIn body := by
  have hcore := standsIn_refl core
  rcases Paging.finish_ok h with ⟨rfl, -⟩ | ⟨rfl, -⟩ | ⟨rfl, -⟩ | ⟨rfl, -⟩ | ⟨v, -, rfl, -⟩
  · exact hcore.before _
  · exact ((hcore.before _).before _).before _
  · exact ((hcore.before _).before _).before _
  · unfold Paging.rownum
    dsimp only
    split
    · split
      · exact ((hcore.before _).behind _).before _
      · exact ((hcore.before _).behind _).before _
    · exact ((hcore.before _).behind _).before _
  · exact ((hcore.behind _).before _).before _

/-- The condition of a selection stands in its text. -/
theorem standsIn_select {p : SelectPlan} {e : Expr} (h : select d p = .ok f)
    (he : p.condition = some e) :
    ∃ g, expr d e = .ok g ∧ (Fragment.text " WHERE " ++ g).StandsIn f := by
  obtain ⟨ws, items, source, joined, condition, groups, having, orders, body, -, -, -, -, -, hcondition,
    -, -, -, hbody, rfl⟩ := select_ok h
  rw [he] at hcondition
  obtain ⟨g, hg, rfl⟩ := optional_some_ok hcondition
  have hclause : (Fragment.text " WHERE " ++ g).StandsIn (optionalClause " WHERE" (some g)) :=
    standsIn_refl _
  have hbody := (((hclause.behind _).before _).before _).trans (standsIn_finish hbody)
  refine ⟨g, hg, ?_⟩
  unfold withClause
  split
  · exact hbody
  · exact hbody.behind _

end Sql

/-! ## Tests of a batch -/

namespace Loader
open PolyQuery.Expr Grammar
variable {d : Dialect} {s : LoadStep} {keys : List Value}

/-- The tests that narrow a batch: for the keys, and for the type of the parents where other models
use the relation too. -/
def tests (fields : Option FieldMap) (s : LoadStep) (keys : List Value) : List Expr :=
  keyCondition s keys ::
    match s.relation.link with
    | .polymorphic _ typeColumn typeValue _ =>
      [.binary .equal (propertyColumn typeColumn)
        (propertyValue fields typeColumn (.value (.string (typeValue.getD s.owner.name))))]
    | _ => []

theorem conditions_childCriteria (fields : Option FieldMap) (s : LoadStep) (keys : List Value) :
    (childCriteria s keys).flatMap (Criterion.conditions fields) = tests fields s keys := by
  unfold childCriteria tests
  cases s.relation.link <;> rfl

/-- Criteria one after another narrow the condition by all that they stand for. -/
theorem foldl_filter (b : Builder) (criteria : List Criterion) :
    (criteria.foldl Builder.filter b).condition =
        conjunction? (b.condition.toList ++ criteria.flatMap (Criterion.conditions b.fields)) ∧
      (criteria.foldl Builder.filter b).source = b.source ∧
      (criteria.foldl Builder.filter b).model = b.model := by
  rw [Builder.foldl_filter, Builder.andWhere_eq]
  exact ⟨rfl, rfl, rfl⟩

/-- The value of a property is a literal. -/
theorem exists_literal (fields : Option FieldMap) (name : String) (v : Value) :
    ∃ hint, propertyValue fields name (.value v) = .literal v hint := by
  unfold propertyValue
  dsimp only
  split <;> exact ⟨_, rfl⟩

theorem paired_keyCondition : (Rules.paired d).expr (keyCondition s keys) := by
  have hliterals (keys : List Value) : (Rules.paired d).exprs
      (keys.map fun v => propertyValue (some s.target.fields) s.childKey (.value v)) := by
    induction keys with
    | nil => trivial
    | cons v keys ih =>
      obtain ⟨hint, hv⟩ := exists_literal (some s.target.fields) s.childKey v
      rw [List.map_cons, hv]
      exact ⟨trivial, ih⟩
  exact .inr ⟨trivial, hliterals keys⟩

/-- The column of a property is written as a name. -/
theorem exists_column (name : String) : ∃ table column, propertyColumn name = .column table column none := by
  unfold propertyColumn Expr.reference
  dsimp only
  split
  · split <;> exact ⟨_, _, rfl⟩
  · exact ⟨_, _, rfl⟩

/-- The tests of a batch are tests in its text. -/
theorem isTest_tests {fields : Option FieldMap} {t : Expr} (ht : t ∈ tests fields s keys)
    {f : Fragment} (hf : Sql.expr d t = .ok f) :
    conjunct.wraps t = false ∧ t.KeepsPlace d ∧ IsTest (t.conjunctTokens d) := by
  -- the first test is on the keys, and there may be one on the type of the owner
  rcases List.mem_cons.1 ht with rfl | ht
  · refine ⟨rfl, isTest_of_fits paired_keyCondition (fun _ _ => trivial) rfl ?_ hf⟩
    intro t ht
    -- keys are tested by one comparison or by a list, and neither of these is AND or OR
    rw [keyCondition, Expr.operators] at ht
    split at ht
    · rw [List.mem_singleton.1 ht]
      decide
    · split at ht
      · rw [List.mem_singleton.1 ht]
        decide
      · cases ht
  · split at ht
    · next typeColumn typeValue _ _ =>
      obtain ⟨hint, hv⟩ := exists_literal fields typeColumn (.string (typeValue.getD s.owner.name))
      obtain ⟨table, column, hcolumn⟩ := exists_column typeColumn
      rw [hv, hcolumn] at ht
      obtain rfl := List.mem_singleton.1 ht
      refine ⟨rfl, isTest_of_fits ⟨trivial, trivial⟩ ⟨fun _ => trivial, fun _ => trivial⟩ rfl ?_ hf⟩
      intro t ht
      rw [List.mem_singleton.1 (ht : t ∈ [BinaryOp.equal.sign])]
      decide
    · cases ht

/-- A test must hold wherever the condition in a text is true. A text that opens a comment is not read
to its end. -/
def Confines (d : Dialect) (cs : List Char) (t : Expr) : Prop :=
  ¬ Watch.Opens d .outside cs ∧
    ∃ before, Entails (Scan.tokens d cs) ⟨before, t.conjunctTokens d⟩

theorem dress_conjunction {e : Expr} {es : List Expr} (h : es ≠ [] ∨ conjunct.wraps e = false)
    (f : Fragment) : conjunct.dress (chain .and e es) f = f := by
  rcases List.eq_nil_or_concat es with rfl | ⟨es, x, rfl⟩
  · have hw := h.resolve_left fun hne => hne rfl
    exact if_neg (by rw [Expr.chain, List.foldl_nil, hw]; exact Bool.false_ne_true)
  · rw [List.concat_eq_append]
    exact dress_chain e x es f

/-- Tests behind what a modifier accumulated must hold wherever the whole condition is true, exactly if
no comment opens in it and what was accumulated shows no `OR`. -/
theorem confines_iff {accumulated : Option Expr} {t : Expr} {ts : List Expr} {e : Expr} {f : Fragment}
    (hkeeps : ∀ a ∈ accumulated, a.KeepsPlace d)
    (htests : ∀ x ∈ t :: ts, ∀ f, Sql.expr d x = .ok f →
      conjunct.wraps x = false ∧ x.KeepsPlace d ∧ IsTest (x.conjunctTokens d))
    (he : conjunction? (accumulated.toList ++ t :: ts) = some e) (hf : Sql.expr d e = .ok f) (n : Nat) :
    (∀ x ∈ t :: ts, Confines d (f.chars d n) x) ↔
      ¬ Watch.Opens d .outside (f.chars d n) ∧ ∀ a ∈ accumulated, ¬ a.ShowsOr d := by
  -- the tests are written, since the whole condition is
  have hall : ∀ x ∈ t :: ts, conjunct.wraps x = false ∧ x.KeepsPlace d ∧ IsTest (x.conjunctTokens d) := by
    intro x hx
    obtain ⟨g, hg⟩ := ok_of_conjunction he hf x (List.mem_append_right _ hx)
    exact htests x hx g hg
  have htokens : ∀ us ∈ ts.map (conjunctTokens d), IsTest us :=
    List.forall_mem_map.2 fun x hx => (hall x (List.mem_cons_of_mem t hx)).2.2
  have hothers : ∀ x ∈ ts, x.KeepsPlace d := fun x hx => (hall x (List.mem_cons_of_mem t hx)).2.1
  obtain ⟨hunwrapped, htest, hfirst⟩ := hall t List.mem_cons_self
  cases accumulated with
  | none =>
    obtain rfl := Option.some.inj he
    have hrow := written_chain htest hothers hf
    rw [dress_conjunction (.inr hunwrapped)] at hrow
    have hread := Scan.Spells.tokens hrow n
    refine ⟨fun h => ⟨(h t List.mem_cons_self).1, nofun⟩, fun ⟨hopens, _⟩ x hx => ⟨hopens, ?_⟩⟩
    rw [hread]
    rcases List.mem_cons.1 hx with rfl | hx
    · exact ⟨[], entails_first hfirst htokens⟩
    · obtain ⟨before, hmem⟩ := exists_placedBehind (List.mem_map_of_mem hx) (t.conjunctTokens d)
      exact ⟨before, entails_placedBehind hfirst.run htokens hfirst.no_or hmem⟩
  | some a =>
    obtain rfl := Option.some.inj he
    have ha := hkeeps a rfl
    have hkept : ∀ x ∈ t :: ts, x.KeepsPlace d := List.forall_mem_cons.2 ⟨htest, hothers⟩
    have htokens : ∀ us ∈ (t :: ts).map (conjunctTokens d), IsTest us :=
      List.forall_mem_map.2 fun x hx => (hall x hx).2.2
    have hrow := written_chain ha hkept hf
    rw [dress_conjunction (.inl (List.cons_ne_nil t ts))] at hrow
    have hread := Scan.Spells.tokens hrow n
    obtain ⟨_, hwritten⟩ := ok_of_chain hf a List.mem_cons_self
    have hrun := (ha.written hwritten).2
    constructor
    · intro h
      refine ⟨(h t List.mem_cons_self).1, fun b hb hor => ?_⟩
      cases hb
      obtain ⟨-, before, hentails⟩ := h t List.mem_cons_self
      rw [hread] at hentails
      exact not_entails ((operators_behindAnd hrun htokens).2 hor) _ hentails
    · rintro ⟨hopens, hshows⟩ x hx
      obtain ⟨before, hmem⟩ := exists_placedBehind (List.mem_map_of_mem hx) (a.conjunctTokens d)
      refine ⟨hopens, before, ?_⟩
      rw [hread]
      exact entails_placedBehind hrun htokens (hshows a rfl) hmem

/-- A batch asks for the records of its target that meet what the modifier accumulated, and the tests
for the keys and the type of the parents. Read from the text, the tests must hold for whatever the
batch returns, exactly if no comment opens in the condition and what was accumulated shows no `OR`
outside of brackets. It shows none if no condition that the modifier gave does. -/
theorem childQuery_confined {σ : Session} {s : LoadStep} (keys : List Value) {q : Builder}
    (hmodifier : ∀ name ∈ s.node.modifier, ∀ change ∈ σ.modifiers.lookup name, ∀ b b',
      change b = .ok b' → b.Composed b')
    (hq : modifiedQuery σ s = .ok q) :
    ∃ m given b, (σ.models.find? fun m => m.name == s.target.name) = some m ∧
      Accumulated none given q.condition ∧ childQuery s keys σ = (.ok b, σ) ∧
      b.source = .table m.table none ∧ b.model = some m ∧
      b.condition = conjunction? (q.condition.toList ++ tests (some m.fields) s keys) ∧
      (∀ d c, compile d (.query b.query) = .ok c → (∀ e ∈ q.condition, e.KeepsPlace d) →
        ∃ before text behind, c.sql.toList = before ++ " WHERE ".toList ++ text ++ behind ∧
          (∃ e f n, b.condition = some e ∧ Sql.expr d e = .ok f ∧ text = f.chars d n) ∧
          ((∀ t ∈ tests (some m.fields) s keys, Confines d text t) ↔
            ¬ Watch.Opens d .outside text ∧ ∀ e ∈ q.condition, ¬ e.ShowsOr d)) ∧
      ∀ d, (∀ e ∈ given, e.IsConjunct d) → ∀ e ∈ q.condition, e.IsConjunct d := by
  have hquery := childQuery_apply s keys σ
  rw [hq] at hquery
  obtain ⟨m, hm, hcomposed⟩ : ∃ m, (σ.models.find? fun m => m.name == s.target.name) = some m ∧
      (Builder.ofModel m).Composed q := by
    unfold modifiedQuery at hq
    split at hq
    · cases hq
    · next m hm =>
      refine ⟨m, hm, ?_⟩
      split at hq
      · next change hchange =>
        obtain ⟨name, hname, hlookup⟩ := Option.bind_eq_some_iff.1 hchange
        exact hmodifier name hname change hlookup _ _ hq
      · cases hq
        exact .nothing _
  obtain ⟨hsource, hmodel, -, given, haccumulated⟩ := Builder.composed_accumulates hcomposed
  obtain ⟨hcondition, hsource', hmodel'⟩ := foldl_filter q (childCriteria s keys)
  have hfields : q.fields = some m.fields := congrArg (Option.map Model.fields) hmodel
  rw [hfields, conditions_childCriteria] at hcondition
  refine ⟨m, given, _, hm, haccumulated, hquery, hsource'.trans hsource, hmodel'.trans hmodel,
    hcondition, fun d c hc hkeeps => ?_, fun d hgiven =>
      isConjunct_accumulated haccumulated (fun e he => (Option.not_mem_none e he).elim) hgiven⟩
  -- there is always a test on the keys, so there is a condition
  obtain ⟨e, he⟩ : ∃ e,
      conjunction? (q.condition.toList ++ tests (some m.fields) s keys) = some e := by
    cases q.condition <;> exact ⟨_, rfl⟩
  obtain ⟨f, -, hf, rfl⟩ := compile_ok hc
  obtain ⟨g, hg, hstands⟩ := Sql.standsIn_select hf (hcondition.trans he)
  obtain ⟨before, behind, n, htext⟩ := hstands.chars d
  rw [Fragment.chars_append, Fragment.chars_text, ← List.append_assoc] at htext
  refine ⟨before, _, behind, (Fragment.toList_sql f).trans htext,
    ⟨e, g, _, hcondition.trans he, hg, rfl⟩, ?_⟩
  exact confines_iff hkeeps (fun x hx f hx' => isTest_tests hx hx') he hg _

/-- Posts, with tags. -/
def blogPost : Model :=
  oneRelation "Post" "posts" "main" [("tags", ⟨"Tag", "postId", .hasMany none, none, none⟩)]

/-- The relation from users to their posts, with a modifier. -/
def postsStep (modifier : String) : LoadStep where
  node := ⟨"posts", "posts", some modifier, "posts", false, []⟩
  owner := blogUser
  target := blogPost
  relation := ⟨"Post", "userId", .hasMany none, none, none⟩
  children := []

/-- Posts that are not hidden, or pinned. -/
def visible (b : Builder) : Builder :=
  (b.filter (.comparison "hidden" .equal (.value (.bool false)))).orFilter
    (.comparison "pinned" .equal (.value (.bool true)))

/-- One of two conditions, under a name. -/
def shown : Expr := .named (.binary .or (compareProperty none "pinned" .equal (.value (.bool true)))
  (compareProperty none "draft" .equal (.value (.bool false)))) "shown"

/-- A blog with modifiers for its posts. -/
def moderatedBlog : Session :=
  { Session.fresh with
    models := blog
    modifiers := [("visible", fun b => .ok (visible b)),
      ("shown", fun b => .ok (b.filter (.expression shown)))] }

theorem moderatedBlog_composed {name : String} {change : Builder → Except Error Builder}
    (h : moderatedBlog.modifiers.lookup name = some change) {b b' : Builder} (hb : change b = .ok b') :
    b.Composed b' := by
  obtain ⟨before, behind, hall, -⟩ := List.lookup_eq_some_iff.1 h
  have hmem : (name, change) ∈ moderatedBlog.modifiers := by
    rw [hall]
    exact List.mem_append_right _ List.mem_cons_self
  rcases List.mem_cons.1 hmem with heq | hmem
  · cases heq
    cases hb
    exact .call "where" [.value (.string "hidden"), .value (.bool false)] rfl
      (.call "orWhere" [.value (.string "pinned"), .value (.bool true)] rfl (.nothing _))
  · cases List.mem_singleton.1 hmem
    cases hb
    exact .call "where" [.expr shown] rfl (.nothing _)

/-- A text without dashes and slashes opens no comment. -/
theorem not_opens {d : Dialect} {cs : List Char} (h : '-' ∉ cs ∧ '/' ∉ cs) :
    ¬ Watch.Opens d .outside cs := by
  rintro ⟨before, opener, after, rfl, rfl | rfl, -⟩
  · exact h.1 (by simp)
  · exact h.2 (by simp)

theorem childQuery_confined_visible : ∃ b c before text behind,
    childQuery (postsStep "visible") [.number (.int 1), .number (.int 2)] moderatedBlog =
        (.ok b, moderatedBlog) ∧
      compile (.make .sqlite none) (.query b.query) = .ok c ∧
      c.sql = "SELECT * FROM posts WHERE (hidden = ? OR pinned = ?) AND posts.user_id IN (?, ?)" ∧
      c.sql.toList = before ++ " WHERE ".toList ++ text ++ behind ∧
      Confines (.make .sqlite none) text
        (keyCondition (postsStep "visible") [.number (.int 1), .number (.int 2)]) := by
  have hcompared (name : String) (v : Bool) :
      (compareProperty (some []) name .equal (.value (.bool v))).KeepsPlace (.make .sqlite none) := by
    obtain ⟨table, column, hcolumn⟩ := exists_column name
    obtain ⟨hint, hv⟩ := exists_literal (some []) name (.bool v)
    have hliteral : compareProperty (some []) name .equal (.value (.bool v)) = .binary .equal
      (propertyColumn name) (propertyValue (some []) name (.value (.bool v))) := rfl
    rw [hliteral, hcolumn, hv]
    exact (keepsPlace_of_fits (e := .binary .equal (.column table column none) (.literal (.bool v) hint))
      ⟨trivial, trivial⟩ fun _ => ⟨fun _ => trivial, fun _ => trivial⟩).1
  have hfits (e : Expr) (he : e ∈ (visible (.ofModel blogPost)).condition) :
      e.KeepsPlace (.make .sqlite none) ∧ ¬ e.ShowsOr (.make .sqlite none) := by
    cases he
    exact keepsPlace_or (hcompared "hidden" false) (hcompared "pinned" true)
  obtain ⟨m, given, b, -, -, hb, -, -, -, htext, -⟩ := childQuery_confined
    (σ := moderatedBlog) (s := postsStep "visible") [.number (.int 1), .number (.int 2)]
    (fun name _ change hchange _ _ hb => moderatedBlog_composed hchange hb)
    (show modifiedQuery moderatedBlog (postsStep "visible") = .ok (visible (.ofModel blogPost)) from rfl)
  obtain ⟨c, hc, hsql⟩ := compile_of_sql (d := .make .sqlite none) (s := .query b.query)
    "SELECT * FROM posts WHERE (hidden = ? OR pinned = ?) AND posts.user_id IN (?, ?)" (by
      obtain rfl := Except.ok.inj (Prod.mk.inj hb).1
      decide +kernel)
  obtain ⟨before, text, behind, hsplit, -, hconfines⟩ := htext _ c hc fun e he => (hfits e he).1
  -- a text without dashes and slashes opens no remark
  have hplain : '-' ∉ text ∧ '/' ∉ text := by
    have hwhole : '-' ∉ c.sql.toList ∧ '/' ∉ c.sql.toList := by
      rw [hsql]
      decide +kernel
    rw [hsplit] at hwhole
    simp only [List.mem_append, not_or] at hwhole
    exact ⟨hwhole.1.1.2, hwhole.2.1.2⟩
  exact ⟨b, c, before, text, behind, hb, hc, hsql, hsplit, hconfines.2
    ⟨not_opens hplain, fun e he => (hfits e he).2⟩ _ List.mem_cons_self⟩

/-- A name keeps the two conditions from their brackets, and the test for the keys is a part of the
second one only. -/
theorem childQuery_shown_unconfined : ¬ ∀ (σ : Session) (s : LoadStep) (keys : List Value) (b : Builder)
    (d : Dialect) (e : Expr) (f : Fragment) (n : Nat), keys ≠ [] →
    (∀ name ∈ s.node.modifier, ∀ change ∈ σ.modifiers.lookup name, ∀ b b',
      change b = .ok b' → b.Composed b') →
    childQuery s keys σ = (.ok b, σ) → b.condition = some e → Sql.expr d e = .ok f →
      Confines d (f.chars d n) (keyCondition s keys) := by
  intro hclaim
  have hquery : childQuery (postsStep "shown") [.number (.int 1)] moderatedBlog =
      (.ok ((childCriteria (postsStep "shown") [.number (.int 1)]).foldl Builder.filter
        ((Builder.ofModel blogPost).filter (.expression shown))), moderatedBlog) := rfl
  have hcomposed := hclaim moderatedBlog (postsStep "shown") [.number (.int 1)] _ (.make .sqlite none)
    _ _ 0 (List.cons_ne_nil _ _) (fun name _ change hchange _ _ hb => moderatedBlog_composed hchange hb)
    hquery rfl rfl
  obtain ⟨-, before, hentails⟩ := hcomposed
  refine not_entails ?_ _ hentails
  decide +kernel

end Loader
end PolyQuery
