import PolyQuery.Proofs.Parameters
import PolyQuery.Proofs.Phrase

/-! The values of a statement on different servers. They are the same wherever no list is split by one
server and not by the other, unless the test of that list binds no values itself:
`compile_bindings_eq`. -/
namespace PolyQuery

namespace Phrase

/-- The places of a phrase. -/
def slots (d : Dialect) : Phrase → List Slot
  | expr e => Slots.expr d e
  | query q => Slots.query d q

/-- The places that a phrase is itself, not those inside of it. -/
def ownSlots : Phrase → List Slot
  | expr (.literal value hint) => [.literal value hint]
  | expr (.raw _ parameters) => parameters.map .parameter
  | _ => []

/-- Nothing that is written in a phrase is a value. -/
def BindsNothing (p : Phrase) : Prop := ∀ m, Within written p m → m.ownSlots = []

end Phrase

namespace Sql
variable {α : Type} {size fuel : Nat} {xs : List α}

/-- The parts of a list are the list. -/
theorem flatten_chunks (hsize : 0 < size) (hfuel : xs.length ≤ fuel) :
    (chunks size fuel xs).flatten = xs := by
  induction fuel generalizing xs with
  | zero =>
    obtain rfl := List.length_eq_zero_iff.1 (Nat.le_zero.1 hfuel)
    rfl
  | succ fuel ih =>
    cases xs with
    | nil => rfl
    | cons x xs =>
      have hdrop : ((x :: xs).drop size).length ≤ fuel := by
        rw [List.length_drop]
        rw [List.length_cons] at hfuel ⊢
        omega
      rw [chunks, if_neg (by simp), List.flatten_cons, ih hdrop, List.take_append_drop]

/-- A short list is not split. -/
theorem chunks_whole (hne : xs ≠ []) (hfuel : xs.length = fuel) (hsize : xs.length ≤ size) :
    chunks size fuel xs = [xs] := by
  subst hfuel
  cases xs with
  | nil => exact (hne rfl).elim
  | cons x xs =>
    have hrest : chunks size xs.length ([] : List α) = [] := by
      cases xs.length <;> rfl
    rw [List.length_cons, chunks, if_neg (by simp), List.take_of_length_le hsize,
      List.drop_of_length_le hsize, hrest]

/-- Nothing but what is in the list comes of its parts when nothing stands in front of them. -/
theorem flatMap_chunks {xs : List (List α)} (hsize : 0 < size) (hfuel : xs.length ≤ fuel) :
    (chunks size fuel xs).flatMap (fun part => [] ++ part.flatten) = xs.flatten := by
  calc (chunks size fuel xs).flatMap (fun part => [] ++ part.flatten)
      = (chunks size fuel xs).flatMap List.flatten := rfl
    _ = (chunks size fuel xs).flatten.flatten := by rw [List.flatMap_def, List.flatten_flatten]
    _ = xs.flatten := by rw [flatten_chunks hsize hfuel]

theorem flatMap_chunks_eq_nil {xs : List (List α)} {s : List α} (hsize : 0 < size)
    (hfuel : xs.length ≤ fuel) (hne : xs ≠ []) :
    (chunks size fuel xs).flatMap (fun part => s ++ part.flatten) = [] ↔
      s = [] ∧ ∀ x ∈ xs, x = [] := by
  have hflatten := flatten_chunks hsize hfuel
  constructor
  · intro h
    have hs : s = [] := by
      have hparts : chunks size fuel xs ≠ [] := by
        rintro heq
        rw [heq] at hflatten
        exact hne hflatten.symm
      obtain ⟨part, hpart⟩ := List.exists_mem_of_ne_nil _ hparts
      exact (List.append_eq_nil_iff.1 (List.flatMap_eq_nil_iff.1 h part hpart)).1
    subst hs
    rw [flatMap_chunks hsize hfuel] at h
    exact ⟨rfl, List.flatten_eq_nil_iff.1 h⟩
  · rintro ⟨rfl, h⟩
    rw [flatMap_chunks hsize hfuel]
    exact List.flatten_eq_nil_iff.2 h

end Sql

namespace Dialect

/-- Lists are split into parts that have items. -/
theorem chunkSize_pos {d : Dialect} {values : List Expr} (hne : values ≠ []) :
    0 < d.maxInList.getD values.length := by
  unfold maxInList
  split
  · exact Nat.succ_pos 999
  · exact List.length_pos_iff.2 hne

/-- Only lists of more than a thousand values are split. -/
theorem length_le_chunkSize {d : Dialect} {values : List Expr} (h : values.length ≤ 1000) :
    values.length ≤ d.maxInList.getD values.length := by
  unfold maxInList
  split
  · exact h
  · exact Nat.le_refl _

end Dialect

namespace Slots
open Phrase
variable (d : Dialect)

theorem exprs_eq (es : List Expr) : exprs d es = es.map (expr d) := by
  induction es with
  | nil => rfl
  | cons e es ih => rw [exprs, ih, List.map_cons]

theorem flatten_exprs (es : List Expr) : (exprs d es).flatten = es.flatMap (expr d) := by
  rw [exprs_eq, List.flatMap_def]

theorem optional_eq (o : Option Expr) : optional d o = o.toList.flatMap (expr d) := by
  cases o with
  | none => rfl
  | some e => exact (List.flatMap_singleton ..).symm

theorem terms_eq (ts : List OrderTerm) :
    terms d ts = (ts.map OrderTerm.expression).flatMap (expr d) := by
  induction ts with
  | nil => rfl
  | cons t ts ih =>
    obtain ⟨e, direction⟩ := t
    rw [terms, ih, List.map_cons, List.flatMap_cons]

theorem window_eq (w : Window) : window d w = w.expressions.flatMap (expr d) := by
  obtain ⟨partitionBy, orderBy, frame⟩ := w
  rw [window, flatten_exprs, terms_eq, Window.expressions, List.flatMap_append]

theorem optionalWindow_eq (o : Option Window) :
    optionalWindow d o = (o.toList.flatMap Window.expressions).flatMap (expr d) := by
  cases o with
  | none => rfl
  | some w =>
    rw [optionalWindow, window_eq]
    simp

theorem branches_eq (bs : List Branch) :
    branches d bs = (bs.flatMap Branch.expressions).flatMap (expr d) := by
  induction bs with
  | nil => rfl
  | cons b bs ih =>
    obtain ⟨condition, result⟩ := b
    rw [branches, ih]
    simp [Branch.expressions]

theorem cteList_eq (cs : List Cte) : cteList d cs = (cs.map Cte.query).flatMap (query d) := by
  induction cs with
  | nil => rfl
  | cons c cs ih =>
    obtain ⟨name, body, columns, materialized, recursive⟩ := c
    rw [cteList, cte, ih, List.map_cons, List.flatMap_cons]

theorem source_eq (s : Source) : source d s = s.query?.toList.flatMap (query d) := by
  cases s with
  | table name shown => rfl
  | query q shown => exact (List.flatMap_singleton ..).symm

theorem optionalSource_eq (o : Option Source) :
    optionalSource d o = (o.toList.filterMap Source.query?).flatMap (query d) := by
  cases o with
  | none => rfl
  | some s =>
    rw [optionalSource, source_eq]
    cases s <;> rfl

theorem joins_eq (js : List Join) : joins d js = js.flatMap fun j =>
    j.target.query?.toList.flatMap (query d) ++ j.on.toList.flatMap (expr d) := by
  induction js with
  | nil => rfl
  | cons j js ih =>
    obtain ⟨kind, target, on, blank⟩ := j
    rw [joins, join, source_eq, optional_eq, ih, List.flatMap_cons]

end Slots

namespace Phrase
open Slots
variable {d d' : Dialect} {p : Phrase}

/-- The phrases in a phrase, in the order of its text. -/
def parts : Phrase → List Phrase
  | query (.select p) =>
    (p.ctes.map Cte.query).map query ++ p.items.map expr ++
      (p.source.toList.filterMap Source.query?).map query ++
      p.joins.flatMap (fun j => j.target.query?.toList.map query ++ j.on.toList.map expr) ++
      p.condition.toList.map expr ++ p.groupBy.map expr ++ p.having.toList.map expr ++
      (p.orderBy.map OrderTerm.expression).map expr
  | p => p.inner

theorem mem_parts {c : Phrase} : c ∈ p.parts ↔ c ∈ p.inner := by
  cases p with
  | expr e => exact Iff.rfl
  | query q =>
    cases q with
    | combined p => exact Iff.rfl
    | select p =>
      simp only [parts, inner, SelectPlan.queries, SelectPlan.sources, SelectPlan.expressions,
        List.mem_append, List.mem_map, List.mem_flatMap, List.mem_filterMap, Option.mem_toList]
      grind

theorem flatMap_slots_exprs (es : List Expr) :
    (es.map expr).flatMap (slots d) = es.flatMap (Slots.expr d) := by
  rw [List.flatMap_map]
  rfl

theorem flatMap_slots_queries (qs : List Query) :
    (qs.map query).flatMap (slots d) = qs.flatMap (Slots.query d) := by
  rw [List.flatMap_map]
  rfl

/-- All but membership tests take the places of their parts one after another. -/
theorem slots_eq (h : ∀ e values negated, p ≠ expr (.inList e values negated)) :
    p.slots d = p.ownSlots ++ p.parts.flatMap (slots d) := by
  cases p with
  | expr e =>
    cases e with
    | inList e values negated => exact (h e values negated rfl).elim
    | column table name shown => rfl
    | star table => rfl
    | literal value hint => rfl
    | raw sql parameters => exact (List.append_nil _).symm
    | subquery q => exact (List.flatMap_singleton ..).symm
    | unary op e => exact (List.flatMap_singleton ..).symm
    | named e name => exact (List.flatMap_singleton ..).symm
    | binary op left right =>
      change Slots.expr d left ++ Slots.expr d right = _ ++ (_ ++ [])
      rw [List.append_nil]
      rfl
    | inQuery e q negated =>
      change Slots.expr d e ++ Slots.query d q = _ ++ (_ ++ [])
      rw [List.append_nil]
      rfl
    | call name arguments distinct windowed =>
      change (Slots.exprs d arguments).flatten ++ Slots.optionalWindow d windowed =
        (List.map expr _).flatMap _
      rw [flatten_exprs, optionalWindow_eq, flatMap_slots_exprs, List.flatMap_append]
    | window w =>
      change Slots.window d w = (List.map expr _).flatMap _
      rw [window_eq, flatMap_slots_exprs]
    | cases branches otherwise =>
      change Slots.branches d branches ++ Slots.optional d otherwise = (List.map expr _).flatMap _
      rw [branches_eq, optional_eq, flatMap_slots_exprs, List.flatMap_append]
  | query q =>
    cases q with
    | select p =>
      obtain ⟨items, source, joins, condition, groupBy, having, orderBy, pagination, distinct,
        ctes⟩ := p
      -- the query of a join and its condition are parts side by side
      have hjoins : (joins.flatMap fun j => j.target.query?.toList.map query ++
          j.on.toList.map expr).flatMap (slots d) = Slots.joins d joins := by
        rw [joins_eq, List.flatMap_assoc]
        simp only [List.flatMap_append, flatMap_slots_exprs, flatMap_slots_queries]
      change Slots.select d _ = List.flatMap _ (_ ++ _)
      simp only [Slots.select, List.flatMap_append, flatMap_slots_exprs, flatMap_slots_queries,
        flatten_exprs, optional_eq, terms_eq, cteList_eq, optionalSource_eq, hjoins]
    | combined p =>
      obtain ⟨operator, all, left, right, orderBy, pagination, ctes⟩ := p
      change Slots.combined d _ = List.flatMap _ (List.map query (_ ++ _) ++ List.map expr _)
      rw [List.flatMap_append, flatMap_slots_exprs, flatMap_slots_queries, Slots.combined,
        cteList_eq, terms_eq, List.flatMap_append, List.flatMap_cons, List.flatMap_singleton]
      simp only [List.append_assoc]
      rfl

theorem slots_inList (e : Expr) (values : List Expr) (negated : Bool) :
    (expr (.inList e values negated)).slots d =
      (Sql.chunks (d.maxInList.getD values.length) values.length (values.map (Slots.expr d))).flatMap
        fun part => (expr e).slots d ++ part.flatten := by
  rw [← exprs_eq]
  rfl

theorem written_eq (h : ∀ e values negated, p ≠ expr (.inList e values negated)) :
    p.written = p.inner := by
  unfold written
  split
  · exact (h _ _ _ rfl).elim
  · rfl

theorem bindsNothing_iff :
    p.BindsNothing ↔ p.ownSlots = [] ∧ ∀ c ∈ p.written, c.BindsNothing := forall_within

/-- A phrase binds nothing exactly when it has no places, whatever the server. -/
theorem slots_eq_nil_iff (p : Phrase) : p.slots d = [] ↔ p.BindsNothing := by
  induction p using Phrase.induct with
  | h p ih =>
    have hall : (∀ c ∈ p.inner, c.slots d = []) ↔ ∀ c ∈ p.inner, c.BindsNothing :=
      forall₂_congr ih
    rw [bindsNothing_iff]
    -- only a membership test may take the places of a part of it more than once
    by_cases hp : ∃ e values negated, p = expr (.inList e values negated)
    · obtain ⟨e, values, negated, rfl⟩ := hp
      rw [slots_inList]
      cases values with
      | nil => simp [Sql.chunks, ownSlots, written]
      | cons v vs =>
        rw [Sql.flatMap_chunks_eq_nil (Dialect.chunkSize_pos (List.cons_ne_nil v vs))
          (Nat.le_of_eq (List.length_map _)) (mt List.map_eq_nil_iff.1 (List.cons_ne_nil v vs)),
          List.forall_mem_map]
        have hinner : (∀ c ∈ (expr (.inList e (v :: vs) negated)).inner, c.slots d = []) ↔
            (expr e).slots d = [] ∧ ∀ x ∈ v :: vs, Slots.expr d x = [] :=
          List.forall_mem_cons.trans (and_congr_right' List.forall_mem_map)
        change _ ↔ [] = [] ∧ ∀ c ∈ (expr (.inList e (v :: vs) negated)).inner, c.BindsNothing
        rw [← hall, hinner]
        exact (and_iff_right rfl).symm
    · have hlist : ∀ e values negated, p ≠ expr (.inList e values negated) :=
        fun e values negated h => hp ⟨e, values, negated, h⟩
      rw [slots_eq hlist, written_eq hlist, ← hall, List.append_eq_nil_iff, List.flatMap_eq_nil_iff]
      simp only [mem_parts]

/-- A membership test has at most a thousand values, or binds none in front of its list. -/
def Portable : Phrase → Prop
  | expr (.inList e values _) => values.length ≤ 1000 ∨ (expr e).BindsNothing
  | _ => True

/-- Two servers have the same places unless only one of them splits a list that repeats values. -/
theorem slots_congr (p : Phrase)
    (h : ∀ m, Within written p m → d.maxInList = d'.maxInList ∨ m.Portable) :
    p.slots d = p.slots d' := by
  induction p using Phrase.induct with
  | h p ih =>
    by_cases hp : ∃ e values negated, p = expr (.inList e values negated)
    · obtain ⟨e, values, negated, rfl⟩ := hp
      cases values with
      | nil => rfl
      | cons v vs =>
        have hinner : ∀ c ∈ expr e :: (v :: vs).map expr, c.slots d = c.slots d' := fun c hc =>
          ih c hc fun m hm => h m (within_iff.2 (.inr ⟨c, hc, hm⟩))
        obtain ⟨he, hvalues⟩ := List.forall_mem_cons.1 hinner
        have hvalues : (v :: vs).map (Slots.expr d) = (v :: vs).map (Slots.expr d') :=
          List.map_congr_left (List.forall_mem_map.1 hvalues)
        have hpos {d : Dialect} := Dialect.chunkSize_pos (d := d) (List.cons_ne_nil v vs)
        rw [slots_inList, slots_inList, he, hvalues]
        -- both split the list alike, or neither splits it, or nothing that a split repeats is a value
        obtain hsame | hshort | hnothing := h _ .refl
        · rw [hsame]
        · have hwhole {d : Dialect} : Sql.chunks (d.maxInList.getD (v :: vs).length) (v :: vs).length
              ((v :: vs).map (Slots.expr d')) = [(v :: vs).map (Slots.expr d')] := by
            refine Sql.chunks_whole (List.cons_ne_nil _ _) (List.length_map _) ?_
            rw [List.length_map]
            exact Dialect.length_le_chunkSize hshort
          rw [hwhole, hwhole]
        · rw [(slots_eq_nil_iff _).2 hnothing]
          have hlength : ((v :: vs).map (Slots.expr d')).length ≤ (v :: vs).length :=
            Nat.le_of_eq (List.length_map _)
          rw [Sql.flatMap_chunks hpos hlength, Sql.flatMap_chunks hpos hlength]
    · have hlist : ∀ e values negated, p ≠ expr (.inList e values negated) :=
        fun e values negated h => hp ⟨e, values, negated, h⟩
      have hwritten : p.written = p.inner := written_eq hlist
      rw [slots_eq hlist, slots_eq hlist, List.flatMap_def, List.flatMap_def]
      refine congrArg (p.ownSlots ++ List.flatten ·) (List.map_congr_left fun c hc => ?_)
      have hc := mem_parts.1 hc
      exact ih c hc fun m hm => h m (within_iff.2 (.inr ⟨c, hwritten ▸ hc, hm⟩))

end Phrase

theorem Slots.statement_eq (d : Dialect) (s : Statement) :
    Slots.statement d s = s.phrases.flatMap (Phrase.slots d) := by
  cases s with
  | query q => exact (List.flatMap_singleton ..).symm
  | insert p =>
    have hrows : (p.rows.flatMap (exprs d)).flatten = p.rows.flatten.flatMap (expr d) := by
      have hmap : exprs d = List.map (expr d) := funext (exprs_eq d)
      rw [hmap, List.flatMap_def, ← List.map_flatten, ← List.flatMap_def]
    rw [statement, hrows, flatten_exprs]
    simp only [Statement.phrases, Phrase.flatMap_slots_exprs, List.flatMap_append]
  | update p =>
    rw [statement, flatten_exprs, flatten_exprs, optional_eq]
    simp only [Statement.phrases, Phrase.flatMap_slots_exprs, List.flatMap_append]
  | delete p =>
    rw [statement, flatten_exprs, optional_eq]
    simp only [Statement.phrases, Phrase.flatMap_slots_exprs, List.flatMap_append]

/-- Servers that split no list of a statement differently have the same places for its values. -/
theorem Slots.statement_congr {d d' : Dialect} {s : Statement}
    (h : ∀ m, s.Has Phrase.written m → d.maxInList = d'.maxInList ∨ m.Portable) :
    Slots.statement d s = Slots.statement d' s := by
  rw [statement_eq, statement_eq, List.flatMap_def, List.flatMap_def]
  refine congrArg List.flatten (List.map_congr_left fun p hp => ?_)
  exact Phrase.slots_congr p fun m hm => h m ⟨p, hp, hm⟩

/-- A compiled statement binds the values of its places. -/
theorem compile_bindings {d : Dialect} {s : Statement} {c : Compiled} (h : compile d s = .ok c) :
    c.bindings = (Slots.statement d s).map Slot.binding := by
  obtain ⟨f, _, hf, rfl⟩ := compile_ok h
  exact Sql.statement_bindings s hf

/-- A statement that compiles for two servers binds the same values on both, with the same hints, when
each membership test in it has at most a thousand values or binds no values in front of its list. -/
theorem compile_bindings_eq {d d' : Dialect} {s : Statement} {c c' : Compiled}
    (hlists : ∀ m, s.Has Phrase.written m → m.Portable)
    (hc : compile d s = .ok c) (hc' : compile d' s = .ok c') :
    c.parameters = c'.parameters ∧ c.bindings = c'.bindings := by
  have hslots : Slots.statement d s = Slots.statement d' s :=
    Slots.statement_congr fun m hm => .inr (hlists m hm)
  have hbindings : c.bindings = c'.bindings := by
    rw [compile_bindings hc, compile_bindings hc', hslots]
  exact ⟨congrArg (List.map Binding.value) hbindings, hbindings⟩

/-- Names in a list, a condition on their group and a page of them. -/
def pagedNames : Statement := .query (.select
  { SelectPlan.all (some (.table "t" none)) with
    condition := some (.inList (.column none "name" none)
      [.literal (.string "x") ⟨"string", none, none⟩, .literal .undefined ⟨"null", none, none⟩] false)
    having := some (.raw "count(*) > ?" [.number (.int 1)])
    groupBy := [.column none "name" none]
    orderBy := [⟨.column none "name" none, .ascending⟩]
    pagination := some ⟨some (.number (.int 10)), some (.number (.int 5))⟩ })

theorem compile_bindings_eq_pagedNames :
    (∀ m, pagedNames.Has Phrase.written m → m.Portable) ∧
    ∃ c c', compile (.make .postgres none) pagedNames = .ok c ∧
      c.sql = "SELECT * FROM t WHERE name IN ($1, $2) GROUP BY name HAVING count(*) > $3 " ++
        "ORDER BY name ASC LIMIT 10 OFFSET 5" ∧
      compile ⟨.oracle, .of 11 2 0⟩ pagedNames = .ok c' ∧
      c'.sql = "SELECT * FROM (SELECT q_.*, ROWNUM rn_ FROM (SELECT * FROM t WHERE name IN " ++
        "(:p1, :p2) GROUP BY name HAVING count(*) > :p3 ORDER BY name ASC) q_ " ++
        "WHERE ROWNUM <= 15) WHERE rn_ > 5" ∧
      c.parameters = [.string "x", .null, .number (.int 1)] ∧
      c.parameters = c'.parameters ∧ c.bindings = c'.bindings := by
  have hlists : ∀ m, pagedNames.Has Phrase.written m → m.Portable := by
    rintro m ⟨root, hroot, hm⟩
    obtain rfl := List.mem_singleton.1 hroot
    -- an expression without parts has only itself to look at
    have hleaf {e : Expr} (he : (Phrase.expr e).inner = []) (hp : (Phrase.expr e).Portable) :
        ∀ m, Phrase.Within Phrase.written (.expr e) m → m.Portable :=
      Phrase.forall_within.2 ⟨hp, fun c hc => by
        have hc := Phrase.written_subset _ c hc
        rw [he] at hc
        cases hc⟩
    have hcondition : ∀ c ∈ (Phrase.expr (.inList (.column none "name" none)
        [.literal (.string "x") ⟨"string", none, none⟩, .literal .undefined ⟨"null", none, none⟩]
        false)).written, ∀ m, Phrase.Within Phrase.written c m → m.Portable := by
      simp only [Phrase.written, Phrase.inner, List.map_cons, List.map_nil, List.forall_mem_cons]
      exact ⟨hleaf rfl trivial, hleaf rfl trivial, hleaf rfl trivial, List.forall_mem_nil _⟩
    refine Phrase.forall_within.2 ⟨trivial, ?_⟩ m hm
    change ∀ c ∈ [_, _, _, _], _
    simp only [List.forall_mem_cons]
    exact ⟨Phrase.forall_within.2 ⟨.inl (by decide), hcondition⟩, hleaf rfl trivial,
      hleaf rfl trivial, hleaf rfl trivial, List.forall_mem_nil _⟩
  obtain ⟨c, hc, hsql⟩ := compile_of_sql (d := .make .postgres none) (s := pagedNames)
    ("SELECT * FROM t WHERE name IN ($1, $2) GROUP BY name HAVING count(*) > $3 " ++
      "ORDER BY name ASC LIMIT 10 OFFSET 5") (by decide +kernel)
  obtain ⟨c', hc', hsql'⟩ := compile_of_sql (d := ⟨.oracle, .of 11 2 0⟩) (s := pagedNames)
    ("SELECT * FROM (SELECT q_.*, ROWNUM rn_ FROM (SELECT * FROM t WHERE name IN " ++
      "(:p1, :p2) GROUP BY name HAVING count(*) > :p3 ORDER BY name ASC) q_ " ++
      "WHERE ROWNUM <= 15) WHERE rn_ > 5") (by decide +kernel)
  refine ⟨hlists, c, c', hc, hsql, hc', hsql', ?_, compile_bindings_eq hlists hc hc'⟩
  rw [Compiled.parameters, compile_bindings hc]
  rfl

end PolyQuery
