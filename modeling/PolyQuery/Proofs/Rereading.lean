import PolyQuery.Proofs.Cells
import PolyQuery.Proofs.Parameters
import PolyQuery.Proofs.Replies

/-! What is told of a change by key. Where the server returns rows, the answer is what it returned.
Elsewhere the row is read again, by the key that it had before the change, and is found if it still
has that key: `Table.updateKey_tells_iff`. -/
namespace PolyQuery
variable {d : Dialect} {r : Registry}

/-! ## The statement that reads a row again -/

theorem bindAll_eq_ok {bindings : List Binding} :
    (∃ values, bindAll bindings d r = .ok values) ↔ ∀ b ∈ bindings, ∃ v, b.bind d r = .ok v := by
  induction bindings with
  | nil => exact ⟨fun _ b h => (List.not_mem_nil h).elim, fun _ => ⟨[], rfl⟩⟩
  | cons b rest ih =>
    rw [List.forall_mem_cons, ← ih]
    constructor
    · rintro ⟨values, h⟩
      rw [bindAll, List.mapM_cons] at h
      obtain ⟨v, hv, h⟩ := bind_eq_ok.1 h
      obtain ⟨others, hothers, -⟩ := bind_eq_ok.1 h
      exact ⟨⟨v, hv⟩, others, hothers⟩
    · rintro ⟨⟨v, hv⟩, others, hothers⟩
      rw [bindAll] at hothers
      refine ⟨v :: others, ?_⟩
      rw [bindAll, List.mapM_cons, hv, hothers]
      rfl

/-- The first row of a table that meets a condition. -/
def SelectPlan.first (table : String) (e : Expr) : SelectPlan where
  items := []
  source := some (.table table none)
  joins := []
  condition := some e
  groupBy := []
  having := none
  orderBy := []
  pagination := some ⟨some (.number (.int 1)), none⟩
  distinct := false
  ctes := []

/-- A limit without an offset is written by every dialect. -/
theorem Paging.finish_limit (d : Dialect) (v : Value) :
    ∃ finished : Fragment → Fragment → Fragment, ∀ core order,
      finish d core order false (some ⟨some v, none⟩)
        (Sql.topLimit d (some ⟨some v, none⟩)).isSome = .ok (finished core order) := by
  have hpaged : isWhole (some v) none ≠ true := Bool.false_ne_true
  simp only [finish, Option.bind_some, if_neg hpaged]
  cases hstyle : d.paginationStyle with
  | limitOffset => exact ⟨_, fun _ _ => rfl⟩
  | offsetFetch => exact ⟨_, fun _ _ => rfl⟩
  | rownum => exact ⟨_, fun _ _ => rfl⟩
  | top =>
    rw [Sql.topLimit, if_pos hstyle]
    exact ⟨_, fun _ _ => rfl⟩

/-- Where the rows that meet a condition can be changed, the first of them can be read, and no other
values are bound for it. -/
theorem compile_first {p : UpdatePlan} {e : Expr} {compiled : Compiled}
    (h : compile d (.update p) = .ok compiled) (he : p.condition = some e) (table : String) :
    ∃ c, compile d (.query (.select (.first table e))) = .ok c ∧
      c.bindings ⊆ compiled.bindings := by
  obtain ⟨g, hcheck, hwritten, rfl⟩ := compile_ok h
  have hchecked : Plan.checkExpr e = .ok () := by
    rw [Plan.check, Plan.checkUpdate] at hcheck
    obtain ⟨-, hcheck⟩ := guarded_eq_ok hcheck
    obtain ⟨-, hcheck⟩ := guarded_eq_ok hcheck
    obtain ⟨_, hcondition, -⟩ := bind_eq_ok.1 hcheck
    rwa [he] at hcondition
  obtain ⟨f, hf⟩ : ∃ f, Sql.expr d e = .ok f := by
    obtain ⟨_, condition, _, -, hcondition, -⟩ := Sql.update_ok hwritten
    rw [he] at hcondition
    obtain ⟨f, hf, -⟩ := Sql.optional_some_ok hcondition
    exact ⟨f, hf⟩
  have hwhere : Sql.optional d (some e) = .ok (some f) := by
    rw [Sql.optional, hf]
    rfl
  obtain ⟨body, hselect⟩ :
      ∃ body, Sql.statement d (.query (.select (.first table e))) = .ok body := by
    obtain ⟨finished, hfinished⟩ := Paging.finish_limit d (.number (.int 1))
    rw [Sql.statement, Sql.query, SelectPlan.first, Sql.select, hwhere]
    change ∃ body, (Paging.finish d _ _ false _ _ >>= _) = _
    rw [hfinished]
    exact ⟨_, rfl⟩
  have hvalid : Plan.check (.query (.select (.first table e))) = .ok () := by
    have hcondition : Plan.checkOptional (some e) = .ok () := hchecked
    rw [Plan.check, Plan.checkQuery, SelectPlan.first, Plan.checkSelect, hcondition]
    rfl
  -- all that the query binds is what its condition binds, which the change binds as well
  refine ⟨⟨body.sql d, body.bindings⟩, ?_, ?_⟩
  · rw [compile, hvalid, hselect]
    rfl
  · intro b hb
    change b ∈ body.bindings at hb
    change b ∈ g.bindings
    rw [Sql.statement_bindings _ hselect, List.mem_map] at hb
    rw [Sql.statement_bindings _ hwritten, List.mem_map]
    obtain ⟨slot, hslot, rfl⟩ := hb
    refine ⟨slot, ?_, rfl⟩
    have hslots : Slots.statement d (.query (.select (.first table e))) =
        Slots.optional d (some e) := by
      rw [Slots.statement, Slots.query, SelectPlan.first, Slots.select]
      simp [Slots.cteList, Slots.exprs, Slots.optionalSource, Slots.source, Slots.joins,
        Slots.optional, Slots.terms]
    rw [hslots] at hslot
    rw [Slots.statement, he]
    exact List.mem_append_left _ (List.mem_append_right _ hslot)

/-! ## A server that keeps a table -/

/-- A condition on a column: that it is a value, or that it has none. -/
inductive Expr.Compares (column : String) : Expr → Prop where
  | equal (table shown : Option String) (v : Value) (hint : Hint) :
      Compares column (.binary .equal (.column table column shown) (.literal v hint))
  | isNull (table shown : Option String) :
      Compares column (.unary .isNull (.column table column shown))

/-- A server that keeps a table: which rows meet a condition, and what assignments make of a row. A
column that is not assigned stays as it is, and a condition on a column depends on that column
alone. -/
structure Keeper where
  meets : Expr → Row → Bool
  assigned : List Assignment → Row → Row
  lookup_assigned : ∀ {assignments row column}, column ∉ assignments.map Assignment.column →
    (assigned assignments row).lookup column = row.lookup column
  meets_congr : ∀ {e column row other}, e.Compares column →
    row.lookup column = other.lookup column → meets e row = meets e other

namespace Keeper
variable (k : Keeper) {e : Expr} {assignments : List Assignment} {rows : List Row}

/-- The rows after a change of those that meet a condition. -/
def changed (e : Expr) (assignments : List Assignment) (rows : List Row) : List Row :=
  rows.map fun row => if k.meets e row then k.assigned assignments row else row

/-- The reply to a change: the changed rows, if they are to be returned, and their number. -/
def changeReply (e : Expr) (assignments : List Assignment) (returning : List Expr)
    (rows : List Row) : Reply :=
  .rows (if returning.isEmpty then [] else (rows.filter (k.meets e)).map (k.assigned assignments))
    (some (.int (rows.filter (k.meets e)).length))

/-- The reply to a query for the first row that meets a condition. -/
def firstReply (e : Expr) (rows : List Row) : Reply := .rows ((rows.filter (k.meets e)).take 1) none

/-- What a change makes of the row that meets its condition. -/
def outcome (e : Expr) (assignments : List Assignment) (rows : List Row) : Option Row :=
  (rows.find? (k.meets e)).map (k.assigned assignments)

/-- Rows that meet a condition meet it after the change too. -/
def Keeps (e : Expr) (assignments : List Assignment) (rows : List Row) : Prop :=
  ∀ row ∈ rows, k.meets e row = true → k.meets e (k.assigned assignments row) = true

theorem filter_changed (e : Expr) (assignments : List Assignment) (rows : List Row) :
    (k.changed e assignments rows).filter (k.meets e) =
      ((rows.filter (k.meets e)).map (k.assigned assignments)).filter (k.meets e) := by
  induction rows with
  | nil => rfl
  | cons row rest ih =>
    rw [changed] at ih ⊢
    rw [List.map_cons]
    by_cases hrow : k.meets e row = true
    · rw [if_pos hrow, List.filter_cons_of_pos hrow, List.map_cons, List.filter_cons,
        List.filter_cons, ih]
    · rw [if_neg hrow, List.filter_cons_of_neg hrow, List.filter_cons_of_neg hrow, ih]

/-- A change that does not assign the column of a condition keeps the rows that meet it. -/
theorem keeps_of_notMem {column : String} (hcompares : e.Compares column)
    (h : column ∉ assignments.map Assignment.column) : k.Keeps e assignments rows := by
  intro row _ hrow
  rw [k.meets_congr hcompares (k.lookup_assigned h), hrow]

end Keeper

namespace Table
variable {t : Table} {id : Operand} {data : List (String × Operand)} {σ τ υ : Session}
  {c : Channel} {k : Keeper} {rows : List Row}

/-! ## Keys -/

/-- The column of the primary key. -/
def keyColumn (t : Table) : String :=
  match propertyColumn t.model.primaryKey with
  | .column _ name _ => name
  | _ => ""

theorem keyColumn_spec (t : Table) :
    ∃ table, propertyColumn t.model.primaryKey = .column table t.keyColumn none := by
  rw [keyColumn, propertyColumn, Expr.reference]
  split
  · split
    · exact ⟨_, rfl⟩
    · exact ⟨_, rfl⟩
  · exact ⟨_, rfl⟩

/-- The condition for a key is one on its column. -/
theorem compares_keyCondition (hid : ∀ e, id ≠ .expr e) :
    (t.keyCondition id).Compares t.keyColumn := by
  obtain ⟨table, hcolumn⟩ := t.keyColumn_spec
  rw [keyCondition, compareProperty, hcolumn, propertyValue_eq hid]
  split
  · exact .isNull ..
  · exact .equal ..

/-! ## Answers -/

/-- An answer tells of a row by the record as which it is read, and of no row by none. -/
inductive Tells (t : Table) (d : Dialect) (r : Registry) (s : Store) :
    Option Row → Option Nat → Prop where
  | nothing : Tells t d r s none none
  | record {row record : Row} {n : Nat} (hread : decodeRow t.fields d r row = .ok record)
      (hthere : s.records[n]? = some (.ofRow record)) : Tells t d r s (some row) (some n)

/-- The record with a key, as the reply to the query for it says. -/
theorem find_apply {result : ResultSet} {records : List Row} (hknown : σ.Knows t.model)
    (hsend : t.send (fun _ => .query (.select (.first t.model.table (t.keyCondition id)))) σ =
      (.ok (d, result), υ))
    (hread : decodeRows t.fields d υ.registry result.rows = .ok records) :
    t.find id σ = (.ok (υ.store.addRows records).1.head?,
      { υ with store := (υ.store.addRows records).2 }) := by
  have hall := Run.all_of_ask (w := .awaiting)
    (b := (t.builder.filter (.expression (t.keyCondition id))).setLimit (some (.number (.int 1))))
    rfl hsend hread
  rw [find, Run.bind_ok (query_apply hknown), Run.one, Run.bind_ok hall]
  rfl

/-- Where the server returns no rows, a write tells how many there were. -/
theorem write_counted (statement : List Expr → Statement) {result : ResultSet}
    (hreturned : returned d = [])
    (hsend : t.send (fun d => statement (returned d)) σ = (.ok (d, result), υ)) :
    t.write statement σ = (.ok ⟨[], result.count⟩, υ) := by
  rw [write, Run.bind_ok hsend]
  dsimp only
  rw [hreturned]
  rfl

/-- Where the server returns rows, a write gives them as records. -/
theorem write_returned (statement : List Expr → Statement) {result : ResultSet}
    {records : List Row} (hreturned : returned d ≠ [])
    (hsend : t.send (fun d => statement (returned d)) σ = (.ok (d, result), υ))
    (hread : decodeRows t.fields d υ.registry result.rows = .ok records) :
    t.write statement σ =
      (.ok ⟨(υ.store.addRows records).1, .int result.rows.length⟩,
        { υ with store := (υ.store.addRows records).2 }) := by
  rw [write, Run.bind_ok hsend]
  dsimp only
  rw [if_neg (List.isEmpty_iff.not.2 hreturned), Run.bind_ok (Run.session_apply υ),
    Run.bind_ok (Run.ofExcept_ok hread υ)]
  rfl

/-- The change of the record with a key. -/
def keyChange (t : Table) (id : Operand) (data : List (String × Operand)) : RowChange :=
  (t.update data).filter (.expression (t.keyCondition id))

/-- The statement of a change, with what it asks to be returned. -/
abbrev changing (u : RowChange) (returning : List Expr) : Statement := .update (u.plan returning)

/-- A change by key that assigns nothing is refused before it is sent. -/
theorem refuses_updateKey (hnothing : (t.update data).assignments = []) :
    t.Refuses σ (t.updateKey id data) .updateWithoutAssignments := by
  have hcheck (returning : List Expr) :
      Plan.check (changing (t.keyChange id data) returning) = fault .updateWithoutAssignments := by
    have hassigned : ((t.keyChange id data).plan returning).assignments = [] := hnothing
    rw [Plan.check, Plan.checkUpdate, hassigned]
    rfl
  rw [updateKey, RowChange.run, write, bind_assoc]
  exact refuses_send fun d => hcheck (returned d)

/-- A table is kept by a server: it can be reached, a change of the row with a key is accepted
there, no two rows have the key, and the changed row can be read. The server replies to the change,
and to the query that follows it where the change returns no rows. -/
structure Kept (t : Table) (k : Keeper) (rows : List Row) (id : Operand)
    (data : List (String × Operand)) (σ : Session) (c : Channel) (τ : Session) : Prop where
  known : σ.Knows t.model
  target : t.target σ = (.ok c, τ)
  takes : τ.Takes c
  accepted : ∃ compiled parameters,
    compile (τ.dialectOn c) (.update ((t.keyChange id data).plan (returned (τ.dialectOn c)))) =
      .ok compiled ∧
    bindAll compiled.bindings (τ.dialectOn c) τ.registry = .ok parameters
  unique : (rows.filter (k.meets (t.keyCondition id))).length ≤ 1
  readable : ∀ row ∈ rows, k.meets (t.keyCondition id) row = true →
    ∃ record, decodeRow t.fields (τ.dialectOn c) τ.registry
      (k.assigned (t.update data).assignments row) = .ok record
  changed : (τ.repliesOn c)[0]? = some (k.changeReply (t.keyCondition id)
    (t.update data).assignments (returned (τ.dialectOn c)) rows)
  reread : returned (τ.dialectOn c) = [] → (τ.repliesOn c)[1]? = some (k.firstReply
    (t.keyCondition id) (k.changed (t.keyCondition id) (t.update data).assignments rows))

/-- The records as which rows are read, at most one, tell of the first of them. -/
theorem tells_addRows {found : List Row} (hone : found.length ≤ 1)
    (hreadable : ∀ row ∈ found, ∃ record, decodeRow t.fields d r row = .ok record) :
    ∃ records, decodeRows t.fields d r found = .ok records ∧
      ∀ s : Store, t.Tells d r (s.addRows records).2 found.head? (s.addRows records).1.head? := by
  match found, hone with
  | [], _ => exact ⟨[], rfl, fun _ => .nothing⟩
  | [row], _ =>
    obtain ⟨record, hrecord⟩ := hreadable row List.mem_cons_self
    refine ⟨[record], ?_, fun s => .record hrecord Array.getElem?_push_size⟩
    rw [decodeRows, List.mapM_cons, hrecord]
    rfl

namespace Kept

/-- The change is answered by the reply to it. -/
theorem send_change (h : t.Kept k rows id data σ c τ) : ∃ υ,
    t.send (fun d => .update ((t.keyChange id data).plan (returned d))) σ = (.ok (τ.dialectOn c,
        ⟨if (returned (τ.dialectOn c)).isEmpty then []
          else (rows.filter (k.meets (t.keyCondition id))).map
            (k.assigned (t.update data).assignments),
        .int (rows.filter (k.meets (t.keyCondition id))).length⟩), υ) ∧ τ.Spends c υ := by
  obtain ⟨compiled, parameters, hcompile, hbind⟩ := h.accepted
  have hreply := h.changed
  rw [← List.head?_eq_getElem?] at hreply
  exact send_reply _ h.target h.takes hcompile hbind hreply

/-- Behind the change, the query for the row is answered by the reply to it. -/
theorem send_first (h : t.Kept k rows id data σ c τ) (hspends : τ.Spends c υ)
    (hreturned : returned (τ.dialectOn c) = []) : ∃ count ω,
    t.send (fun _ => .query (.select (.first t.model.table (t.keyCondition id)))) υ =
      (.ok (τ.dialectOn c, ⟨((k.changed (t.keyCondition id) (t.update data).assignments rows).filter
        (k.meets (t.keyCondition id))).take 1, count⟩), ω) ∧ υ.Spends c ω := by
  obtain ⟨compiled, parameters, hcompile, hbind⟩ := h.accepted
  obtain ⟨first, hfirst, hsubset⟩ :=
    compile_first (e := t.keyCondition id) hcompile rfl t.model.table
  obtain ⟨values, hvalues⟩ := bindAll_eq_ok.2 fun b hb =>
    bindAll_eq_ok.1 ⟨parameters, hbind⟩ b (hsubset hb)
  have hnext : (υ.repliesOn c).head? = (τ.repliesOn c)[1]? := by
    rw [hspends.replies, List.head?_drop]
  rw [h.reread hreturned, Keeper.firstReply] at hnext
  rw [← hspends.dialect] at hfirst hvalues ⊢
  rw [← hspends.registry] at hvalues
  obtain ⟨ω, hsend, hlast⟩ := send_reply
    (fun _ => .query (.select (.first t.model.table (t.keyCondition id))))
    (target_again h.target hspends) (hspends.takes h.takes) hfirst hvalues hnext
  exact ⟨_, ω, hsend, hlast⟩

/-- What becomes of a row with the key can be read. -/
theorem readable_of_filter (h : t.Kept k rows id data σ c τ) {row : Row}
    (hmet : rows.filter (k.meets (t.keyCondition id)) = [row]) :
    ∃ record, decodeRow t.fields (τ.dialectOn c) τ.registry
      (k.assigned (t.update data).assignments row) = .ok record := by
  have hrow : row ∈ rows.filter (k.meets (t.keyCondition id)) := hmet ▸ List.mem_cons_self
  exact h.readable row (List.mem_of_mem_filter hrow) (List.of_mem_filter hrow)

/-- Where no row has the key, there is no answer. -/
theorem updateKey_none (h : t.Kept k rows id data σ c τ)
    (hmet : rows.filter (k.meets (t.keyCondition id)) = []) :
    ∃ υ, t.updateKey id data σ = (.ok none, υ) := by
  obtain ⟨υ, hsend, -⟩ := h.send_change
  rw [hmet] at hsend
  have hwritten : ∃ ω, (t.keyChange id data).run σ = (.ok ⟨[], .int 0⟩, ω) := by
    by_cases hreturned : returned (τ.dialectOn c) = []
    · exact ⟨_, write_counted (changing (t.keyChange id data)) hreturned hsend⟩
    · rw [if_neg (List.isEmpty_iff.not.2 hreturned)] at hsend
      exact ⟨_, write_returned (changing (t.keyChange id data)) hreturned hsend rfl⟩
  obtain ⟨ω, hwritten⟩ := hwritten
  exact ⟨ω, Run.bind_ok hwritten⟩

/-- Where the server returns rows, the answer is the record of the changed row. -/
theorem updateKey_returned (h : t.Kept k rows id data σ c τ) {row : Row}
    (hmet : rows.filter (k.meets (t.keyCondition id)) = [row])
    (hreturned : returned (τ.dialectOn c) ≠ []) :
    ∃ answer υ, t.updateKey id data σ = (.ok answer, υ) ∧
      t.Tells (τ.dialectOn c) τ.registry υ.store
        (some (k.assigned (t.update data).assignments row)) answer := by
  obtain ⟨υ, hsend, hspends⟩ := h.send_change
  obtain ⟨record, hrecord⟩ := h.readable_of_filter hmet
  rw [hmet, if_neg (List.isEmpty_iff.not.2 hreturned)] at hsend
  have hread : decodeRows t.fields (τ.dialectOn c) υ.registry
      [k.assigned (t.update data).assignments row] = .ok [record] := by
    rw [decodeRows, List.mapM_cons, hspends.registry, hrecord]
    rfl
  have hwritten : (t.keyChange id data).run σ = _ :=
    write_returned (changing (t.keyChange id data)) hreturned hsend hread
  exact ⟨some υ.store.records.size, _, Run.bind_ok hwritten,
    .record hrecord Array.getElem?_push_size⟩

/-- Where it does not, the answer tells of the changed row if that still has the key. -/
theorem updateKey_reread (h : t.Kept k rows id data σ c τ) {row : Row}
    (hmet : rows.filter (k.meets (t.keyCondition id)) = [row])
    (hreturned : returned (τ.dialectOn c) = []) :
    ∃ answer υ, t.updateKey id data σ = (.ok answer, υ) ∧
      t.Tells (τ.dialectOn c) τ.registry υ.store
        ([k.assigned (t.update data).assignments row].filter
          (k.meets (t.keyCondition id))).head? answer := by
  obtain ⟨υ, hsend, hspends⟩ := h.send_change
  obtain ⟨count, ω, hfirst, hlast⟩ := h.send_first hspends hreturned
  obtain ⟨record, hrecord⟩ := h.readable_of_filter hmet
  rw [hmet, hreturned] at hsend
  have hwritten : (t.keyChange id data).run σ = _ :=
    write_counted (changing (t.keyChange id data)) hreturned hsend
  have hknown : υ.Knows t.model := by
    rw [Session.Knows, hspends.models, (served_target h.target).models, h.known]
  -- the row is the only one that can have the key after the change
  have hone : ([k.assigned (t.update data).assignments row].filter
      (k.meets (t.keyCondition id))).length ≤ 1 := List.length_filter_le ..
  have hreadable : ∀ found ∈ [k.assigned (t.update data).assignments row].filter
      (k.meets (t.keyCondition id)),
      ∃ record, decodeRow t.fields (τ.dialectOn c) τ.registry found = .ok record := by
    intro found hfound
    obtain rfl := List.mem_singleton.1 (List.mem_of_mem_filter hfound)
    exact ⟨record, hrecord⟩
  obtain ⟨records, hread, htells⟩ := tells_addRows hone hreadable
  rw [k.filter_changed, hmet, List.map_singleton, List.take_of_length_le hone] at hfirst
  rw [← hspends.registry, ← hlast.registry] at hread
  have hfound := find_apply hknown hfirst hread
  exact ⟨_, _, (Run.bind_ok hwritten).trans hfound, htells ω.store⟩

end Kept

/-- The change of a row by its key tells what becomes of the row exactly if the server returns the
row, or the row still has the key after the change. It still has the key if its column is not
assigned. -/
theorem updateKey_tells_iff (h : t.Kept k rows id data σ c τ) :
    (∃ answer υ, t.updateKey id data σ = (.ok answer, υ) ∧
      (t.Tells (τ.dialectOn c) τ.registry υ.store
        (k.outcome (t.keyCondition id) (t.update data).assignments rows) answer ↔
          returned (τ.dialectOn c) ≠ [] ∨
            k.Keeps (t.keyCondition id) (t.update data).assignments rows)) ∧
    ((∀ e, id ≠ .expr e) →
      t.keyColumn ∉ (t.update data).assignments.map Assignment.column →
        k.Keeps (t.keyCondition id) (t.update data).assignments rows) := by
  refine ⟨?_, fun hid hcolumn => k.keeps_of_notMem (compares_keyCondition hid) hcolumn⟩
  generalize hmet : rows.filter (k.meets (t.keyCondition id)) = met
  have hone : met.length ≤ 1 := hmet ▸ h.unique
  have houtcome : k.outcome (t.keyCondition id) (t.update data).assignments rows =
      met.head?.map (k.assigned (t.update data).assignments) := by
    rw [Keeper.outcome, ← List.head?_filter, hmet]
  have hmem (row : Row) : row ∈ met ↔ row ∈ rows ∧ k.meets (t.keyCondition id) row = true := by
    rw [← hmet, List.mem_filter]
  have hkeeps : k.Keeps (t.keyCondition id) (t.update data).assignments rows ↔
      ∀ row ∈ met, k.meets (t.keyCondition id)
        (k.assigned (t.update data).assignments row) = true := by
    simp only [Keeper.Keeps, hmem, and_imp]
  rw [houtcome, hkeeps]
  -- by the number of rows with the key: none, or the one that is changed
  match met, hone with
  | [], _ =>
    obtain ⟨υ, hnone⟩ := h.updateKey_none hmet
    exact ⟨none, υ, hnone, fun _ => .inr nofun, fun _ => .nothing⟩
  | [row], _ =>
    by_cases hreturned : returned (τ.dialectOn c) = []
    · obtain ⟨answer, υ, hanswer, htells⟩ := h.updateKey_reread hmet hreturned
      refine ⟨answer, υ, hanswer, ?_⟩
      rw [List.forall_mem_singleton]
      by_cases hkept : k.meets (t.keyCondition id)
          (k.assigned (t.update data).assignments row) = true
      · rw [List.filter_cons_of_pos hkept] at htells
        exact ⟨fun _ => .inr hkept, fun _ => htells⟩
      · -- the row is there under another key, and the query does not find it
        rw [List.filter_cons_of_neg hkept] at htells
        cases htells
        exact ⟨nofun, fun h => (hkept (h.resolve_left fun hne => hne hreturned)).elim⟩
    · obtain ⟨answer, υ, hanswer, htells⟩ := h.updateKey_returned hmet hreturned
      exact ⟨answer, υ, hanswer, fun _ => .inl hreturned, fun _ => htells⟩

end Table

/-! ## Codes -/

namespace Keeper

/-- Whether a value meets a condition on its column, for texts. -/
def holds (e : Expr) (v : Option Value) : Bool :=
  match e, v with
  | .binary .equal _ (.literal (.string s) _), some (.string text) => s == text
  | .unary .isNull _, some .null => true
  | _, _ => false

/-- The column of a condition. -/
def columnOf : Expr → String
  | .binary _ (.column _ name _) _ => name
  | .unary _ (.column _ name _) => name
  | _ => ""

/-- The value that a column gets. -/
def valueOf (assignments : List Assignment) (column : String) (v : Value) : Value :=
  match assignments.find? fun a => a.column == column with
  | some ⟨_, .literal new _⟩ => new
  | _ => v

/-- A server that compares texts and assigns what it is told. -/
def ofTexts : Keeper where
  meets e row := holds e (row.lookup (columnOf e))
  assigned assignments row := row.map fun (column, v) => (column, valueOf assignments column v)
  lookup_assigned := by
    intro assignments row column h
    have hkept (v : Value) : valueOf assignments column v = v := by
      have hnone : (assignments.find? fun a => a.column == column) = none := by
        refine List.find?_eq_none.2 fun a ha hcolumn => h ?_
        exact List.mem_map.2 ⟨a, ha, beq_iff_eq.1 hcolumn⟩
      rw [valueOf, hnone]
    induction row with
    | nil => rfl
    | cons entry rest ih =>
      obtain ⟨name, v⟩ := entry
      rw [List.map_cons, Record.lookup_cons_eq, Record.lookup_cons_eq, ih]
      split
      · next heq => rw [← heq, hkept]
      · rfl
  meets_congr := by
    rintro e column row other (_ | _) h
    · exact congrArg _ h
    · exact congrArg _ h

end Keeper

namespace Table

/-- Codes with titles, by code. -/
def codes : Table where
  model :=
    { name := "Code"
      table := "codes"
      primaryKey := "code"
      connection := "main"
      fields := []
      relations := []
      autoFields := defaultAutoFields }
  channel := none

/-- A code with its title. -/
def coded : List Row := [[("code", .string "a"), ("title", .string "x")]]

/-- The key of the code. -/
def codeA : Operand := .value (.string "a")

/-- A session whose server keeps the code, and replies to a change of it. -/
def shelf (backend : Backend) (data : List (String × Operand)) : Session :=
  { Session.fresh with
    models := [codes.model]
    connections := [("main", .connection "main")]
    links := [("main", ⟨.make backend none, false,
      [Keeper.ofTexts.changeReply (codes.keyCondition codeA) (codes.update data).assignments
        (returned (.make backend none)) coded,
      Keeper.ofTexts.firstReply (codes.keyCondition codeA)
        (Keeper.ofTexts.changed (codes.keyCondition codeA) (codes.update data).assignments
          coded)]⟩)] }

theorem decodeColumn_undeclared {fields : FieldMap} {column : String}
    (h : fields.find? (Naming.snakeToCamel column) = none) (v : Value) :
    decodeColumn (some fields) d r (column, v) = .ok (Naming.snakeToCamel column, v) := by
  rw [decodeColumn, Option.bind_some, h]
  rfl

theorem decodeRow_codes (v w : Value) :
    ∃ record, decodeRow codes.fields d r [("code", v), ("title", w)] = .ok record := by
  have hcode : FieldMap.find? [] (Naming.snakeToCamel "code") = none := rfl
  have htitle : FieldMap.find? [] (Naming.snakeToCamel "title") = none := rfl
  change ∃ record, decodeRow (some []) d r _ = _
  rw [decodeRow, List.mapM_cons, List.mapM_cons, decodeColumn_undeclared hcode,
    decodeColumn_undeclared htitle]
  exact ⟨_, rfl⟩

theorem kept_shelf (backend : Backend) (data : List (String × Operand))
    (haccepted : ∃ compiled parameters,
      compile (.make backend none) (.update ((codes.keyChange codeA data).plan
        (returned (.make backend none)))) = .ok compiled ∧
      bindAll compiled.bindings (.make backend none) .standard = .ok parameters) :
    codes.Kept .ofTexts coded codeA data (shelf backend data) (.connection "main")
      (shelf backend data) where
  known := rfl
  target := rfl
  takes := nofun
  accepted := haccepted
  unique := by decide
  readable row hrow _ := by
    obtain rfl := List.mem_singleton.1 hrow
    exact decodeRow_codes _ _
  changed := rfl
  reread _ := rfl

/-- A new title for the code is told by reading the code again. -/
theorem updateKey_tells_iff_retitled :
    codes.Kept .ofTexts coded codeA [("title", .value (.string "y"))]
      (shelf .mysql [("title", .value (.string "y"))]) (.connection "main")
      (shelf .mysql [("title", .value (.string "y"))]) ∧
    ∃ answer υ, codes.updateKey codeA [("title", .value (.string "y"))]
        (shelf .mysql [("title", .value (.string "y"))]) = (.ok answer, υ) ∧
      codes.Tells (.make .mysql none) .standard υ.store
        (some [("code", .string "a"), ("title", .string "y")]) answer := by
  have hkept := kept_shelf .mysql [("title", .value (.string "y"))] ⟨_, _, rfl, rfl⟩
  obtain ⟨⟨answer, υ, hanswer, htells⟩, hkeeps⟩ := updateKey_tells_iff hkept
  refine ⟨hkept, answer, υ, hanswer, htells.2 (.inr (hkeeps nofun ?_))⟩
  decide

/-- A new code is not told. -/
theorem updateKey_loses_recoded :
    codes.Kept .ofTexts coded codeA [("code", .value (.string "b"))]
      (shelf .mysql [("code", .value (.string "b"))]) (.connection "main")
      (shelf .mysql [("code", .value (.string "b"))]) ∧
    Keeper.ofTexts.outcome (codes.keyCondition codeA)
      (codes.update [("code", .value (.string "b"))]).assignments coded =
        some [("code", .string "b"), ("title", .string "x")] ∧
    (codes.updateKey codeA [("code", .value (.string "b"))]
      (shelf .mysql [("code", .value (.string "b"))])).1 = .ok none ∧
    (codes.updateKey codeA [("code", .value (.string "b"))]
      (shelf .postgres [("code", .value (.string "b"))])).1 = .ok (some 0) := by
  have hkept := kept_shelf .mysql [("code", .value (.string "b"))] ⟨_, _, rfl, rfl⟩
  exact ⟨hkept, rfl, rfl, rfl⟩

end Table
end PolyQuery
