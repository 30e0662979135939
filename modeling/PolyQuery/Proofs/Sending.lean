import PolyQuery.Proofs.Unsent
import PolyQuery.Table

/-! What a table sends. Its queries and its writes go to the same server, and a write whose plan has
a fault on every backend is refused before anything is sent: `Table.refuses_send`. -/
namespace PolyQuery
variable {α : Type} {σ τ : Session} {t : Table} {f : PlanFault}

/-- A model is the one that a session has under the model's name. -/
def Session.Knows (σ : Session) (m : Model) : Prop :=
  σ.models.find? (fun other => other.name == m.name) = some m

namespace Table

/-- The query for all records of a table. -/
def builder (t : Table) : Builder := { Builder.ofModel t.model with channel := t.channel }

/-- What is written is defined, and not left to the database. -/
theorem mem_writable {data : List (String × Operand)} {key : String} {v : Operand} :
    (key, v) ∈ t.writable data ↔
      (key, v) ∈ data ∧ Expr.isAbsent v = false ∧ key ∉ t.model.autoFields := by
  rw [writable, List.mem_filter, Bool.and_eq_true, Bool.not_eq_true', Bool.not_eq_true',
    List.contains_eq_mem, decide_eq_false_iff_not]

/-- A table that a session gives out is one of its models. -/
theorem knows_of_table {name : String} (h : Run.table name σ = (.ok t, τ)) : σ.Knows t.model := by
  obtain ⟨m, υ, hmodel, ht⟩ := Run.bind_eq_ok h
  cases ht
  rw [Run.model, Run.bind_ok (Run.session_apply σ)] at hmodel
  cases hfound : σ.models.find? fun m => m.name == name with
  | none =>
    rw [hfound] at hmodel
    cases hmodel
  | some found =>
    rw [hfound] at hmodel
    cases hmodel
    have hname : m.name = name := beq_iff_eq.1 (List.find?_some hfound :)
    rw [Session.Knows, hname, hfound]

theorem model_apply (h : σ.Knows t.model) : Run.model t.model.name σ = (.ok t.model, σ) := by
  rw [Run.model, Run.bind_ok (Run.session_apply σ), h]
  rfl

theorem query_apply (h : σ.Knows t.model) : t.query σ = (.ok t.builder, σ) := by
  have hstart : Run.query t.model.name σ = (.ok (.ofModel t.model), σ) := by
    rw [Run.query, Run.bind_ok (model_apply h)]
    rfl
  rw [query, Run.bind_ok hstart, builder]
  cases t.channel <;> rfl

/-- Writes go where the queries go. -/
theorem target_eq (t : Table) : t.target = Run.builderChannel t.builder := rfl

/-- What comes of a faulty plan: the fault is told, unless the table has no connection at all, and
no statement is sent. -/
structure Refuses (t : Table) (σ : Session) (x : Run α) (f : PlanFault) : Prop where
  outcome : (x σ).1 = .error (.invalidPlan
    (if (σ.channel? t.builder).isSome then f else .connectionMissing t.model.connection))
  silent : σ.Silent (x σ).2

/-- A statement that is refused on every backend is not sent. -/
theorem refuses_send {statement : Dialect → Statement} {read : Dialect × ResultSet → Run α}
    (h : ∀ d, Plan.check (statement d) = fault f) : t.Refuses σ (t.send statement >>= read) f := by
  obtain ⟨pool, opened, htarget, -⟩ := Run.builderChannel_apply t.builder σ
  have hsilent := Run.silent_builderChannel t.builder σ
  rw [← target_eq] at htarget hsilent
  rw [htarget] at hsilent
  -- the channel is looked for before the plan is checked, so its fault comes first
  cases hchannel : σ.channel? t.builder with
  | none =>
    rw [hchannel] at htarget
    have hsend : (t.send statement >>= read) σ = _ := Run.bind_error (Run.bind_error htarget)
    exact ⟨by rw [hsend, hchannel]; rfl, by rw [hsend]; exact hsilent⟩
  | some c =>
    rw [hchannel] at htarget
    obtain ⟨d, hd⟩ := Run.dialectOf_apply c { σ with pool := pool, journal := σ.journal ++ opened }
    have hcompile : compile d (statement d) = fault f := by
      rw [compile, h]
      rfl
    have hsend : (t.send statement >>= read) σ =
        (fault f, { σ with pool := pool, journal := σ.journal ++ opened }) := by
      refine Run.bind_error ?_
      rw [send, Run.bind_ok htarget, Run.bind_ok hd, hcompile]
      rfl
    exact ⟨by rw [hsend, hchannel]; rfl, by rw [hsend]; exact hsilent⟩

end Table
end PolyQuery
