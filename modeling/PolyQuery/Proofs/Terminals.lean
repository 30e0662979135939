import PolyQuery.Proofs.Action
import PolyQuery.Proofs.Conversion
import PolyQuery.Proofs.Passage
import PolyQuery.Proofs.Rendering
import PolyQuery.Session.Fetch

/-! What comes of a reply. The statement of a plan is sent and answered, and then the rows of the
reply are read by the fields of the builder's model: `fetchRows_ask`. They become records, or tell
that there are rows: `all_of_ask`, `exists_of_ask`. The row of a count is read by the fields too. So
a count is the number that the server gave exactly if the model has no field of the name of the
counting column, or one that keeps the number: `count_iff`. -/
namespace PolyQuery

/-- The number of a counting column; nothing counts as zero. -/
def Value.counted? (v : Value) : Option Number := if v.isMissing then some (.int 0) else v.toNumber?

/-- A field by which a value of its column is read as the number that the value is: it is not
converted, or it is converted to a value of the same number. -/
inductive Field.KeepsNumber (d : Dialect) (r : Registry) (v : Value) (f : Field) : Prop where
  | unchanged (representation : Option Representation)
      (hconversion : f.conversion d r = .ok ⟨none, representation⟩)
  | converted (a : Adapter) (representation : Option Representation) (x : Value)
      (hconversion : f.conversion d r = .ok ⟨some a, representation⟩)
      (hread : a.fromDatabase v representation none = .ok x)
      (hnumber : x.counted? = v.toNumber?)

namespace Run
variable {w : Waiting} {b : Builder} {p : SelectPlan} {σ τ : Session} {d : Dialect}
  {result : ResultSet} {v : Value}

/-! ## Statements and their replies -/

/-- Sends the statement of a plan to where a builder's query runs. Comes back with the reply, and
with the dialect of the server. -/
def ask (w : Waiting) (b : Builder) (p : SelectPlan) : Run (Dialect × ResultSet) := do
  let c ← builderChannel b
  let d ← dialectOf c
  let compiled ← ofExcept (compile d (.query (.select p)))
  let result ← perform w c compiled
  return (d, result)

/-- The rows of a plan are those of the reply, read by the fields. -/
theorem fetchRows_ask (w : Waiting) (b : Builder) (p : SelectPlan) (fields : Option FieldMap) :
    (do let c ← builderChannel b
        fetchRows w c fields p) =
      (do let (d, result) ← ask w b p
          let s ← session
          ofExcept (decodeRows fields d s.registry result.rows)) := by
  simp only [ask, fetchRows, bind_assoc, pure_bind]

/-- After a reply, what is left is to read its rows. -/
theorem rows_of_ask (fields : Option FieldMap) (h : ask w b p σ = (.ok (d, result), τ)) :
    (do let c ← builderChannel b
        fetchRows w c fields p : Run (List Row)) σ =
      (decodeRows fields d τ.registry result.rows, τ) := by
  rw [fetchRows_ask, bind_ok h]
  dsimp only
  rw [bind_ok (session_apply τ)]
  rfl

/-- As many rows are read as there are in the reply. -/
theorem length_decodeRows {fields : Option FieldMap} {r : Registry} {rows found : List Row}
    (h : decodeRows fields d r rows = .ok found) : found.length = rows.length := by
  unfold decodeRows at h
  induction rows generalizing found with
  | nil =>
    cases h
    rfl
  | cons row rest ih =>
    rw [List.mapM_cons] at h
    obtain ⟨first, -, h⟩ := PolyQuery.bind_eq_ok.1 h
    obtain ⟨others, hothers, h⟩ := PolyQuery.bind_eq_ok.1 h
    cases h
    rw [List.length_cons, List.length_cons, ih hothers]

/-- There are rows if the reply has rows. -/
theorem exists_of_ask {rows : List Row} (h : ask w b b.existsPlan σ = (.ok (d, result), τ))
    (hrows : decodeRows b.fields d τ.registry result.rows = .ok rows) :
    exists_ w b σ = (.ok (!rows.isEmpty), τ) := by
  have hexists : exists_ w b = (do
      let found ← (do
        let c ← builderChannel b
        fetchRows w c b.fields b.existsPlan : Run (List Row))
      return !found.isEmpty) := by
    simp only [exists_, bind_assoc]
  have hread := rows_of_ask b.fields h
  rw [hrows] at hread
  rw [hexists, bind_ok hread]
  rfl

/-- The rows of a reply are added to the records, where no relations are loaded with them. -/
theorem allWithin_of_ask (depth : Nat) (watched : Bool) (hrequests : b.requests = [])
    (h : ask w b b.plan σ = (.ok (d, result), τ)) : allWithin w (depth + 1) watched b σ =
      (ofExcept (decodeRows b.fields d τ.registry result.rows) >>= fun rows =>
        onStore fun s => s.addRows rows) τ := by
  have hloads : b.loadPlan? σ.models = .ok none := by
    rw [Builder.loadPlan?, hrequests]
    rfl
  have hrecords : records w b = (do
      let found ← (do
        let c ← builderChannel b
        fetchRows w c b.fields b.plan : Run (List Row))
      onStore fun s => s.addRows found) := by
    simp only [records, fetchRecords, bind_assoc]
  have hread := rows_of_ask b.fields h
  rw [allWithin_succ, hloads]
  dsimp only
  rw [hrecords, bind_apply, hread, bind_apply]
  rfl

theorem all_of_ask {rows : List Row} (hrequests : b.requests = [])
    (h : ask w b b.plan σ = (.ok (d, result), τ))
    (hrows : decodeRows b.fields d τ.registry result.rows = .ok rows) :
    all w b σ = (.ok (τ.store.addRows rows).1, { τ with store := (τ.store.addRows rows).2 }) := by
  have hdepth : nestingBound σ = (.ok (depthIn σ), σ) := rfl
  rw [all, bind_ok hdepth, depthIn, allWithin_of_ask _ true hrequests h, hrows]
  rfl

/-! ## Counts -/

/-- A row that has the counting column alone is read as the record of that column. -/
theorem decodeRow_count (fields : Option FieldMap) (d : Dialect) (r : Registry) (v : Value) :
    decodeRow fields d r [("count", v)] =
      (decodeValue (fields.bind fun fs => fs.lookup "count") d r v).map fun x =>
        [("count", x)] := by
  have hname : Naming.snakeToCamel "count" = "count" := by decide
  -- no record has a `count` of its own, so only a declared field has that name
  have hfind (fs : FieldMap) : fs.find? "count" = fs.lookup "count" := by
    unfold FieldMap.find?
    cases fs.lookup "count" with
    | none => rfl
    | some f => rfl
  rw [decodeRow_singleton, hname, funext hfind]

/-- The count that is made of a reply with one count. -/
theorem count_of_ask {rows : Number}
    (h : ask w b b.countPlan σ = (.ok (d, ⟨[[("count", v)]], rows⟩), τ)) :
    count w b σ =
      (do let x ← decodeValue (b.fields.bind fun fs => fs.lookup "count") d τ.registry v
          readable x.counted?, τ) := by
  have hcount : count w b = (do
      let found ← (do
        let c ← builderChannel b
        fetchRows w c b.fields b.countPlan : Run (List Row))
      let x := ((found.head?.bind fun r => r.lookup "count")).getD .undefined
      if x.isMissing then return .int 0 else ofExcept (readable x.toNumber?)) := by
    simp only [count, bind_assoc]
  have hrows := rows_of_ask b.fields h
  rw [decodeRows, List.mapM_cons, List.mapM_nil, decodeRow_count] at hrows
  rw [hcount]
  cases hx : decodeValue (b.fields.bind fun fs => fs.lookup "count") d τ.registry v with
  | error e =>
    rw [hx] at hrows
    exact bind_error hrows
  | ok x =>
    rw [hx] at hrows
    -- the reply has one row with one column, so this is what is looked at
    have hfound : (([[("count", x)]] : List Row).head?.bind fun r => r.lookup "count") = some x :=
      rfl
    rw [bind_ok hrows]
    dsimp only
    rw [hfound, Option.getD_some]
    change (if x.isMissing then pure (.int 0) else ofExcept (readable x.toNumber?) : Run Number) τ
      = (readable x.counted?, τ)
    unfold Value.counted?
    cases x.isMissing with
    | true => rfl
    | false => rfl

/-- On a server that answers the query for a count with one row, in which the count is a number or a
text, a count is the number that the server gave, exactly if the builder's model declares no field
of the name of the column or one that keeps the number. -/
theorem count_iff {rows : Number} (hcount : (∃ n, v = .number n) ∨ ∃ s, v = .string s)
    (hasked : ask w b b.countPlan σ = (.ok (d, ⟨[[("count", v)]], rows⟩), τ)) :
    count w b σ = (.ok v.toNumber, τ) ↔
      ∀ f, (b.fields.bind fun fs => fs.lookup "count") = some f →
        f.KeepsNumber d τ.registry v := by
  have hthere : v.isMissing = false := by
    obtain ⟨n, rfl⟩ | ⟨s, rfl⟩ := hcount
    · rfl
    · rfl
  have hnumber : v.toNumber? = some v.toNumber := by
    obtain ⟨n, rfl⟩ | ⟨s, rfl⟩ := hcount
    · rfl
    · rfl
  have hkept : v.counted? = v.toNumber? := by
    rw [Value.counted?, hthere, if_neg Bool.false_ne_true]
  have hreadable (x : Value) : readable x.counted? = .ok v.toNumber ↔ x.counted? = v.toNumber? := by
    rw [hnumber]
    cases x.counted? with
    | none => exact ⟨fun h => (nomatch h), fun h => (nomatch h)⟩
    | some n => exact ⟨fun h => congrArg some (Except.ok.inj h), fun h => by rw [h]; rfl⟩
  rw [count_of_ask hasked]
  -- without a field of this name the count is the reply, and with one it is what the field makes of
  -- it
  cases hfield : b.fields.bind fun fs => fs.lookup "count" with
  | none =>
    refine ⟨fun _ f hf => (nomatch hf), fun _ => ?_⟩
    exact congrArg (·, τ) ((hreadable v).2 hkept)
  | some f =>
    rw [decodeValue_eq hthere]
    constructor
    · intro h f' hf'
      obtain rfl := Option.some.inj hf'
      have hread := congrArg Prod.fst h
      rcases hconversion : f.conversion d τ.registry with e | ⟨_ | a, representation⟩
      · rw [hconversion] at hread
        cases hread
      · exact .unchanged representation hconversion
      · rw [hconversion] at hread
        obtain ⟨x, hx, hcounted⟩ := PolyQuery.bind_eq_ok.1 hread
        exact .converted a representation x hconversion hx ((hreadable x).1 hcounted)
    · intro h
      cases h f rfl with
      | unchanged representation hconversion =>
        rw [hconversion]
        exact congrArg (·, τ) ((hreadable v).2 hkept)
      | converted a representation x hconversion hread hsame =>
        have hx : (Resolved.mk (some a) representation).convert .fromDatabase none v = .ok x :=
          hread
        rw [hconversion]
        change ((Resolved.mk (some a) representation).convert .fromDatabase none v >>=
          fun x => readable x.counted?, τ) = _
        rw [hx]
        exact congrArg (·, τ) ((hreadable x).2 hsame)

/-- Votes, each with a field that says for how much it counts. -/
def votes (hostType : String) : Model where
  name := "Vote"
  table := "votes"
  primaryKey := "id"
  connection := "main"
  fields := [("count", ⟨some hostType, none, none⟩)]
  relations := []
  autoFields := []

/-- A server that knows how many votes there are. -/
def ballot (total : Value) : Session :=
  { Session.fresh with
    connections := [("main", .connection "main")]
    links := [("main", ⟨.make .sqlite none, false, [.rows [[("count", total)]] none]⟩)] }

/-- The server answers the query for the number of votes, whatever fields the votes have. -/
theorem ask_ballot (hostType : String) (total : Value) : ∃ τ,
    ask .awaiting (.ofModel (votes hostType)) (Builder.ofModel (votes hostType)).countPlan
        (ballot total) = (.ok (.make .sqlite none, ⟨[[("count", total)]], .int 1⟩), τ) ∧
      τ.registry = .standard := ⟨_, rfl, rfl⟩

/-- A field for large integers reads the digits of a count as the same number. -/
theorem count_iff_digits : ∃ τ,
    ask .awaiting (.ofModel (votes "bigint")) (Builder.ofModel (votes "bigint")).countPlan
        (ballot (.string "3")) =
      (.ok (.make .sqlite none, ⟨[[("count", .string "3")]], .int 1⟩), τ) ∧
      count .awaiting (.ofModel (votes "bigint")) (ballot (.string "3")) = (.ok (.int 3), τ) := by
  obtain ⟨τ, hasked, hregistry⟩ := ask_ballot "bigint" (.string "3")
  refine ⟨τ, hasked, (count_iff (.inr ⟨"3", rfl⟩) hasked).2 ?_⟩
  intro f hf
  obtain rfl := Option.some.inj hf
  rw [hregistry]
  exact .converted .bigint (some .integer) (.bigint 3) rfl rfl rfl

/-- A field for flags reads a count of three as true, which counts as one. -/
theorem flagged_count_loses_number : ∃ τ,
    ask .awaiting (.ofModel (votes "boolean")) (Builder.ofModel (votes "boolean")).countPlan
        (ballot (.number (.int 3))) =
      (.ok (.make .sqlite none, ⟨[[("count", .number (.int 3))]], .int 1⟩), τ) ∧
      count .awaiting (.ofModel (votes "boolean")) (ballot (.number (.int 3))) =
        (.ok (.int 1), τ) := by
  obtain ⟨τ, hasked, hregistry⟩ := ask_ballot "boolean" (.number (.int 3))
  refine ⟨τ, hasked, ?_⟩
  rw [count_of_ask hasked, hregistry]
  rfl

end Run
end PolyQuery
