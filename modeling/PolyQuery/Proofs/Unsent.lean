import PolyQuery.Proofs.Dialogue
import PolyQuery.Proofs.Passage

/-! When a query is refused. What is wrong with a query itself is found before its statement is
sent, and what is wrong with the queries of the loads below it when a load comes to them, behind
statements that were sent: `all_refused`. -/
namespace PolyQuery

/-- Faults of a plan or a request, relations that there are not, and features that a backend does
not have: these can be told without a server. -/
def Error.isStructural : Error → Bool
  | .invalidPlan _ => true
  | .arityMismatch _ _ => true
  | .unsupportedFeature _ _ _ _ => true
  | .unknownRelation _ _ _ => true
  | _ => false

/-- Whether an event is a statement that a server received. -/
def Event.isStatement : Event → Bool
  | .sent _ _ _ => true
  | .poolQuery _ _ => true
  | .clientQuery _ _ => true
  | _ => false

namespace Session
variable {σ τ υ : Session}

/-- The statements that servers received. -/
def statements (σ : Session) : List Event := σ.journal.filter Event.isStatement

/-- From one session to the other no server received a statement. -/
def Silent (σ τ : Session) : Prop := τ.statements = σ.statements

/-- From one session to the other servers received statements. -/
def Sent (σ τ : Session) : Prop := ∃ e later, τ.statements = σ.statements ++ e :: later

theorem Onward.statements (h : σ.Onward τ) : σ.statements <+: τ.statements := h.journal.filter _

theorem Sent.onward (h : σ.Sent τ) (h' : τ.Onward υ) : σ.Sent υ := by
  obtain ⟨e, later, hτ⟩ := h
  obtain ⟨more, hυ⟩ := h'.statements
  exact ⟨e, later ++ more, by rw [← hυ, hτ, List.append_assoc, List.cons_append]⟩

theorem Silent.sent (h : σ.Silent τ) (h' : τ.Sent υ) : σ.Sent υ := by
  obtain ⟨e, later, hυ⟩ := h'
  exact ⟨e, later, by rw [hυ, h]⟩

end Session

namespace Run
variable {α β : Type} {σ τ : Session} {b : Builder} {w : Waiting}

/-! ## Before a statement is sent -/

/-- An action that sends nothing. -/
abbrev KeepsSilent (x : Run α) : Prop := Obeys Session.Silent x

theorem KeepsSilent.bind {x : Run α} {f : α → Run β} (hx : KeepsSilent x) (hf : ∀ a, KeepsSilent (f a)) :
    KeepsSilent (x >>= f) := Obeys.bind (fun h h' => h'.trans h) hx hf

theorem silent_pure (a : α) : KeepsSilent (pure a : Run α) := fun _ => rfl

theorem silent_ofExcept (x : Except Error α) : KeepsSilent (ofExcept x) := fun _ => rfl

theorem silent_session : KeepsSilent session := fun _ => rfl

theorem silent_builderChannel (b : Builder) : KeepsSilent (builderChannel b) := by
  intro σ
  obtain ⟨pool, opened, hchannel, hopened⟩ := builderChannel_apply b σ
  rw [hchannel]
  have hquiet : opened.filter Event.isStatement = [] := by
    obtain rfl | rfl := hopened <;> rfl
  exact (List.filter_append ..).trans (by rw [hquiet]; exact List.append_nil _)

/-- A statement that can be sent, and the dialect of the server that it is for. -/
structure Ready where
  channel : Channel
  dialect : Dialect
  sql : String
  parameters : List Value

/-- Makes the statement of a query ready. -/
def ready (w : Waiting) (b : Builder) : Run Ready := do
  let c ← builderChannel b
  let d ← dialectOf c
  let compiled ← ofExcept (compile d (.query (.select b.plan)))
  if w = .blocking then
    if !(← canBlock c) then fail (.notBlocking d.label)
  let s ← session
  let parameters ← ofExcept (bindAll compiled.bindings d s.registry)
  return ⟨c, d, compiled.sql, parameters⟩

/-- Sends a statement and takes the rows of the reply as records. -/
def deliver (b : Builder) (r : Ready) : Run (List Nat) := do
  let result ← send r.channel r.sql r.parameters
  let s ← session
  let rows ← ofExcept (decodeRows b.fields r.dialect s.registry result.rows)
  onStore fun s => s.addRows rows

/-- What is done for a query before its statement is sent: its relations are planned and the
statement is made ready. -/
def prepare (w : Waiting) (b : Builder) : Run (Option LoadPlan × Ready) := do
  let s ← session
  let plan? ← ofExcept (b.loadPlan? s.models)
  let r ← ready w b
  return (plan?, r)

/-- A statement is made ready without changing anything, once its channel is known. -/
theorem obeys_ready {R : Session → Session → Prop} (hrefl : ∀ σ, R σ σ)
    (htrans : ∀ {σ τ υ}, R σ τ → R τ υ → R σ υ) (w : Waiting)
    (hchannel : Obeys R (builderChannel b)) : Obeys R (ready w b) := by
  have hbound (c : Channel) (d : Dialect) (compiled : Compiled) : Obeys R (do
      let s ← session
      let parameters ← ofExcept (bindAll compiled.bindings d s.registry)
      return (⟨c, d, compiled.sql, parameters⟩ : Ready)) :=
    Obeys.bind htrans (fun σ => hrefl σ) fun _ =>
      Obeys.bind htrans (fun σ => hrefl σ) fun _ => fun σ => hrefl σ
  unfold ready
  refine Obeys.bind htrans hchannel fun c => ?_
  refine Obeys.bind htrans (fun σ => hrefl σ) fun d => ?_
  refine Obeys.bind htrans (fun σ => hrefl σ) fun compiled => ?_
  split
  · refine Obeys.bind htrans (fun σ => hrefl σ) fun can => ?_
    split
    · exact Obeys.bind htrans (fun σ => hrefl σ) fun _ => hbound c d compiled
    · exact hbound c d compiled
  · exact hbound c d compiled

theorem silent_ready (w : Waiting) (b : Builder) : KeepsSilent (ready w b) :=
  obeys_ready (R := Session.Silent) (fun _ => rfl) (fun h h' => h'.trans h) w
    (silent_builderChannel b)

theorem silent_prepare (w : Waiting) (b : Builder) : KeepsSilent (prepare w b) :=
  silent_session.bind fun _ => (silent_ofExcept _).bind fun _ =>
    (silent_ready w b).bind fun _ => silent_pure _

/-- The records of a query are those that its statement gives once it is ready. -/
theorem records_eq (w : Waiting) (b : Builder) : records w b = ready w b >>= deliver b := by
  funext σ
  simp only [records, ready, fetchRecords, fetchRows, bind_assoc]
  rw [bind_apply, bind_apply]
  rcases builderChannel b σ with ⟨e | c, τ⟩
  · rfl
  · obtain ⟨d, hd⟩ := dialectOf_apply c τ
    dsimp only
    rw [bind_ok hd, bind_ok hd, bind_apply, bind_apply]
    dsimp only [ofExcept]
    cases compile d (.query (.select b.plan)) with
    | error e => rfl
    | ok compiled =>
      -- both look up the dialect, which nothing changes in between
      dsimp only [perform]
      simp only [bind_assoc]
      rw [bind_ok hd]
      cases w with
      | awaiting =>
        simp only [reduceCtorEq, if_false, bind_assoc, pure_bind]
        rfl
      | blocking =>
        simp only [if_true, bind_assoc]
        refine congrFun (congrArg _ (funext fun can => ?_)) τ
        cases can with
        | false => rfl
        | true =>
          simp only [Bool.not_true, Bool.false_eq_true, if_false, bind_assoc, pure_bind]
          rfl

theorem prepare_ok {p : Option LoadPlan × Ready} (h : prepare w b σ = (.ok p, τ)) :
    b.loadPlan? σ.models = .ok p.1 ∧ ready w b σ = (.ok p.2, τ) := by
  rw [prepare, bind_ok (session_apply σ)] at h
  obtain ⟨plan?, υ, hplan, h⟩ := bind_eq_ok h
  obtain ⟨hplanned, rfl⟩ := Prod.mk.inj hplan
  obtain ⟨r, φ, hready, h⟩ := bind_eq_ok h
  obtain ⟨hp, rfl⟩ := Prod.mk.inj h
  obtain rfl := Except.ok.inj hp
  exact ⟨hplanned, hready⟩

/-- A query is prepared, then its statement is sent, and then relations are loaded. -/
theorem allWithin_prepare (w : Waiting) (depth : Nat) (watched : Bool) (b : Builder)
    (σ : Session) : allWithin w (depth + 1) watched b σ =
      (prepare w b >>= fun p => deliver b p.2 >>= fun ids =>
        match p.1 with
        | some plan => Loader.load (allWithin w depth (watched && w = .awaiting))
            (contextOf b plan watched) ids >>= fun _ => pure ids
        | none => pure ids) σ := by
  rw [allWithin_succ, prepare, bind_assoc, bind_ok (session_apply σ), bind_assoc, bind_apply]
  dsimp only [ofExcept]
  cases b.loadPlan? σ.models with
  | error e => rfl
  | ok plan? =>
    simp only [bind_assoc, pure_bind, records_eq]
    cases plan? with
    | none => simp only [bind_pure]
    | some plan => rfl

/-! ## Statements on their way -/

theorem sent_note {e : Event} (he : e.isStatement = true) (σ : Session) :
    σ.Sent { σ with journal := σ.journal ++ [e] } :=
  ⟨e, [], (List.filter_append ..).trans (by rw [List.filter_cons_of_pos he]; rfl)⟩

theorem linkReply_apply (name : String) (σ : Session) :
    ∃ reply τ, linkReply name σ = (.ok reply, τ) ∧ σ.Onward τ := by
  have honward := (serves_linkReply name σ).toOnward
  exact ⟨_, _, rfl, honward⟩

/-- An action that sends a statement, and of which comes what a server replies. -/
def Answered (x : Run ResultSet) : Prop :=
  ∀ σ, ∃ (reply : Reply) (τ : Session), x σ = (reply.result, τ) ∧ σ.Sent τ

theorem answered_queryLink (name sql : String) (parameters : List Value) :
    Answered (queryLink name sql parameters) := by
  intro σ
  obtain ⟨reply, τ, hreply, honward⟩ := linkReply_apply name
    { σ with journal := σ.journal ++ [.sent name sql parameters], served := σ.served + 1 }
  have hnoted : note (.sent name sql parameters) σ =
    (.ok (), { σ with journal := σ.journal ++ [.sent name sql parameters] }) := rfl
  have hcounted (υ : Session) : update (fun s => { s with served := s.served + 1 }) υ =
    (.ok (), { υ with served := υ.served + 1 }) := rfl
  refine ⟨reply, τ, ?_, Session.Sent.onward ?_ honward⟩
  · rw [queryLink, bind_ok hnoted, bind_ok (hcounted _), bind_ok hreply]
    rfl
  · exact sent_note rfl { σ with served := σ.served + 1 }

theorem answered_queryPool (sql : String) (parameters : List Value) :
    Answered (queryPool sql parameters) := by
  intro σ
  have hnoted : note (.poolQuery sql parameters) σ =
    (.ok (), { σ with journal := σ.journal ++ [.poolQuery sql parameters] }) := rfl
  have hreply := poolReply_apply { σ with journal := σ.journal ++ [.poolQuery sql parameters] }
  have hsent := (sent_note (e := .poolQuery sql parameters) rfl σ).onward
    (serves_poolReply _).toOnward
  rw [hreply] at hsent
  rw [queryPool, bind_ok hnoted, bind_ok hreply]
  generalize σ.pool.replies.head?.getD .nothing = reply
  cases hresult : reply.result with
  | ok result => exact ⟨reply, _, by rw [hresult]; rfl, hsent⟩
  | error e =>
    have hlogged := serves_log "pg" .error ("Query failed: " ++ sql) [.error e]
    exact ⟨reply, _, by rw [hresult]; rfl, hsent.onward (hlogged _).toOnward⟩

/-- A query on the client of a transaction is sent unless the client is completed. -/
theorem callClient_query (sql : String) (parameters : List Value) (σ : Session) :
    (∃ (reply : Reply) (τ : Session),
      callClient (.query sql parameters) σ = (reply.result, τ) ∧ σ.Sent τ) ∨
      callClient (.query sql parameters) σ = (.error .transactionClosed, σ) := by
  have hclient : client σ = (.ok (σ.client.getD ⟨.make .postgres none, true⟩), σ) := rfl
  rw [callClient, bind_ok hclient, Client.start]
  cases (σ.client.getD ⟨.make .postgres none, true⟩).isCompleted with
  | true => exact .inr rfl
  | false =>
    obtain ⟨reply, τ, hsend, hexchanged, -⟩ := sendOnClient_apply sql (some parameters) σ
    rw [if_neg (by decide)]
    dsimp only
    rw [bind_ok (outcome_apply hsend)]
    have hjournal := congrArg (List.filter Event.isStatement) hexchanged.journal
    exact .inl ⟨reply, _, rfl, Event.clientQuery sql (some parameters), [],
      hjournal.trans (List.filter_append ..)⟩

/-- What comes of a statement is what its server replies, unless it was for the client of a
transaction that is completed. -/
theorem send_apply (c : Channel) (sql : String) (parameters : List Value) (σ : Session) :
    (∃ (reply : Reply) (τ : Session), send c sql parameters σ = (reply.result, τ) ∧ σ.Sent τ) ∨
      send c sql parameters σ = (.error .transactionClosed, σ) := by
  cases c with
  | connection name => exact .inl (answered_queryLink name sql parameters σ)
  | pool => exact .inl (answered_queryPool sql parameters σ)
  | client => exact callClient_query sql parameters σ

/-- Statements do not fail for structural reasons. -/
theorem send_refused {c : Channel} {sql : String} {parameters : List Value} {e : Error}
    (h : send c sql parameters σ = (.error e, τ)) : e.isStructural = false := by
  obtain ⟨reply, υ, hsend, -⟩ | hclosed := send_apply c sql parameters σ
  · rw [hsend] at h
    cases reply with
    | rows rows count => cases h
    | failure text => cases h; rfl
  · rw [hclosed] at h
    cases h
    rfl

/-- A statement that is answered was sent. -/
theorem sent_of_send {c : Channel} {sql : String} {parameters : List Value} {result : ResultSet}
    (h : send c sql parameters σ = (.ok result, τ)) : σ.Sent τ := by
  obtain ⟨reply, υ, hsend, hsent⟩ | hclosed := send_apply c sql parameters σ
  · rw [hsend] at h
    obtain ⟨_, rfl⟩ := Prod.mk.inj h
    exact hsent
  · rw [hclosed] at h
    cases h

/-- Where the records of a statement are not there for a structural reason, rows were there that
could not be decoded. -/
theorem deliver_refused {r : Ready} {e : Error} (he : e.isStructural = true)
    (h : deliver b r σ = (.error e, τ)) : ∃ result,
      send r.channel r.sql r.parameters σ = (.ok result, τ) ∧
        decodeRows b.fields r.dialect τ.registry result.rows = .error e := by
  obtain hsend | ⟨result, υ, hsend, hrest⟩ := bind_eq_error h
  · rw [send_refused hsend] at he
    cases he
  · rw [bind_ok (session_apply υ)] at hrest
    obtain hdecode | ⟨rows, φ, -, hadded⟩ := bind_eq_error hrest
    · obtain ⟨hrows, rfl⟩ := Prod.mk.inj hdecode
      exact ⟨result, hsend, hrows⟩
    · cases hadded

/-- A statement whose records are there was sent. -/
theorem sent_of_deliver {r : Ready} {ids : List Nat} (h : deliver b r σ = (.ok ids, τ)) :
    σ.Sent τ := by
  obtain ⟨result, υ, hsend, hrest⟩ := bind_eq_ok h
  have hdecoded : Proceeds (do
      let s ← session
      let rows ← ofExcept (decodeRows b.fields r.dialect s.registry result.rows)
      onStore fun s => s.addRows rows) :=
    serves_session.proceeds.bind fun _ => (serves_ofExcept _).proceeds.bind fun _ =>
      proceeds_onStore _
  have honward := hdecoded υ
  rw [hrest] at honward
  exact (sent_of_send hsend).onward honward

end Run

/-! ## Loads -/

namespace Loader
variable {σ τ : Session} {ctx : LoadContext} {f : LoadFrame} {rest : List LoadFrame}
  {fetch : Builder → Run (List Nat)} {report : LoadReport} {e : Error}

theorem textOfPlain_refused {plain : Option Value}
    (h : Store.textOfPlain plain = .error e) : e.isStructural = false := by
  unfold Store.textOfPlain at h
  cases plain with
  | none => cases h; rfl
  | some v =>
    dsimp only [Option.elim_some] at h
    cases htext : Json.text? v with
    | ok text => rw [htext] at h; cases h
    | error e' => rw [htext] at h; cases h; rfl

theorem matchKey_refused {v : Value} {s : Store} (h : (matchKey v s).1 = .error e) :
    e.isStructural = false := by
  by_cases hv : Store.keyedByText v = true
  · rw [Store.matchKey_eq hv, Store.jsonText_eq, Store.objectKey] at h
    cases htext : Store.textOfPlain (s.plain? v).1 with
    | ok text => rw [htext] at h; cases h
    | error e' => rw [htext] at h; cases h; exact textOfPlain_refused htext
  · cases v with
    | date ms => cases ms <;> cases h; rfl
    | array _ | object _ | node _ | foreign _ | record _ => exact (hv rfl).elim
    | _ => cases h

/-- A key is not refused for structural reasons. -/
theorem readKey_refused {s : Store} {id : Nat} {property : String}
    (h : (s.readKey id property).1 = .error e) : e.isStructural = false := by
  unfold Store.readKey at h
  cases hkey : (matchKey (s.read id property).1 (s.read id property).2).1 with
  | ok key =>
    rw [hkey] at h
    cases h
  | error e' =>
    rw [hkey] at h
    cases h
    exact matchKey_refused hkey

/-- Attaching children does not fail for structural reasons. -/
theorem attached_structurally {step : LoadStep} {parents children : List Nat} {α : Type} {a : α}
    (he : e.isStructural = true)
    (h : (attach step parents children >>= fun _ => pure a : Run α) σ = (.error e, τ)) :
    False := by
  obtain hattach | ⟨_, _, -, hdone⟩ := Run.bind_eq_error h
  · obtain ⟨_, _, hread⟩ | ⟨_, _, _, hread⟩ := attach_refused hattach
    all_goals
      rw [readKey_refused hread] at he
      cases he
  · cases hdone

/-- Where a turn fails for a structural reason, the batch was asked for and failed. -/
theorem turn_refused {b : Builder} (he : e.isStructural = true)
    (h : turn fetch ctx report f rest b σ = (.error e, τ)) :
    (ctx.watched && aborted σ) = false ∧ ∃ υ, fetch b σ = (.error e, υ) := by
  cases hstop : ctx.watched && aborted σ with
  | true =>
    obtain ⟨log, hcancel⟩ := cancel_apply ctx report (f :: rest) σ
    rw [turn_stopped fetch report f rest b hstop] at h
    cases hcancel.symm.trans h
    cases he
  | false =>
    rw [turn_goes hstop] at h
    obtain hfetch | ⟨children, υ, -, hrest⟩ := Run.bind_eq_error h
    · exact ⟨rfl, _, hfetch⟩
    · exact (attached_structurally he hrest).elim

/-- Where a visit fails for a structural reason, the query for the children cannot be built, or it
was asked for and failed. -/
theorem visit_refused (he : e.isStructural = true)
    (h : visit fetch ctx report f rest σ = (.error e, τ)) :
    modifiedQuery σ f.step = .error e ∨ ∃ b s, Asks ctx f σ b s ∧
      (ctx.watched && aborted σ) = false ∧ ∃ υ, fetch b s = (.error e, υ) := by
  cases begins ctx f σ with
  | refused _ hread _ hvisit =>
    cases (hvisit fetch ctx.watched report rest).symm.trans h
    rw [readKey_refused hread] at he
    cases he
  | idle _ _ _ hvisit =>
    exact (attached_structurally he ((hvisit fetch ctx.watched report rest).symm.trans h)).elim
  | unbuilt _ hbuilt _ hvisit =>
    cases (hvisit fetch ctx.watched report rest).symm.trans h
    exact .inl hbuilt
  | @asks b s hasks =>
    have hturn : turn fetch ctx report f rest b s = (.error e, τ) :=
      (hasks.turns fetch ctx.watched report rest).symm.trans h
    obtain ⟨hgo, hfailed⟩ := turn_refused he hturn
    rw [hasks.aborted_eq] at hgo
    exact .inr ⟨b, s, hasks, hgo, hfailed⟩

end Loader

namespace Inquiry
open Loader
variable {w : Waiting} {e : Error}

/-- Why a query fails for a structural reason after its statement was sent: rows cannot be decoded,
the query for the children of a step cannot be built, or a batch is refused before it is sent. -/
inductive Fault (w : Waiting) (e : Error) (i : Inquiry) : Prop where
  | undecoded {depth : Nat} {p : Option LoadPlan × Run.Ready} {υ τ : Session} {result : ResultSet}
      (hdeeper : i.depth = depth + 1)
      (hprepared : Run.prepare w i.query i.session = (.ok p, υ))
      (hsent : Run.send p.2.channel p.2.sql p.2.parameters υ = (.ok result, τ))
      (he : decodeRows i.query.fields p.2.dialect τ.registry result.rows = .error e)
  | unbuilt {depth : Nat} {plan : LoadPlan} {visits : List Visit} {f : LoadFrame}
      {rest : List LoadFrame} {τ : Session} (hcomes : i.Comes w depth plan visits f rest τ)
      (he : modifiedQuery τ f.step = .error e)
  | unprepared {depth : Nat} {plan : LoadPlan} {visits : List Visit} {f : LoadFrame}
      {rest : List LoadFrame} {τ s : Session} {b : Builder}
      (hcomes : i.Comes w (depth + 1) plan visits f rest τ)
      (hasks : Asks (Run.contextOf i.query plan i.watched) f τ b s)
      (hgo : (i.watched && aborted τ) = false) (he : (Run.prepare w b s).1 = .error e)

/-- A query fails before it is sent, or with its statement, or in the load of its relations. -/
theorem run_fails {depth : Nat} {watched : Bool} {b : Builder} {σ τ : Session}
    (h : Run.allWithin w (depth + 1) watched b σ = (.error e, τ)) :
    ((Run.prepare w b σ).1 = .error e ∧ σ.Silent τ) ∨
      (∃ p υ, Run.prepare w b σ = (.ok p, υ) ∧ σ.Silent υ ∧
        Run.deliver b p.2 υ = (.error e, τ)) ∨
      (σ.Sent τ ∧ ∃ plan visits f rest υ,
        Comes w ⟨depth + 1, watched, b, σ⟩ depth plan visits f rest υ ∧
          visit (Run.allWithin w depth (watched && w = .awaiting)) (Run.contextOf b plan watched)
            (reportOf (Run.contextOf b plan watched) ⟨[], [], 0⟩ visits) f rest υ =
              (.error e, τ)) := by
  rw [Run.allWithin_prepare] at h
  have hsilent := Run.silent_prepare w b σ
  obtain hprepared | ⟨⟨plan?, r⟩, υ, hprepared, hrest⟩ := Run.bind_eq_error h
  · rw [hprepared] at hsilent ⊢
    exact .inl ⟨rfl, hsilent⟩
  rw [hprepared] at hsilent
  right
  -- the records were not delivered, or a load onto them stopped
  obtain hdelivered | ⟨ids, φ, hdelivered, hloads⟩ := Run.bind_eq_error hrest
  · exact .inl ⟨_, υ, hprepared, hsilent, hdelivered⟩
  cases plan? with
  | none => cases hloads
  | some plan =>
    obtain hload | ⟨_, _, -, hdone⟩ := Run.bind_eq_error hloads
    · obtain ⟨hplanned, hready⟩ := Run.prepare_ok hprepared
      have hrecords : Run.records w b σ = (.ok ids, φ) := by
        rw [Run.records_eq, Run.bind_ok hready]
        exact hdelivered
      obtain ⟨visits, f, rest, ψ, hpasses, hvisit⟩ := run_stops hload
      have honward := proceeds_load (Run.proceeds_allWithin w depth (watched && w = .awaiting))
        (Run.contextOf b plan watched) ids φ
      rw [hload] at honward
      have hsent := (hsilent.sent (Run.sent_of_deliver hdelivered)).onward honward
      exact .inr ⟨hsent, plan, visits, f, rest, ψ,
        ⟨rfl, hplanned, ids, φ, hrecords, hpasses⟩, hvisit⟩
    · cases hdone

/-- A query that fails for a structural reason was refused before it was sent, and then nothing was
sent; or what is wrong was found later, at a query to which it leads. -/
theorem run_refused (he : e.isStructural = true) {i : Inquiry} {τ : Session}
    (h : i.run w = (.error e, τ)) :
    ((Run.prepare w i.query i.session).1 = .error e ∧ i.session.Silent τ) ∨
      (i.session.Sent τ ∧ ∃ j, Reaches w i j ∧ Fault w e j) := by
  -- every batch is run one level below the query that leads to it
  obtain ⟨depth, watched, b, σ⟩ := i
  induction depth generalizing watched b σ τ with
  | zero => cases h
  | succ depth ih =>
    obtain hearly | ⟨p, υ, hprepared, hkept, hdelivered⟩ |
      ⟨hsent, plan, visits, f, rest, υ, hcomes, hvisit⟩ := run_fails h
    · exact .inl hearly
    · obtain ⟨result, hsend, hdecode⟩ := Run.deliver_refused he hdelivered
      exact .inr ⟨hkept.sent (Run.sent_of_send hsend), _, .self _,
        .undecoded rfl hprepared hsend hdecode⟩
    · refine .inr ⟨hsent, ?_⟩
      obtain hbuilt | ⟨q, s, hasks, hgo, φ, hfailed⟩ := visit_refused he hvisit
      · exact ⟨_, .self _, .unbuilt hcomes hbuilt⟩
      · obtain ⟨hprepared, -⟩ | ⟨-, j, hreaches, hfault⟩ := ih _ _ _ hfailed
        · cases depth with
          | zero => cases hfailed
          | succ depth => exact ⟨_, .self _, .unprepared hcomes hasks hgo hprepared⟩
        · exact ⟨j, .through hcomes hasks hgo hreaches, hfault⟩

end Inquiry

namespace Run
open Loader

/-- If all records of a query with their relations cannot be given for a structural reason, then the
query itself was refused and no server received a statement; or servers received statements, and
the reason was found only when a load came to a query that could not be built, could not be made
ready or gave rows that could not be decoded. -/
theorem all_refused (w : Waiting) (b : Builder) (σ : Session) {e : Error} {τ : Session}
    (he : e.isStructural = true) (h : all w b σ = (.error e, τ)) :
    ((prepare w b σ).1 = .error e ∧ σ.Silent τ) ∨
      (σ.Sent τ ∧ ∃ j, Inquiry.Reaches w ⟨depthIn σ, true, b, σ⟩ j ∧ Inquiry.Fault w e j) := by
  -- the bound on nesting is only read off the session, so the inquiry starts in the same one
  have hbound : nestingBound σ = (.ok (depthIn σ), σ) := rfl
  rw [all, bind_ok hbound] at h
  exact Inquiry.run_refused (i := ⟨depthIn σ, true, b, σ⟩) he h

/-- A user, whose posts can be asked for with a bad limit. -/
def fewPosts : Session :=
  { Session.fresh with
    models := blog
    connections := [("main", .connection "main")]
    links := [("main", ⟨.make .sqlite none, false,
      [.rows [[("id", .number (.int 1))]] none]⟩)]
    modifiers := [("few", fun b => .ok (b.setLimit (some (.number (.int (-1))))))] }

/-- A relation that users do not have is found out before anything is sent. -/
theorem all_refused_unknownRelation : ∃ e τ,
    all .awaiting ((Builder.ofModel blogUser).load [⟨"drafts", none, none⟩]) fewPosts =
        (.error e, τ) ∧ e.isStructural = true ∧
      (prepare .awaiting ((Builder.ofModel blogUser).load [⟨"drafts", none, none⟩]) fewPosts).1 =
        .error e ∧ fewPosts.Silent τ := by
  have hfails : (match all .awaiting ((Builder.ofModel blogUser).load [⟨"drafts", none, none⟩])
      fewPosts with
      | (.error e, τ) => e.isStructural && τ.statements.isEmpty
      | (.ok _, _) => false) = true := by decide +kernel
  rcases hall : all .awaiting ((Builder.ofModel blogUser).load [⟨"drafts", none, none⟩]) fewPosts
    with ⟨e | ids, τ⟩
  · rw [hall, Bool.and_eq_true, List.isEmpty_iff] at hfails
    refine ⟨e, τ, rfl, hfails.1, ?_⟩
    obtain hearly | ⟨⟨_, _, hsent⟩, -⟩ := all_refused .awaiting _ fewPosts hfails.1 hall
    · exact hearly
    · rw [hfails.2] at hsent
      cases hsent
  · rw [hall] at hfails
    cases hfails

/-- A bad limit in the query for the posts is found out when the users are there. -/
theorem badLimit_found_late : ∃ e τ,
    all .awaiting ((Builder.ofModel blogUser).load [⟨"posts", some "few", none⟩]) fewPosts =
      (.error e, τ) ∧ e.isStructural = true ∧ ¬ fewPosts.Silent τ := by
  have hfails : (match all .awaiting
      ((Builder.ofModel blogUser).load [⟨"posts", some "few", none⟩]) fewPosts with
      | (.error e, τ) => e.isStructural && !τ.statements.isEmpty
      | (.ok _, _) => false) = true := by decide +kernel
  rcases hall : all .awaiting ((Builder.ofModel blogUser).load [⟨"posts", some "few", none⟩])
    fewPosts with ⟨e | ids, τ⟩
  · rw [hall, Bool.and_eq_true, Bool.not_eq_true'] at hfails
    refine ⟨e, τ, rfl, hfails.1, fun hsilent => ?_⟩
    have hnothing : τ.statements = [] := hsilent
    rw [hnothing] at hfails
    cases hfails.2
  · rw [hall] at hfails
    cases hfails

end Run
end PolyQuery
