import PolyQuery.Proofs.Passage

/-! Awaited and blocking loads. On executors that support both, a load does the same whether its
batches are awaited or block, except that only an awaited batch passes the signal on to the loads
below it: `loadOnto_twin`. -/
namespace PolyQuery

/-! ## Channels -/

namespace Session
variable {σ τ : Session} {b : Builder} {c : Channel}

/-- Whether the server behind a channel supports blocking queries. -/
def allowsBlocking (σ : Session) : Channel → Bool
  | .connection name => ((σ.links.lookup name).map ServerLink.blocking).getD false
  | .pool => false
  | .client => false

theorem Onward.allowsBlocking (h : σ.Onward τ) (c : Channel) :
    τ.allowsBlocking c = σ.allowsBlocking c := by
  cases c with
  | connection name => exact congrArg (·.getD false) (h.blocking name)
  | pool | client => rfl

/-- The query can be awaited and can block: the executor of its channel supports both. -/
def BothWays (σ : Session) (b : Builder) : Prop :=
  ∀ c, σ.channel? b = some c → σ.allowsBlocking c = true

theorem Onward.bothWays (h : σ.Onward τ) (hb : σ.BothWays b) : τ.BothWays b := by
  intro c hc
  rw [h.allowsBlocking]
  exact hb c ((h.channel? b).symm.trans hc)

end Session

namespace Run
variable {σ : Session} {b : Builder} {c : Channel}

theorem perform_blocking (h : σ.allowsBlocking c = true) (compiled : Compiled) :
    perform .blocking c compiled σ = perform .awaiting c compiled σ := by
  obtain ⟨d, hd⟩ := dialectOf_apply c σ
  have hcan : canBlock c σ = (.ok (σ.allowsBlocking c), σ) := by cases c <;> rfl
  rw [h] at hcan
  rw [perform, perform, bind_ok hd, bind_ok hd, if_pos rfl, bind_ok hcan, if_neg (by decide)]
  rfl

theorem fetchRows_blocking (h : σ.allowsBlocking c = true) (fields : Option FieldMap)
    (p : SelectPlan) : fetchRows .blocking c fields p σ = fetchRows .awaiting c fields p σ := by
  obtain ⟨d, hd⟩ := dialectOf_apply c σ
  rw [fetchRows, fetchRows, bind_ok hd, bind_ok hd, bind_apply, bind_apply]
  have hcompiled : ofExcept (compile d (.query (.select p))) σ =
      (compile d (.query (.select p)), σ) := rfl
  rw [hcompiled]
  cases compile d (.query (.select p)) with
  | error e => rfl
  | ok compiled =>
    dsimp only
    rw [bind_apply, bind_apply, perform_blocking h]

/-- On an executor that supports both, records are fetched in the same way. -/
theorem records_blocking (h : σ.BothWays b) :
    records .blocking b σ = records .awaiting b σ := by
  obtain ⟨pool, opened, hchannel, _⟩ := builderChannel_apply b σ
  have hserved := serves_builderChannel b σ
  rw [hchannel] at hserved
  rw [records, records, bind_apply, bind_apply, hchannel]
  cases hc : σ.channel? b with
  | none => rfl
  | some c =>
    have hallows := (hserved.toOnward.allowsBlocking c).trans (h c hc)
    dsimp only
    rw [fetchRecords, fetchRecords, bind_apply, bind_apply, fetchRows_blocking hallows]

end Run

/-! ## Loads -/

namespace Loader
variable {σ τ : Session} {ctx : LoadContext} {plan : LoadPlan}

/-- A step to which a load may come: one of its plan, or one of a plan that the query of such a step
asks for. -/
inductive Within (σ : Session) (plan : LoadPlan) : LoadStep → Prop where
  | planned {s : LoadStep} (hs : s ∈ LoadStep.allOf plan.steps) : Within σ plan s
  | nested {s t : LoadStep} {q : Builder} {further : LoadPlan} (h : Within σ plan s)
      (hq : modifiedQuery σ s = .ok q) (hplan : q.loadPlan? σ.models = .ok (some further))
      (ht : t ∈ LoadStep.allOf further.steps) : Within σ plan t

theorem Within.onward (h : σ.Onward τ) {s : LoadStep} (hs : Within τ plan s) :
    Within σ plan s := by
  induction hs with
  | planned hs => exact .planned hs
  | nested _ hq hplan ht ih =>
    exact .nested ih ((modifiedQuery_onward h _).symm.trans hq) (h.models ▸ hplan) ht

/-- What a nested load may come to, the load around it may come to. -/
theorem Within.trans {s t : LoadStep} {q : Builder} {further : LoadPlan} (hs : Within σ plan s)
    (hq : modifiedQuery σ s = .ok q) (hplan : q.loadPlan? σ.models = .ok (some further))
    (ht : Within σ further t) : Within σ plan t := by
  induction ht with
  | planned ht => exact .nested hs hq hplan ht
  | nested _ hq' hplan' ht' ih => exact .nested ih hq' hplan' ht'

/-- All executors that a load may use support both awaiting and blocking. -/
structure Twofold (σ : Session) (plan : LoadPlan) (channel : Option Channel) : Prop where
  channel : ∀ c, channel = some c → σ.allowsBlocking c = true
  queries : ∀ s, Within σ plan s → ∀ q, modifiedQuery σ s = .ok q → σ.BothWays q

theorem Twofold.onward {channel : Option Channel} (h : σ.Onward τ) (hσ : Twofold σ plan channel) :
    Twofold τ plan channel where
  channel c hc := (h.allowsBlocking c).trans (hσ.channel c hc)
  queries s hs q hq :=
    h.bothWays (hσ.queries s (hs.onward h) q ((modifiedQuery_onward h s).symm.trans hq))

/-- The batches of such a load support both, and so do the loads below them. -/
theorem Twofold.batch (h : Twofold σ ctx.plan ctx.channel) {s : LoadStep}
    (hs : Within σ ctx.plan s) {q : Builder} (hq : modifiedQuery σ s = .ok q)
    (keys : List Value) : σ.BothWays (batchOf ctx s keys q) ∧
      ∀ plan, (batchOf ctx s keys q).loadPlan? σ.models = .ok (some plan) →
        Twofold σ plan (batchOf ctx s keys q).channel := by
  have hdirected := batchOf_channel ctx s keys q
  obtain ⟨condition, channel, hbatch⟩ := batchOf_eq ctx s keys q
  have hboth : σ.BothWays (batchOf ctx s keys q) := by
    have hconnection : (batchOf ctx s keys q).connection = q.connection := by rw [hbatch]
    have hquery := h.queries s hs q hq
    intro c hc
    unfold Session.channel? at hc
    rw [hdirected, hconnection] at hc
    -- the channel of the load is used for models of its connection, and any other has its own
    by_cases htarget : s.target.connection = ctx.rootConnection
    · rw [if_pos htarget] at hc
      cases hchannel : ctx.channel with
      | none =>
        rw [hchannel] at hc
        exact hquery c hc
      | some c' =>
        rw [hchannel] at hc
        cases hc
        exact h.channel c hchannel
    · rw [if_neg htarget] at hc
      exact hquery c hc
  refine ⟨hboth, fun further hplan => ⟨?_, ?_⟩⟩
  · intro c hc
    refine hboth c ?_
    unfold Session.channel?
    rw [hc]
    rfl
  · intro t ht q' hq'
    rw [hbatch] at hplan
    exact h.queries t (hs.trans hq hplan ht) q' hq'

end Loader

namespace Inquiry
open Loader
variable {w : Waiting} {i : Inquiry}

/-- Below a query a load that heeds the signal comes to a batch with the signal given. -/
def CutShort (w : Waiting) (i : Inquiry) : Prop :=
  ∃ (j : Inquiry) (depth : Nat) (plan : LoadPlan) (visits : List Visit) (f : LoadFrame)
    (rest : List LoadFrame) (τ : Session) (b : Builder) (s : Session),
    Reaches w i j ∧ j.Comes w depth plan visits f rest τ ∧
      Asks (Run.contextOf j.query plan j.watched) f τ b s ∧ (j.watched && aborted τ) = true

/-- A query below which a load is cut short fails as cancelled. -/
theorem CutShort.cancelled (h : CutShort w i) : ∃ completed pending reason υ,
    i.run w = (.error (.loadCancelled completed pending reason), υ) := by
  obtain ⟨j, depth, plan, visits, f, rest, τ, b, s, hreaches, hcomes, hasks, hstop⟩ := h
  rw [← hasks.aborted_eq] at hstop
  obtain ⟨log, hcancel⟩ := cancel_apply (Run.contextOf j.query plan j.watched)
    (reportOf (Run.contextOf j.query plan j.watched) ⟨[], [], 0⟩ visits) (f :: rest) s
  exact ⟨_, _, _, _, hreaches.run_eq_error (hcomes.run_eq_error
    (((hasks.turns _ j.watched _ rest).trans (turn_stopped _ _ f rest b hstop)).trans hcancel))⟩

/-- Loads that do not heed the signal are not cut short. -/
theorem not_cutShort (hwatched : i.watched = false) : ¬ CutShort w i := by
  rintro ⟨j, depth, plan, visits, f, rest, τ, b, s, hreaches, hcomes, hasks, hstop⟩
  induction hreaches with
  | self i =>
    rw [hwatched] at hstop
    cases hstop
  | through _ _ _ _ ih => exact ih (by dsimp only; rw [hwatched]; rfl) hcomes hasks hstop

/-- The batches that an awaited load comes to give the same when they block, unless a load below one
of them is cut short. -/
theorem fetch_twin {depth : Nat} {watched : Bool} {ctx : LoadContext} {σ τ s : Session}
    {frames rest : List LoadFrame} {report : LoadReport} {visits : List Visit} {f : LoadFrame}
    {b : Builder}
    (ih : ∀ b σ, σ.BothWays b →
      (∀ plan, b.loadPlan? σ.models = .ok (some plan) → Twofold σ plan b.channel) →
      ¬ CutShort .awaiting ⟨depth, watched, b, σ⟩ →
      Run.allWithin .awaiting depth watched b σ = Run.allWithin .blocking depth false b σ)
    (htwofold : Twofold σ ctx.plan ctx.channel)
    (hframes : ∀ t ∈ LoadStep.allOf (frames.map LoadFrame.step), Within σ ctx.plan t)
    (hpasses : Passes (Run.allWithin .awaiting depth watched) ctx report frames σ visits
      (f :: rest) τ)
    (hasks : Asks ctx f τ b s) (hfull : ¬ CutShort .awaiting ⟨depth, watched, b, s⟩) :
    Run.allWithin .awaiting depth watched b s = Run.allWithin .blocking depth false b s := by
  have honward := hpasses.onward (Run.proceeds_allWithin .awaiting depth watched)
  obtain ⟨q, hq, hbatch⟩ := hasks.query
  have hstep : Within σ ctx.plan f.step :=
    hframes _ (hpasses.mem_allOf (LoadStep.mem_allOf (List.mem_cons_self ..)))
  have hquery := (modifiedQuery_onward honward f.step).symm.trans hq
  obtain ⟨hboth, hbelow⟩ := htwofold.batch hstep hquery
    ((keysOf τ.store f).map fun k => boundValue τ.store k.2)
  rw [← hbatch] at hboth hbelow
  -- connections and models stay while a load goes on, so what held at first holds here
  have hsending : σ.Onward s := honward.trans hasks.quiet.onward
  refine ih b s (hsending.bothWays hboth) (fun plan hplan => ?_) hfull
  exact (hbelow plan (hsending.models ▸ hplan)).onward hsending

/-- A query is awaited with the same outcome as it blocks, unless a load below it is cut short. -/
theorem run_twin (depth : Nat) (watched : Bool) (b : Builder) (σ : Session) (hboth : σ.BothWays b)
    (hbelow : ∀ plan, b.loadPlan? σ.models = .ok (some plan) → Twofold σ plan b.channel)
    (hfull : ¬ CutShort .awaiting ⟨depth, watched, b, σ⟩) :
    Run.allWithin .awaiting depth watched b σ = Run.allWithin .blocking depth false b σ := by
  induction depth generalizing b σ with
  | zero => rfl
  | succ depth ih =>
    rw [Run.allWithin_succ, Run.allWithin_succ]
    have hheeds : (watched && decide (Waiting.awaiting = .awaiting)) = watched :=
      Bool.and_true watched
    rw [hheeds]
    cases hplan : b.loadPlan? σ.models with
    | error e => rfl
    | ok plan? =>
      cases plan? with
      | none => exact (Run.records_blocking hboth).symm
      | some plan =>
        dsimp only
        rw [Run.bind_apply, Run.bind_apply, Run.records_blocking hboth]
        rcases hrecords : Run.records .awaiting b σ with ⟨e | ids, υ⟩
        · rfl
        · have honward := Run.proceeds_records .awaiting b σ
          rw [hrecords] at honward
          suffices hload : load (Run.allWithin .awaiting depth watched)
              (heeding (Run.contextOf b plan watched) watched) ids υ =
                load (Run.allWithin .blocking depth false)
                  (heeding (Run.contextOf b plan watched) false) ids υ from Run.bind_congr hload
          refine load_congr fun visits f rest τ b' s hpasses hasks => ?_
          have hcomes : Comes .awaiting ⟨depth + 1, watched, b, σ⟩ depth plan visits f rest τ :=
            ⟨rfl, hplan, ids, υ, hrecords, hheeds.symm ▸ hpasses⟩
          -- a load that comes to a batch with the signal given is cut short there
          have hgoes : (watched && aborted τ) = false := by
            refine Bool.eq_false_iff.2 fun haborted => hfull ?_
            exact ⟨_, depth, plan, visits, f, rest, τ, b', s, .self _, hcomes, hasks, haborted⟩
          refine ⟨by rw [hgoes]; rfl, fun _ => ?_⟩
          refine fetch_twin ih ((hbelow plan hplan).onward honward) ?_ hpasses hasks ?_
          · rw [steps_of_frames]
            exact fun t ht => .planned ht
          · rintro ⟨j, depth', plan', visits', f', rest', τ', b'', s', hreaches, hcut⟩
            exact hfull ⟨j, depth', plan', visits', f', rest', τ', b'', s',
              .through hcomes hasks hgoes (hheeds.symm ▸ hreaches), hcut⟩

end Inquiry

namespace Loader
variable {σ : Session} {m : Model} {requests : List LoadRequest} {roots : List Nat}
  {connection : Option String} {channel : Option Channel}

/-- The load of a plan onto records of a model. -/
def ontoContext (m : Model) (connection : Option String) (channel : Option Channel)
    (plan : LoadPlan) : LoadContext := ⟨plan, connection.getD m.connection, channel, true⟩

theorem loadOnto_apply (w : Waiting) {plan : LoadPlan}
    (hplan : LoadPlan.make σ.models m requests = .ok plan) :
    Run.loadOnto w m requests roots connection channel σ =
      (load (Run.allWithin w (Run.depthIn σ) (w = .awaiting))
          (ontoContext m connection channel plan) roots >>=
        fun report => pure (plan, report)) σ := by
  have hmade := Run.ofExcept_ok hplan σ
  have hbound : Run.nestingBound σ = (.ok (Run.depthIn σ), σ) := rfl
  rw [Run.loadOnto, Run.bind_ok (Run.session_apply σ), Run.bind_ok hmade, Run.bind_ok hbound]
  rfl

/-- An awaited load comes, before the signal was given, to a batch below which it is cut short. -/
def CutBelow (m : Model) (roots : List Nat) (connection : Option String) (channel : Option Channel)
    (plan : LoadPlan) (σ : Session) : Prop :=
  ∃ visits f rest τ b s,
    Passes (Run.allWithin .awaiting (Run.depthIn σ) true) (ontoContext m connection channel plan)
        ⟨[], [], 0⟩ (plan.steps.map fun s => ⟨s, roots⟩) σ visits (f :: rest) τ ∧
      Asks (ontoContext m connection channel plan) f τ b s ∧ aborted τ = false ∧
      Inquiry.CutShort .awaiting ⟨Run.depthIn σ, true, b, s⟩

/-- The load of a plan whose batches are awaited, where the loads below them heed the signal or do
not. -/
def awaitedOnto (m : Model) (roots : List Nat) (connection : Option String)
    (channel : Option Channel) (plan : LoadPlan) (below : Bool) :
    Run (LoadPlan × LoadReport) := do
  let σ ← Run.session
  let report ← load (Run.allWithin .awaiting (Run.depthIn σ) below)
    (ontoContext m connection channel plan) roots
  return (plan, report)

/-- Awaited batches give the same when they block, unless a load below one of them heeds the signal
and is cut short. -/
theorem awaitedOnto_blocking {plan : LoadPlan} (below : Bool)
    (hplan : LoadPlan.make σ.models m requests = .ok plan) (htwofold : Twofold σ plan channel)
    (hfull : below = true → ¬ CutBelow m roots connection channel plan σ) :
    awaitedOnto m roots connection channel plan below σ =
      Run.loadOnto .blocking m requests roots connection channel σ := by
  rw [loadOnto_apply .blocking hplan, awaitedOnto, Run.bind_ok (Run.session_apply σ)]
  suffices hload : load (Run.allWithin .awaiting (Run.depthIn σ) below)
      (heeding (ontoContext m connection channel plan) true) roots σ =
        load (Run.allWithin .blocking (Run.depthIn σ) false)
          (heeding (ontoContext m connection channel plan) true) roots σ from
    Run.bind_congr hload
  refine load_congr fun visits f rest τ b s hpasses hasks => ⟨rfl, fun hgoes => ?_⟩
  refine Inquiry.fetch_twin (Inquiry.run_twin _ _) htwofold ?_ hpasses hasks ?_
  · rw [steps_of_frames]
    exact fun t ht => .planned ht
  · cases below with
    | false => exact Inquiry.not_cutShort rfl
    | true =>
      exact fun hbelow => hfull rfl ⟨visits, f, rest, τ, b, s, hpasses, hasks, hgoes, hbelow⟩

/-- An awaited load fails where a load below it is cut short. -/
theorem CutBelow.cancelled {plan : LoadPlan} (h : CutBelow m roots connection channel plan σ)
    (hplan : LoadPlan.make σ.models m requests = .ok plan) : ∃ completed pending reason υ,
    Run.loadOnto .awaiting m requests roots connection channel σ =
      (.error (.loadCancelled completed pending reason), υ) := by
  obtain ⟨visits, f, rest, τ, b, s, hpasses, hasks, hgoes, hbelow⟩ := h
  obtain ⟨completed, pending, reason, υ, hbatch⟩ := hbelow.cancelled
  refine ⟨completed, pending, reason, υ, ?_⟩
  rw [← hasks.aborted_eq] at hgoes
  have hturn := (hasks.turns (Run.allWithin .awaiting (Run.depthIn σ) true) true
    (reportOf (ontoContext m connection channel plan) ⟨[], [], 0⟩ visits) rest).trans
      (turn_goes (by rw [hgoes]; rfl))
  rw [loadOnto_apply .awaiting hplan]
  exact Run.bind_error (load_fails hpasses (hturn.trans (Run.bind_error hbatch)))

/-- Loading relations awaited and blocking is the same, with the same statements, the same slots and
the same report or error, on executors that support both; only where a load below an awaited batch
is cut short by the signal does the awaited load fail, and then the blocking one does what the
awaited one would do if the loads below it did not heed the signal. -/
theorem loadOnto_twin (m : Model) (requests : List LoadRequest) (roots : List Nat)
    (connection : Option String) (channel : Option Channel) (σ : Session)
    (htwofold : ∀ plan, LoadPlan.make σ.models m requests = .ok plan → Twofold σ plan channel) :
    Run.loadOnto .awaiting m requests roots connection channel σ =
        Run.loadOnto .blocking m requests roots connection channel σ ∨
      ∃ plan, LoadPlan.make σ.models m requests = .ok plan ∧
        CutBelow m roots connection channel plan σ ∧
        (∃ completed pending reason υ,
          Run.loadOnto .awaiting m requests roots connection channel σ =
            (.error (.loadCancelled completed pending reason), υ)) ∧
        Run.loadOnto .blocking m requests roots connection channel σ =
          awaitedOnto m roots connection channel plan false σ := by
  cases hplan : LoadPlan.make σ.models m requests with
  | error e =>
    refine .inl ?_
    have hmade : Run.ofExcept (LoadPlan.make σ.models m requests) σ = (.error e, σ) := by
      rw [hplan]
      rfl
    have hsession : Run.session σ = (.ok σ, σ) := rfl
    rw [Run.loadOnto, Run.loadOnto, Run.bind_ok hsession, Run.bind_ok hsession,
      Run.bind_error hmade, Run.bind_error hmade]
  | ok plan =>
    -- only a signal during a load below can tell the two apart, as the blocking one looks at it at
    -- its own level
    by_cases hcut : CutBelow m roots connection channel plan σ
    · exact .inr ⟨plan, rfl, hcut, hcut.cancelled hplan,
        (awaitedOnto_blocking false hplan (htwofold plan hplan) nofun).symm⟩
    · left
      have hsession : Run.session σ = (.ok σ, σ) := rfl
      have hawaited := awaitedOnto_blocking true hplan (htwofold plan hplan) fun _ => hcut
      rw [awaitedOnto, Run.bind_ok hsession] at hawaited
      exact (loadOnto_apply .awaiting hplan).trans hawaited

/-! ## Models whose loads can be awaited and can block -/

/-- The query of a step is that of a model, or what a modifier makes of it. -/
theorem modifiedQuery_cases {s : LoadStep} {q : Builder} (h : modifiedQuery σ s = .ok q) :
    ∃ m ∈ σ.models, q = .ofModel m ∨ ∃ c ∈ σ.modifiers, c.2 (.ofModel m) = .ok q := by
  unfold modifiedQuery at h
  cases hmodel : σ.models.find? fun m => m.name == s.target.name with
  | none =>
    rw [hmodel] at h
    cases h
  | some m =>
    refine ⟨m, List.mem_of_find?_eq_some hmodel, ?_⟩
    rw [hmodel] at h
    dsimp only at h
    -- a modifier that is not known is passed over
    cases hnamed : s.node.modifier.bind fun name => σ.modifiers.lookup name with
    | none =>
      rw [hnamed] at h
      exact .inl (Except.ok.inj h).symm
    | some change =>
      rw [hnamed] at h
      obtain ⟨name, _, hname⟩ := Option.bind_eq_some_iff.1 hnamed
      obtain ⟨before, after, heq, _⟩ := List.lookup_eq_some_iff.1 hname
      refine .inr ⟨(name, change), ?_, h⟩
      rw [heq]
      exact List.mem_append_cons_self

/-- A load uses only executors that support both if the models are on such ones and modifiers do not
lead away from them. -/
theorem Twofold.of_models (plan : LoadPlan)
    (hchannel : ∀ c, channel = some c → σ.allowsBlocking c = true)
    (hmodels : ∀ m ∈ σ.models, σ.BothWays (.ofModel m))
    (hmodifiers : ∀ c ∈ σ.modifiers, ∀ m ∈ σ.models, ∀ q, c.2 (.ofModel m) = .ok q →
      σ.BothWays q) : Twofold σ plan channel where
  channel := hchannel
  queries s _ q hq := by
    obtain ⟨m, hm, rfl | ⟨c, hc, hgives⟩⟩ := modifiedQuery_cases hq
    · exact hmodels m hm
    · exact hmodifiers c hc m hm q hgives

/-- The blog on a connection that supports both, where the posts of a user are asked for with their
tags, and a signal that comes with a statement. -/
def taggedBlog (after : Nat) : Session :=
  { Session.fresh with
    models := blog
    connections := [("main", .connection "main")]
    links := [("main", ⟨.make .sqlite none, true,
      [.rows [[("id", .number (.int 7)), ("user_id", .number (.int 1))]] none]⟩)]
    modifiers := [("tagged", fun b => .ok (b.load [⟨"tags", none, none⟩]))]
    signal := some ⟨after, none⟩
    store := { Store.empty with records := #[.ofRow [("id", .number (.int 1))]] } }

/-- Posts with their tags. -/
def taggedPosts : List LoadRequest := [⟨"posts", some "tagged", none⟩]

theorem taggedBlog_twofold (after : Nat) (plan : LoadPlan) :
    Twofold (taggedBlog after) plan none := by
  have hboth : ∀ m ∈ blog, ∀ b : Builder, b.connection = m.connection → b.channel = none →
      (taggedBlog after).BothWays b := by
    have hmain : ∀ m ∈ blog, m.connection = "main" := by
      have hall : (blog.all fun m => m.connection == "main") = true := by decide +kernel
      exact fun m hm => beq_iff_eq.1 (List.all_eq_true.1 hall m hm)
    intro m hm b hconnection hchannel c hc
    unfold Session.channel? at hc
    rw [hchannel, hconnection, hmain m hm] at hc
    cases hc
    rfl
  refine .of_models plan nofun (fun m hm => hboth m hm _ rfl rfl) ?_
  rintro c hc m hm q hq
  obtain rfl := List.mem_singleton.1 hc
  cases hq
  exact hboth m hm _ rfl rfl

/-- A signal that comes with the last statement makes no difference. -/
theorem loadOnto_twin_lateSignal :
    (∀ plan, LoadPlan.make (taggedBlog 2).models blogUser taggedPosts = .ok plan →
      Twofold (taggedBlog 2) plan none) ∧
    Run.loadOnto .awaiting blogUser taggedPosts [0] none none (taggedBlog 2) =
      Run.loadOnto .blocking blogUser taggedPosts [0] none none (taggedBlog 2) := by
  refine ⟨fun plan _ => taggedBlog_twofold 2 plan, ?_⟩
  obtain h | ⟨_, _, _, ⟨_, _, _, _, hcancelled⟩, _⟩ :=
    loadOnto_twin blogUser taggedPosts [0] none none (taggedBlog 2)
      fun plan _ => taggedBlog_twofold 2 plan
  · exact h
  · have hloaded : (Run.loadOnto .awaiting blogUser taggedPosts [0] none none
        (taggedBlog 2)).1.isOk = true := by decide +kernel
    rw [hcancelled] at hloaded
    cases hloaded

/-- A signal that comes with the posts keeps an awaited load from asking for their tags, but not a
blocking one. -/
theorem loadOnto_twin_apart :
    (∀ plan, Twofold (taggedBlog 1) plan none) ∧
      let awaited := Run.loadOnto .awaiting blogUser taggedPosts [0] none none (taggedBlog 1)
      let blocking := Run.loadOnto .blocking blogUser taggedPosts [0] none none (taggedBlog 1)
      (awaited.1.isOk = false ∧ awaited.2.journal.length = 1) ∧
        blocking.1.isOk = true ∧ blocking.2.journal.length = 2 :=
  ⟨taggedBlog_twofold 1, by decide +kernel⟩

end Loader
end PolyQuery
