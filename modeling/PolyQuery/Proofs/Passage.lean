import PolyQuery.Proofs.Onward

/-! Loads on their way. A load that has not ended yet has passed some frames and comes to the next
one: `Passes`. What it does from there on is what the loop does with the frames that wait, so a
load fails at the frame that it came to (`run_stops`), and two ways of running queries make the same
load if they make the same of each frame that it comes to (`run_congr`). -/
namespace PolyQuery
namespace Loader
variable {σ τ υ : Session} {fetch fetch' : Builder → Run (List Nat)} {ctx : LoadContext}
  {report : LoadReport} {frames waiting : List LoadFrame} {visits : List Visit}

/-- A load passes frames, visit by visit, and comes to those that wait then. -/
inductive Passes (fetch : Builder → Run (List Nat)) (ctx : LoadContext) :
    LoadReport → List LoadFrame → Session → List Visit → List LoadFrame → Session → Prop where
  | here {report : LoadReport} {frames : List LoadFrame} {σ : Session} :
      Passes fetch ctx report frames σ [] frames σ
  | visits {report : LoadReport} {v : Visit} {rest waiting : List LoadFrame} {later : List Visit}
      {τ : Session} (hv : v.IsDone fetch ctx)
      (hvisit : visit fetch ctx report v.frame rest v.before =
        (.ok (v.batch.isSome, v.children), v.after))
      (h : Passes fetch ctx (advance ctx report v.step v.batch.isSome) (rest ++ v.below) v.after
        later waiting τ) :
      Passes fetch ctx report (v.frame :: rest) v.before (v :: later) waiting τ

/-- After a visit, what is in the queue or below was so before. -/
theorem mem_allOf_visited {v : Visit} {rest : List LoadFrame} {s : LoadStep}
    (hs : s ∈ LoadStep.allOf ((rest ++ v.below).map LoadFrame.step)) :
    s ∈ LoadStep.allOf ((v.frame :: rest).map LoadFrame.step) := by
  rw [List.map_append, Visit.below, steps_of_frames, LoadStep.allOf_append] at hs
  rw [List.map_cons, LoadStep.allOf, LoadStep.all_eq, List.cons_append]
  exact List.mem_cons_of_mem _ (List.mem_append.2 (List.mem_append.1 hs).symm)

namespace Passes

/-- What waits was in the queue or below at first. -/
theorem mem_allOf (h : Passes fetch ctx report frames σ visits waiting τ) {s : LoadStep}
    (hs : s ∈ LoadStep.allOf (waiting.map LoadFrame.step)) :
    s ∈ LoadStep.allOf (frames.map LoadFrame.step) := by
  induction h with
  | here => exact hs
  | visits _ _ _ ih => exact mem_allOf_visited (ih hs)

/-- The loop goes on with the frames that wait. -/
theorem run_eq (h : Passes fetch ctx report frames σ visits waiting τ) (fuel : Nat) :
    run fetch ctx (fuel + visits.length) report frames σ =
      run fetch ctx fuel (reportOf ctx report visits) waiting τ := by
  induction h with
  | here => rfl
  | visits _ hvisit _ ih =>
    rw [List.length_cons, ← Nat.add_assoc, run_cons, Run.bind_ok hvisit]
    exact ih

/-- As many steps as there are visits left the queue. -/
theorem sizes_eq (h : Passes fetch ctx report frames σ visits waiting τ) :
    LoadStep.sizes (frames.map LoadFrame.step) =
      LoadStep.sizes (waiting.map LoadFrame.step) + visits.length := by
  induction h with
  | here => rfl
  | @visits report v rest waiting later τ _ _ _ ih =>
    rw [sizes_visited, ih, List.length_cons, Nat.add_assoc]

/-- The frames that wait are what is left of those that were there and of those that visits put
behind them. -/
theorem frames_eq (h : Passes fetch ctx report frames σ visits waiting τ) :
    frames ++ visits.flatMap Visit.below = visits.map Visit.frame ++ waiting := by
  induction h with
  | here => exact List.append_nil _
  | visits _ _ _ ih =>
    rw [List.flatMap_cons, List.cons_append, ← List.append_assoc, ih]
    rfl

/-- What waits will be taken after what was visited. -/
theorem taken {later : List LoadStep} (h : Passes fetch ctx report frames σ visits waiting τ)
    (hlater : Taken (waiting.map LoadFrame.step) later) :
    Taken (frames.map LoadFrame.step) (visits.map Visit.step ++ later) := by
  induction h with
  | here => exact hlater
  | visits _ _ _ ih =>
    have hnext := ih hlater
    rw [List.map_append, Visit.below, steps_of_frames] at hnext
    exact .cons hnext

/-- What queries keep is kept on the way. -/
theorem onward (hfetch : ∀ b, (fetch b).Proceeds)
    (h : Passes fetch ctx report frames σ visits waiting τ) : σ.Onward τ := by
  induction h with
  | here => exact .refl _
  | @visits report v rest _ _ _ _ hvisit _ ih =>
    have hfirst := proceeds_visit hfetch ctx report v.frame rest v.before
    rw [hvisit] at hfirst
    exact hfirst.trans ih

end Passes

/-- A load passes its first frame where the visit succeeds. -/
theorem passes_first {f : LoadFrame} {rest : List LoadFrame}
    (h : (visit fetch ctx report f rest σ).1.isOk = true) :
    ∃ v : Visit, v.frame = f ∧ Passes fetch ctx report (f :: rest) σ [v] (rest ++ v.below)
      (visit fetch ctx report f rest σ).2 := by
  obtain ⟨v, rfl, rfl, hv, hvisit⟩ | ⟨e, u, _, hvisit⟩ := visit_spec fetch ctx report f rest σ
  · refine ⟨v, rfl, ?_⟩
    rw [hvisit]
    exact .visits hv hvisit .here
  · rw [hvisit] at h
    cases h

/-- A load that fails does so at a frame that it came to. -/
theorem run_stops {fuel : Nat} {e : Error} {υ : Session}
    (h : run fetch ctx fuel report frames σ = (.error e, υ)) :
    ∃ visits f rest τ, Passes fetch ctx report frames σ visits (f :: rest) τ ∧
      visit fetch ctx (reportOf ctx report visits) f rest τ = (.error e, υ) := by
  induction fuel generalizing report frames σ with
  | zero => cases h
  | succ fuel ih =>
    cases frames with
    | nil => cases h
    | cons f rest =>
      rw [run_cons] at h
      obtain ⟨v, rfl, rfl, hv, hvisit⟩ | ⟨e', u, _, hvisit⟩ := visit_spec fetch ctx report f rest σ
      · rw [Run.bind_ok hvisit] at h
        obtain ⟨visits, g, others, τ, hpasses, hstops⟩ := ih h
        exact ⟨v :: visits, g, others, τ, .visits hv hvisit hpasses, hstops⟩
      · rw [Run.bind_error hvisit] at h
        cases h
        exact ⟨[], f, rest, σ, .here, hvisit⟩

theorem Asks.aborted_eq {f : LoadFrame} {b : Builder} {s : Session} (h : Asks ctx f σ b s) :
    aborted s = aborted σ := by
  obtain ⟨_, _, _, _, rfl⟩ := h.quiet
  rfl

/-- Two ways of running queries take the same turn if both stop before the batch, or neither does
and the batch gives the same. -/
theorem turn_congr {watched watched' : Bool} {f : LoadFrame} {rest : List LoadFrame} {b : Builder}
    (hstop : (watched && aborted σ) = (watched' && aborted σ))
    (hgo : (watched && aborted σ) = false → fetch b σ = fetch' b σ) :
    turn fetch (heeding ctx watched) report f rest b σ =
      turn fetch' (heeding ctx watched') report f rest b σ := by
  cases hwatched : watched && aborted σ with
  | true =>
    rw [turn_stopped fetch report f rest b hwatched,
      turn_stopped fetch' report f rest b (hstop ▸ hwatched)]
    rfl
  | false =>
    rw [turn_goes hwatched, turn_goes (hstop ▸ hwatched)]
    exact Run.bind_congr (hgo hwatched)

/-- Two ways of running queries, with the signal heeded or not, make the same visit if they make the
same turn once there is a batch. -/
theorem visit_congr {watched watched' : Bool} {f : LoadFrame} {rest : List LoadFrame}
    (h : ∀ b s, Asks ctx f σ b s → turn fetch (heeding ctx watched) report f rest b s =
      turn fetch' (heeding ctx watched') report f rest b s) :
    visit fetch (heeding ctx watched) report f rest σ =
      visit fetch' (heeding ctx watched') report f rest σ := by
  cases begins ctx f σ with
  | refused _ _ _ hvisit => rw [hvisit, hvisit]
  | idle _ _ _ hvisit => rw [hvisit, hvisit]
  | unbuilt _ _ _ hvisit => rw [hvisit, hvisit]
  | asks hasks => rw [hasks.turns, hasks.turns, h _ _ hasks]

/-- Two ways of running queries, with the signal heeded or not, make the same load if they make the
same of every frame that the first one comes to. -/
theorem run_congr {watched watched' : Bool} (fuel : Nat)
    (h : ∀ visits f rest τ,
      Passes fetch (heeding ctx watched) report frames σ visits (f :: rest) τ →
      visit fetch (heeding ctx watched) (reportOf ctx report visits) f rest τ =
        visit fetch' (heeding ctx watched') (reportOf ctx report visits) f rest τ) :
    run fetch (heeding ctx watched) fuel report frames σ =
      run fetch' (heeding ctx watched') fuel report frames σ := by
  induction fuel generalizing report frames σ with
  | zero => rfl
  | succ fuel ih =>
    cases frames with
    | nil => rfl
    | cons f rest =>
      -- what the two do first is the same, and then so is where they go on from
      have hfirst : visit fetch (heeding ctx watched) report f rest σ =
        visit fetch' (heeding ctx watched') report f rest σ := h [] f rest σ .here
      rw [run_cons, run_cons]
      obtain ⟨v, rfl, rfl, hv, hvisit⟩ | ⟨e, u, _, hvisit⟩ :=
        visit_spec fetch (heeding ctx watched) report f rest σ
      · rw [Run.bind_ok hvisit, Run.bind_ok (hfirst.symm.trans hvisit)]
        exact ih fun visits f rest τ hpasses =>
          h (v :: visits) f rest τ (.visits hv hvisit hpasses)
      · rw [Run.bind_error hvisit, Run.bind_error (hfirst.symm.trans hvisit)]

/-- Two ways of running queries make the same load if they do the same with every batch. -/
theorem load_congr {watched watched' : Bool} {roots : List Nat}
    (h : ∀ visits f rest τ b s, Passes fetch (heeding ctx watched) ⟨[], [], 0⟩
        (ctx.plan.steps.map fun s => ⟨s, roots⟩) σ visits (f :: rest) τ → Asks ctx f τ b s →
      (watched && aborted τ) = (watched' && aborted τ) ∧
        ((watched && aborted τ) = false → fetch b s = fetch' b s)) :
    load fetch (heeding ctx watched) roots σ = load fetch' (heeding ctx watched') roots σ := by
  refine run_congr _ fun visits f rest τ hpasses => visit_congr fun b s hasks => ?_
  obtain ⟨hstop, hgo⟩ := h visits f rest τ b s hpasses hasks
  rw [← hasks.aborted_eq] at hstop hgo
  exact turn_congr hstop hgo

/-! ## The end of a load -/

section
variable {roots : List Nat} {f : LoadFrame} {rest : List LoadFrame} {b : Builder} {s : Session}

/-- A load that ends has passed all frames. -/
theorem run_passes {fuel : Nat} {final : LoadReport}
    (hfuel : LoadStep.sizes (frames.map LoadFrame.step) ≤ fuel)
    (h : run fetch ctx fuel report frames σ = (.ok final, τ)) :
    ∃ visits, Passes fetch ctx report frames σ visits [] τ := by
  induction fuel generalizing report frames σ with
  | zero =>
    cases frames with
    | nil =>
      cases h
      exact ⟨[], .here⟩
    | cons f rest =>
      rw [List.map_cons, LoadStep.sizes, LoadStep.size_eq] at hfuel
      omega
  | succ fuel ih =>
    cases frames with
    | nil =>
      cases h
      exact ⟨[], .here⟩
    | cons f rest =>
      rw [run_cons] at h
      obtain ⟨v, rfl, rfl, hv, hvisit⟩ | ⟨e, u, -, hvisit⟩ := visit_spec fetch ctx report f rest σ
      · rw [Run.bind_ok hvisit] at h
        -- each visit takes a step off those that wait, so the fuel lasts
        rw [sizes_visited] at hfuel
        obtain ⟨later, hlater⟩ := ih (Nat.le_of_succ_le_succ hfuel) h
        exact ⟨v :: later, .visits hv hvisit hlater⟩
      · rw [Run.bind_error hvisit] at h
        cases h

/-- A load that ends has passed all frames, and reports what it did at them. -/
theorem load_passes {final : LoadReport} (h : load fetch ctx roots σ = (.ok final, τ)) :
    ∃ visits, Passes fetch ctx ⟨[], [], 0⟩ (ctx.plan.steps.map fun s => ⟨s, roots⟩) σ visits [] τ ∧
      final = reportOf ctx ⟨[], [], 0⟩ visits := by
  have hsteps := steps_of_frames ctx.plan.steps roots
  obtain ⟨visits, hpasses⟩ := run_passes (Nat.le_of_eq (congrArg LoadStep.sizes hsteps)) h
  have hsizes := hpasses.sizes_eq
  rw [hsteps] at hsizes
  have hrun : load fetch ctx roots σ = (.ok (reportOf ctx ⟨[], [], 0⟩ visits), τ) := by
    rw [load, hsizes]
    exact hpasses.run_eq 0
  cases h.symm.trans hrun
  exact ⟨visits, hpasses, rfl⟩

/-- A load fails where a visit fails. -/
theorem load_fails {e : Error} {υ : Session}
    (hpasses : Passes fetch ctx ⟨[], [], 0⟩ (ctx.plan.steps.map fun s => ⟨s, roots⟩) σ visits
      (f :: rest) τ)
    (hvisit : visit fetch ctx (reportOf ctx ⟨[], [], 0⟩ visits) f rest τ = (.error e, υ)) :
    load fetch ctx roots σ = (.error e, υ) := by
  -- a frame waits, so there is fuel for its visit
  obtain ⟨fuel, hfuel⟩ : ∃ fuel, LoadStep.sizes ctx.plan.steps = fuel + 1 + visits.length := by
    have hsizes := hpasses.sizes_eq
    rw [steps_of_frames, List.map_cons, LoadStep.sizes, LoadStep.size_eq] at hsizes
    exact ⟨LoadStep.sizes f.step.children + LoadStep.sizes (rest.map LoadFrame.step), by omega⟩
  rw [load, hfuel, hpasses.run_eq, run_cons, Run.bind_error hvisit]

/-- A load that comes to a batch with the signal given fails there. -/
theorem load_stopped (hwatched : ctx.watched = true)
    (hpasses : Passes fetch ctx ⟨[], [], 0⟩ (ctx.plan.steps.map fun s => ⟨s, roots⟩) σ visits
      (f :: rest) τ)
    (hasks : Asks ctx f τ b s) (haborted : aborted τ = true) :
    ∃ υ, load fetch ctx roots σ =
        (.error (.loadCancelled (visits.map fun v => v.step.node.path)
          (ctx.plan.paths.filter fun p => !(visits.map fun v => v.step.node.path).contains p)
          (τ.signal.bind Signal.reason)), υ) ∧
      υ.store = cleared (f :: rest) s.store ∧ υ.journal = τ.journal := by
  have hstop : (ctx.watched && aborted s) = true := by
    rw [hwatched, hasks.aborted_eq]
    exact haborted
  -- what is told as completed are the paths visited so far
  have hcompleted : (reportOf ctx ⟨[], [], 0⟩ visits).completed =
      visits.map fun v => v.step.node.path :=
    (reportOf_completed ⟨[], [], 0⟩ visits).trans (List.nil_append _)
  obtain ⟨log, hcancel⟩ := cancel_apply ctx (reportOf ctx ⟨[], [], 0⟩ visits) (f :: rest) s
  have hvisit : visit fetch ctx (reportOf ctx ⟨[], [], 0⟩ visits) f rest τ = _ :=
    ((hasks.turns fetch ctx.watched (reportOf ctx ⟨[], [], 0⟩ visits) rest).trans
      (turn_stopped fetch _ f rest b hstop)).trans hcancel
  rw [hcompleted] at hvisit
  refine ⟨{ s with store := cleared (f :: rest) s.store, log := log }, ?_, rfl, ?_⟩
  · obtain ⟨_, _, _, _, hs⟩ := hasks.quiet
    rw [load_fails hpasses hvisit, hs]
  · obtain ⟨_, _, _, _, hs⟩ := hasks.quiet
    rw [hs]

end

end Loader

/-! ## Queries below queries -/

namespace Run

/-- The records of a query, without their relations. -/
def records (w : Waiting) (b : Builder) : Run (List Nat) := do
  let c ← builderChannel b
  fetchRecords w c b.fields b.plan

theorem proceeds_records (w : Waiting) (b : Builder) : Proceeds (records w b) :=
  (serves_builderChannel b).proceeds.bind fun c => proceeds_fetchRecords w c b.fields b.plan

/-- The loads that belong to a query. -/
def contextOf (b : Builder) (plan : LoadPlan) (watched : Bool) : LoadContext :=
  ⟨plan, b.connection, b.channel, watched⟩

/-- How deep loads may be nested in a session. -/
def depthIn (σ : Session) : Nat :=
  (σ.links.flatMap fun l => l.2.replies).length + σ.pool.replies.length + 2

/-- A query is planned, then its records are fetched, and then their relations are loaded. -/
theorem allWithin_succ (w : Waiting) (depth : Nat) (watched : Bool) (b : Builder) (σ : Session) :
    allWithin w (depth + 1) watched b σ =
      match b.loadPlan? σ.models with
      | .error e => (.error e, σ)
      | .ok none => records w b σ
      | .ok (some plan) =>
        (records w b >>= fun ids =>
          Loader.load (allWithin w depth (watched && w = .awaiting)) (contextOf b plan watched)
            ids >>= fun _ => pure ids) σ := by
  have hplan : ofExcept (b.loadPlan? σ.models) σ = (b.loadPlan? σ.models, σ) := rfl
  rw [allWithin, bind_ok (session_apply σ)]
  cases hloads : b.loadPlan? σ.models with
  | error e =>
    rw [hloads] at hplan
    exact bind_error hplan
  | ok plan? =>
    rw [hloads] at hplan
    cases plan? with
    | none =>
      rw [bind_ok hplan]
      dsimp only
      -- a plan with nothing to load has the records alone
      simp only [bind_pure, records]
    | some plan =>
      rw [bind_ok hplan]
      dsimp only
      simp only [records, bind_assoc]
      rfl

end Run

/-- A query that is run: how deep loads may be nested below it, whether they heed the signal, and
the session in which it is run. -/
structure Inquiry where
  depth : Nat
  watched : Bool
  query : Builder
  session : Session

namespace Inquiry
open Loader
variable {w : Waiting}

/-- What comes of a query. -/
def run (w : Waiting) (i : Inquiry) : Except Error (List Nat) × Session :=
  Run.allWithin w i.depth i.watched i.query i.session

/-- The records of a query are there, and the load of its relations has come to a frame. -/
structure Comes (w : Waiting) (i : Inquiry) (depth : Nat) (plan : LoadPlan) (visits : List Visit)
    (f : LoadFrame) (rest : List LoadFrame) (τ : Session) : Prop where
  deeper : i.depth = depth + 1
  planned : i.query.loadPlan? i.session.models = .ok (some plan)
  passed : ∃ ids υ, Run.records w i.query i.session = (.ok ids, υ) ∧
    Passes (Run.allWithin w depth (i.watched && w = .awaiting))
      (Run.contextOf i.query plan i.watched) ⟨[], [], 0⟩
      (plan.steps.map fun s => ⟨s, ids⟩) υ visits (f :: rest) τ

/-- A query fails where a visit of the load below it fails. -/
theorem Comes.run_eq_error {i : Inquiry} {depth : Nat} {plan : LoadPlan} {visits : List Visit}
    {f : LoadFrame} {rest : List LoadFrame} {τ υ : Session} {e : Error}
    (h : i.Comes w depth plan visits f rest τ)
    (hvisit : visit (Run.allWithin w depth (i.watched && w = .awaiting))
      (Run.contextOf i.query plan i.watched)
      (reportOf (Run.contextOf i.query plan i.watched) ⟨[], [], 0⟩ visits) f rest τ =
        (.error e, υ)) : i.run w = (.error e, υ) := by
  obtain ⟨hdeeper, hplanned, ids, φ, hrecords, hpasses⟩ := h
  rw [run, hdeeper, Run.allWithin_succ, hplanned]
  dsimp only
  rw [Run.bind_ok hrecords, Run.bind_error (load_fails hpasses hvisit)]

/-- A query leads to another one when a load below it asks for it, at whatever depth. -/
inductive Reaches (w : Waiting) : Inquiry → Inquiry → Prop where
  | self (i : Inquiry) : Reaches w i i
  | through {i j : Inquiry} {depth : Nat} {plan : LoadPlan} {visits : List Visit} {f : LoadFrame}
      {rest : List LoadFrame} {τ s : Session} {b : Builder}
      (hcomes : i.Comes w depth plan visits f rest τ)
      (hasks : Asks (Run.contextOf i.query plan i.watched) f τ b s)
      (hgo : (i.watched && aborted τ) = false)
      (h : Reaches w ⟨depth, i.watched && w = .awaiting, b, s⟩ j) : Reaches w i j

/-- A query fails where one that it leads to fails. -/
theorem Reaches.run_eq_error {i j : Inquiry} {e : Error} {υ : Session} (h : Reaches w i j)
    (hfails : j.run w = (.error e, υ)) : i.run w = (.error e, υ) := by
  induction h with
  | self => exact hfails
  | through hcomes hasks hgo _ ih =>
    rw [← hasks.aborted_eq] at hgo
    exact hcomes.run_eq_error (((hasks.turns _ _ _ _).trans (turn_goes hgo)).trans
      (Run.bind_error (ih hfails)))

end Inquiry
end PolyQuery
