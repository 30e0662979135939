import PolyQuery.Proofs.Calls
import PolyQuery.Proofs.LoadOrder
import PolyQuery.Proofs.ParentKeys
import PolyQuery.Session.Fetch

/-! Eager loading, visit by visit. A visit reads the keys of the parents, asks for the children by
one batch if there are keys, and attaches what it got. `load_visits` says which visits there are,
in which order they come, and how many batches they take. -/
namespace PolyQuery
namespace Loader
variable {σ : Session} {s : Store} {step : LoadStep}

/-! ## Batches -/

/-- The query for the children of a step, as the modifier leaves it. -/
def modifiedQuery (σ : Session) (s : LoadStep) : Except Error Builder :=
  match σ.models.find? fun m => m.name == s.target.name with
  | none => .error (.invalidPlan (.modelMissing s.target.name))
  | some m =>
    match s.node.modifier.bind fun name => σ.modifiers.lookup name with
    | some change => change (.ofModel m)
    | none => .ok (.ofModel m)

/-- The batch for some keys: the query, narrowed to the keys and directed to its channel. -/
def batchOf (ctx : LoadContext) (s : LoadStep) (keys : List Value) (q : Builder) : Builder :=
  directed ctx s ((childCriteria s keys).foldl Builder.filter q)

theorem childQuery_apply (s : LoadStep) (keys : List Value) (σ : Session) : childQuery s keys σ =
    ((modifiedQuery σ s).map fun q => (childCriteria s keys).foldl Builder.filter q, σ) := by
  have hmodel : Run.query s.target.name σ =
      (match σ.models.find? fun m => m.name == s.target.name with
        | none => .error (.invalidPlan (.modelMissing s.target.name))
        | some m => .ok (.ofModel m), σ) := by
    rw [Run.query, Run.bind_apply, Run.model, Run.bind_ok (Run.session_apply σ)]
    cases σ.models.find? fun m => m.name == s.target.name <;> rfl
  unfold modifiedQuery
  rw [childQuery, Run.bind_apply, hmodel]
  cases σ.models.find? fun m => m.name == s.target.name with
  | none => rfl
  | some m =>
    dsimp only
    rw [Run.bind_ok (Run.session_apply σ)]
    cases hchange : s.node.modifier.bind fun name => σ.modifiers.lookup name with
    | none => rfl
    | some change =>
      show (Run.ofExcept (change (.ofModel m)) >>= _ : Run Builder) σ = _
      rw [Run.bind_apply]
      dsimp only [Run.ofExcept]
      cases change (.ofModel m) <;> rfl

/-- A batch is handed to the channel of the load where the target is on the connection of the
roots, and goes where its query says otherwise. -/
theorem batchOf_channel (ctx : LoadContext) (s : LoadStep) (keys : List Value) (q : Builder) :
    (batchOf ctx s keys q).channel =
      if s.target.connection = ctx.rootConnection then ctx.channel.or q.channel else q.channel := by
  have hfilter (criteria : List Criterion) :
      (criteria.foldl Builder.filter q).channel = q.channel := by
    rw [Builder.foldl_filter, Builder.andWhere_eq]
  unfold batchOf directed
  cases ctx.channel with
  | none =>
    rw [hfilter]
    split <;> rfl
  | some c =>
    dsimp only
    split
    · rfl
    · exact hfilter _

/-- A batch is its query with another condition, on a channel. -/
theorem batchOf_eq (ctx : LoadContext) (s : LoadStep) (keys : List Value) (q : Builder) :
    ∃ condition channel,
      batchOf ctx s keys q = { q with condition := condition, channel := channel } := by
  obtain ⟨condition, hcondition⟩ :
      ∃ condition, (childCriteria s keys).foldl Builder.filter q = { q with condition := condition } :=
    ⟨_, (Builder.foldl_filter _ q).trans (q.andWhere_eq _)⟩
  unfold batchOf directed
  rw [hcondition]
  cases ctx.channel with
  | none => exact ⟨condition, q.channel, rfl⟩
  | some c =>
    dsimp only
    split
    · exact ⟨condition, some c, rfl⟩
    · exact ⟨condition, q.channel, rfl⟩

/-- Nothing was sent, and the store is the same to every reader. -/
def Quiet (σ τ : Session) : Prop :=
  ∃ store warnings log, σ.store.Alike store ∧
    τ = { σ with store := store, warnings := warnings, log := log }

theorem Quiet.modifiedQuery_eq {τ : Session} (h : Quiet σ τ) (s : LoadStep) :
    modifiedQuery τ s = modifiedQuery σ s := by
  obtain ⟨_, _, _, _, rfl⟩ := h
  rfl

/-- Whether the signal has been given. -/
def aborted (σ : Session) : Bool :=
  match σ.signal with
  | some signal => signal.after ≤ σ.served
  | none => false

/-- What is left to do for the children of a frame once their loading was announced. -/
def ask (fetch : Builder → Run (List Nat)) (ctx : LoadContext) (report : LoadReport)
    (frames : List LoadFrame) (s : LoadStep) (keys : List Value) : Run (List Nat) := do
  let b ← childQuery s keys
  if ctx.watched && (← Run.isAborted) then cancel ctx report frames
  fetch (directed ctx s b)

variable {fetch : Builder → Run (List Nat)} {ctx : LoadContext} {report : LoadReport}
  {frames : List LoadFrame} {keys : List Value}

/-- The same load, with the signal heeded or not. -/
def heeding (ctx : LoadContext) (watched : Bool) : LoadContext := { ctx with watched := watched }

/-- What was announced depends on the step and the keys only: a warning, if the children come from
another connection than the parents, and lines of log. -/
theorem loadChildren_eq (ctx : LoadContext) (s : LoadStep) (keys : List Value) (σ : Session) :
    ∃ log, ∀ (fetch : Builder → Run (List Nat)) (watched : Bool) (report : LoadReport)
      (frames : List LoadFrame), loadChildren fetch (heeding ctx watched) report frames s keys σ =
        ask fetch (heeding ctx watched) report frames s keys
          { σ with warnings := σ.warnings ++ (crossing? ctx s).toList, log := log } := by
  unfold loadChildren ask
  have hcrossing (watched : Bool) : crossing? (heeding ctx watched) s = crossing? ctx s := rfl
  simp only [hcrossing]
  cases crossing? ctx s with
  | none =>
    simp only [Option.toList_none, List.append_nil]
    exact ⟨_, fun _ _ _ _ => rfl⟩
  | some w => exact ⟨_, fun _ _ _ _ => rfl⟩

/-- The store with the slots of some frames not loaded. -/
def cleared (frames : List LoadFrame) (s : Store) : Store :=
  frames.foldl (fun s f => f.parents.foldl (fun s id => s.clear id (some f.step.node.slot)) s) s

/-- A load that is cancelled fails with what was completed and what was not, and leaves the slots of
the frames that wait not loaded. -/
theorem cancel_apply {α : Type} (ctx : LoadContext) (report : LoadReport) (frames : List LoadFrame)
    (σ : Session) : ∃ log, (cancel ctx report frames : Run α) σ =
      (.error (.loadCancelled report.completed
          (ctx.plan.paths.filter fun p => !report.completed.contains p)
          (σ.signal.bind Signal.reason)),
        { σ with store := cleared frames σ.store, log := log }) := ⟨_, rfl⟩

theorem steps_of_frames (steps : List LoadStep) (parents : List Nat) :
    (steps.map fun s => (⟨s, parents⟩ : LoadFrame)).map LoadFrame.step = steps := by
  rw [List.map_map]
  exact List.map_id _

/-! ## Visits -/

/-- A visit of a frame: its step and parents, the keys of the parents, the batch if there was one,
the children, and the sessions before and after. -/
structure Visit where
  step : LoadStep
  parents : List Nat
  keys : List (String × Value)
  batch : Option Builder
  children : List Nat
  before : Session
  after : Session

namespace Visit

/-- The frame that is visited. -/
def frame (v : Visit) : LoadFrame := ⟨v.step, v.parents⟩

/-- The frames for which a visit gives the parents. -/
def below (v : Visit) : List LoadFrame := v.step.children.map fun s => ⟨s, v.children⟩

/-- Without keys there is no batch, and the slots show nothing. -/
structure IsIdle (v : Visit) : Prop where
  batch : v.batch = none
  children : v.children = []
  after : ∃ store, v.after = { v.before with store := store } ∧
    ∀ p ∈ v.parents, p < v.before.store.records.size → store.Shows p v.step.node.slot
      (if v.step.relation.isToMany then .array [] else .null)
      (v.step.relation.lifetime.or v.before.relationLifetime)

/-- With keys there is one batch, for all of them, and nothing is sent before; what it brings is
attached. -/
structure IsAsked (fetch : Builder → Run (List Nat)) (ctx : LoadContext) (v : Visit) (q b : Builder)
    (sending received : Session) : Prop where
  query : modifiedQuery v.before v.step = .ok q
  batch : b = batchOf ctx v.step (v.keys.map fun k => boundValue v.before.store k.2) q
  recorded : v.batch = some b
  quiet : Quiet v.before sending
  fetched : fetch b sending = (.ok v.children, received)
  attached : attach v.step v.parents v.children received = (.ok (), v.after)

/-- What a visit does. -/
structure IsDone (fetch : Builder → Run (List Nat)) (ctx : LoadContext) (v : Visit) : Prop where
  keys : FirstKeys v.before.store v.step.parentKey v.parents v.keys
  idle : v.keys = [] → v.IsIdle
  asked : v.keys ≠ [] → ∃ q b sending received, v.IsAsked fetch ctx q b sending received

end Visit

/-- Why a load stops at a frame: the key of a parent is refused, or, where there are keys, the query
cannot be built, the signal was given, the batch failed, or a key is refused when the children are
attached. -/
inductive Stops (fetch : Builder → Run (List Nat)) (ctx : LoadContext) (f : LoadFrame)
    (σ : Session) : Error → Prop where
  | refused {p : Nat} {e : Error} (hp : p ∈ f.parents)
      (h : (σ.store.readKey p f.step.parentKey).1 = .error e) : Stops fetch ctx f σ e
  | unbuilt {keys : List (String × Value)} {e : Error}
      (hkeys : FirstKeys σ.store f.step.parentKey f.parents keys) (hasked : keys ≠ [])
      (h : modifiedQuery σ f.step = .error e) : Stops fetch ctx f σ e
  | cancelled {keys : List (String × Value)} {completed pending : List String}
      {reason : Option Value} (hkeys : FirstKeys σ.store f.step.parentKey f.parents keys)
      (hasked : keys ≠ []) (hwatched : ctx.watched = true) (h : aborted σ = true) :
      Stops fetch ctx f σ (.loadCancelled completed pending reason)
  | failed {keys : List (String × Value)} {q : Builder} {e : Error} {sending τ : Session}
      (hkeys : FirstKeys σ.store f.step.parentKey f.parents keys) (hasked : keys ≠ [])
      (hq : modifiedQuery σ f.step = .ok q) (hquiet : Quiet σ sending)
      (h : fetch (batchOf ctx f.step (keys.map fun k => boundValue σ.store k.2) q) sending =
        (.error e, τ)) : Stops fetch ctx f σ e
  | unattached {keys : List (String × Value)} {q : Builder} {children : List Nat} {e : Error}
      {sending received : Session}
      (hkeys : FirstKeys σ.store f.step.parentKey f.parents keys) (hasked : keys ≠ [])
      (hq : modifiedQuery σ f.step = .ok q) (hquiet : Quiet σ sending)
      (hfetched : fetch (batchOf ctx f.step (keys.map fun k => boundValue σ.store k.2) q) sending =
        (.ok children, received))
      (h : (∃ c ∈ children, (received.store.readKey c f.step.childKey).1 = .error e) ∨
        ∃ p ∈ f.parents, ∃ u : Store, (u.readKey p f.step.parentKey).1 = .error e) :
      Stops fetch ctx f σ e

/-- One turn of the loop: whether a batch was sent, and the children. -/
def visit (fetch : Builder → Run (List Nat)) (ctx : LoadContext) (report : LoadReport)
    (f : LoadFrame) (rest : List LoadFrame) : Run (Bool × List Nat) := do
  let keys ← distinctKeys f.step.parentKey [] f.parents
  let values ← keys.mapM fun k => bindable k.2
  let children ←
    if !values.isEmpty then loadChildren fetch ctx report (f :: rest) f.step values else pure []
  attach f.step f.parents children
  return (!values.isEmpty, children)

theorem run_cons (fuel : Nat) (f : LoadFrame) (rest : List LoadFrame) :
    run fetch ctx (fuel + 1) report (f :: rest) =
      visit fetch ctx report f rest >>= fun r => run fetch ctx fuel (advance ctx report f.step r.1)
        (rest ++ f.step.children.map fun s => ⟨s, r.2⟩) := by
  rw [run, visit]
  simp only [bind_assoc, pure_bind]
  refine congrArg _ (funext fun keys => congrArg _ (funext fun values => ?_))
  split <;> simp only [bind_assoc, pure_bind]

/-! ## Turns -/

/-- The keys of the parents of a frame. -/
def keysOf (s : Store) (f : LoadFrame) : List (String × Value) :=
  f.parents.foldl (noteKey s f.step.parentKey) []

theorem firstKeys_keysOf (s : Store) (f : LoadFrame) :
    FirstKeys s f.step.parentKey f.parents (keysOf s f) := firstKeys_foldl ..

/-- What is left of a visit once its batch is known. -/
def turn (fetch : Builder → Run (List Nat)) (ctx : LoadContext) (report : LoadReport)
    (f : LoadFrame) (rest : List LoadFrame) (b : Builder) : Run (Bool × List Nat) := do
  if ctx.watched && (← Run.isAborted) then cancel ctx report (f :: rest)
  let children ← fetch b
  attach f.step f.parents children
  return (true, children)

/-- With the signal given, a load ends instead of asking. -/
theorem turn_stopped (fetch : Builder → Run (List Nat)) (report : LoadReport) (f : LoadFrame)
    (rest : List LoadFrame) (b : Builder) (h : (ctx.watched && aborted σ) = true) :
    turn fetch ctx report f rest b σ =
      (cancel ctx report (f :: rest) : Run (Bool × List Nat)) σ := by
  have haborted : Run.isAborted σ = (.ok (aborted σ), σ) := rfl
  rw [turn, Run.bind_ok haborted, h]
  rfl

theorem turn_goes {f : LoadFrame} {rest : List LoadFrame} {b : Builder}
    (h : (ctx.watched && aborted σ) = false) : turn fetch ctx report f rest b σ =
      (fetch b >>= fun children => attach f.step f.parents children >>=
        fun _ => pure (true, children)) σ := by
  have haborted : Run.isAborted σ = (.ok (aborted σ), σ) := rfl
  rw [turn, Run.bind_ok haborted, h]
  rfl

/-- A visit comes to a batch, however queries are run and whether or not the signal is heeded. -/
structure Asks (ctx : LoadContext) (f : LoadFrame) (σ : Session) (b : Builder) (s : Session) :
    Prop where
  accepted : ∀ p ∈ f.parents, σ.store.hasKey p f.step.parentKey = true
  asked : keysOf σ.store f ≠ []
  query : ∃ q, modifiedQuery σ f.step = .ok q ∧
    b = batchOf ctx f.step ((keysOf σ.store f).map fun k => boundValue σ.store k.2) q
  quiet : Quiet σ s
  turns : ∀ (fetch : Builder → Run (List Nat)) (watched : Bool) (report : LoadReport)
    (rest : List LoadFrame), visit fetch (heeding ctx watched) report f rest σ =
      turn fetch (heeding ctx watched) report f rest b s

/-- How a visit begins: a key is refused, there are no keys, the query cannot be built, or there is
a batch to ask for. -/
inductive Begins (ctx : LoadContext) (f : LoadFrame) (σ : Session) : Prop where
  | refused {p : Nat} {e : Error} {τ : Session} (hp : p ∈ f.parents)
      (he : (σ.store.readKey p f.step.parentKey).1 = .error e) (hquiet : Quiet σ τ)
      (h : ∀ (fetch : Builder → Run (List Nat)) (watched : Bool) (report : LoadReport)
        (rest : List LoadFrame),
        visit fetch (heeding ctx watched) report f rest σ = (.error e, τ))
  | idle {t : Store} (haccepted : ∀ p ∈ f.parents, σ.store.hasKey p f.step.parentKey = true)
      (hkeys : keysOf σ.store f = []) (halike : σ.store.Alike t)
      (h : ∀ (fetch : Builder → Run (List Nat)) (watched : Bool) (report : LoadReport)
        (rest : List LoadFrame), visit fetch (heeding ctx watched) report f rest σ =
          (attach f.step f.parents [] >>= fun _ => pure (false, [])) { σ with store := t })
  | unbuilt {e : Error} {τ : Session} (hasked : keysOf σ.store f ≠ [])
      (he : modifiedQuery σ f.step = .error e) (hquiet : Quiet σ τ)
      (h : ∀ (fetch : Builder → Run (List Nat)) (watched : Bool) (report : LoadReport)
        (rest : List LoadFrame),
        visit fetch (heeding ctx watched) report f rest σ = (.error e, τ))
  | asks {b : Builder} {s : Session} (h : Asks ctx f σ b s)

/-- A batch is asked for unless the signal was given before. -/
theorem ask_built {q : Builder} (hq : modifiedQuery σ step = .ok q) :
    ask fetch ctx report frames step keys σ = (do
      if ctx.watched && (← Run.isAborted) then cancel ctx report frames
      fetch (batchOf ctx step keys q)) σ := by
  have hquery := childQuery_apply step keys σ
  rw [hq] at hquery
  rw [ask, Run.bind_ok hquery]
  rfl

theorem ask_unbuilt {e : Error} (he : modifiedQuery σ step = .error e) :
    ask fetch ctx report frames step keys σ = (.error e, σ) := by
  have hquery := childQuery_apply step keys σ
  rw [he] at hquery
  exact Run.bind_error hquery

/-- A visit with keys announces that it loads, and then asks. -/
theorem visit_of_keys (ctx : LoadContext) {f : LoadFrame} {t : Store} (hasked : keysOf σ.store f ≠ [])
    (halike : σ.store.Alike t) (hread : distinctKeys f.step.parentKey [] f.parents σ =
      (.ok (keysOf σ.store f), { σ with store := t })) :
    ∃ sending, Quiet σ sending ∧
      sending.warnings = σ.warnings ++ (crossing? ctx f.step).toList ∧
      ∀ (fetch : Builder → Run (List Nat)) (watched : Bool) (report : LoadReport)
        (rest : List LoadFrame), visit fetch (heeding ctx watched) report f rest σ =
          (ask fetch (heeding ctx watched) report (f :: rest) f.step
              ((keysOf σ.store f).map fun k => boundValue σ.store k.2) >>=
            fun children => attach f.step f.parents children >>= fun _ => pure (true, children))
            sending := by
  -- from here on it does not matter which keys there are, only that there are some
  generalize hkeys : keysOf σ.store f = keys at hasked hread
  obtain ⟨u, hu, hvalues⟩ := mapM_bindable (σ := { σ with store := t }) halike keys
  obtain ⟨log, hload⟩ := loadChildren_eq ctx f.step
    (keys.map fun k => boundValue σ.store k.2) { σ with store := u }
  have hnonempty : (!(keys.map fun k => boundValue σ.store k.2).isEmpty) = true := by
    cases keys with
    | nil => exact (hasked rfl).elim
    | cons k keys => rfl
  refine ⟨_, ⟨u, _, log, hu, rfl⟩, rfl, fun fetch watched report rest => ?_⟩
  rw [visit, Run.bind_ok hread, Run.bind_ok hvalues, if_pos hnonempty, hnonempty,
    Run.bind_apply, hload, ← Run.bind_apply]

/-- How a visit with keys begins. -/
theorem begins_of_keys {f : LoadFrame} {t : Store}
    (haccepted : ∀ p ∈ f.parents, σ.store.hasKey p f.step.parentKey = true)
    (hasked : keysOf σ.store f ≠ []) (halike : σ.store.Alike t)
    (hread : distinctKeys f.step.parentKey [] f.parents σ =
      (.ok (keysOf σ.store f), { σ with store := t })) : Begins ctx f σ := by
  obtain ⟨sending, hquiet, -, hvisit⟩ := visit_of_keys ctx hasked halike hread
  have hmodified := hquiet.modifiedQuery_eq f.step
  cases hq : modifiedQuery σ f.step with
  | error e =>
    refine .unbuilt hasked hq hquiet fun fetch watched report rest => ?_
    rw [hvisit, Run.bind_error (ask_unbuilt (hmodified.trans hq))]
  | ok q =>
    refine .asks ⟨haccepted, hasked, ⟨q, hq, rfl⟩, hquiet, ?_⟩
    intro fetch watched report rest
    rw [hvisit, Run.bind_apply, ask_built (hmodified.trans hq), ← Run.bind_apply, turn, bind_assoc]
    have hbatch (values : List Value) :
        batchOf (heeding ctx watched) f.step values q = batchOf ctx f.step values q := rfl
    refine congrFun (congrArg _ (funext fun stop => ?_)) sending
    split <;> simp only [bind_assoc, hbatch]

theorem begins (ctx : LoadContext) (f : LoadFrame) (σ : Session) : Begins ctx f σ := by
  obtain ⟨t, halike, ⟨haccepted, hread⟩ | ⟨e, ⟨p, hp, he⟩, hread⟩⟩ :=
    distinctKeys_spec f.step.parentKey f.parents (Store.Agree.refl _ σ.store) []
  · by_cases hasked : keysOf σ.store f = []
    · refine .idle haccepted hasked halike fun fetch watched report rest => ?_
      change distinctKeys f.step.parentKey [] f.parents σ = (.ok (keysOf σ.store f), _) at hread
      rw [hasked] at hread
      have hvalues : (([] : List (String × Value)).mapM fun k => bindable k.2 : Run (List Value))
          { σ with store := t } = (.ok [], { σ with store := t }) := rfl
      rw [visit, Run.bind_ok hread, Run.bind_ok hvalues]
      rfl
    · exact begins_of_keys haccepted hasked halike hread
  · refine .refused (τ := { σ with store := t }) hp he ⟨t, _, _, halike, rfl⟩ ?_
    intro fetch watched report rest
    rw [visit, Run.bind_error hread]

/-- A visit that comes to a batch has warned if the batch goes to another connection, and of nothing
else. -/
theorem Asks.warnings {f : LoadFrame} {b : Builder} {s : Session} (h : Asks ctx f σ b s) :
    s.warnings = σ.warnings ++ (crossing? ctx f.step).toList := by
  -- where the batch fails at once, the session is left as the batch would have found it
  have hfails (e : Error) : visit (fun _ => Run.fail e) (heeding ctx false) ⟨[], [], 0⟩ f [] σ =
      (.error e, s) := by
    rw [h.turns, turn_goes rfl]
    rfl
  obtain ⟨t, halike, ⟨-, hread⟩ | ⟨e, ⟨p, hp, he⟩, -⟩⟩ :=
    distinctKeys_spec f.step.parentKey f.parents (Store.Agree.refl _ σ.store) []
  · obtain ⟨sending, hquiet, hwarned, hvisit⟩ :=
      visit_of_keys ctx h.asked halike hread
    obtain ⟨q, hq, -⟩ := h.query
    have hsent := hfails .transactionClosed
    rw [hvisit, Run.bind_error ((ask_built ((hquiet.modifiedQuery_eq f.step).trans hq)).trans rfl)]
      at hsent
    cases hsent
    exact hwarned
  · rw [Store.readKey_ok (h.accepted p hp)] at he
    cases he

/-- A visit without keys is done. -/
theorem visit_idle {f : LoadFrame} {rest : List LoadFrame} {t : Store}
    (haccepted : ∀ p ∈ f.parents, σ.store.hasKey p f.step.parentKey = true)
    (hkeys : keysOf σ.store f = []) (halike : σ.store.Alike t)
    (hvisit : visit fetch ctx report f rest σ =
      (attach f.step f.parents [] >>= fun _ => pure (false, [])) { σ with store := t }) :
    ∃ v : Visit, v.before = σ ∧ v.frame = f ∧ v.IsDone fetch ctx ∧
      visit fetch ctx report f rest σ = (.ok (v.batch.isSome, v.children), v.after) := by
  have hfirst := firstKeys_keysOf σ.store f
  rw [hkeys] at hfirst
  have hidle : ∀ p ∈ f.parents, Idle (t.value p f.step.parentKey) := by
    intro p hp
    rw [Store.Agree.value halike trivial]
    exact idle_of_keyless (haccepted p hp) (hfirst.keyless hp)
  -- without keys nothing is asked, and each parent is given what stands for nothing
  obtain ⟨u, hattach, hshows⟩ := attach_nothing (σ := { σ with store := t }) hidle
  refine ⟨⟨f.step, f.parents, [], none, [], σ, { σ with store := u }⟩, rfl, rfl,
    ⟨hfirst, fun _ => ⟨rfl, rfl, u, rfl, ?_⟩, fun h => (h rfl).elim⟩, ?_⟩
  · intro p hp hthere
    have hnothing : nothing f.step = if f.step.relation.isToMany then .array [] else .null := by
      unfold nothing
      cases f.step.relation.isToMany <;> rfl
    rw [← hnothing]
    exact hshows p hp (halike.size ▸ hthere)
  · rw [hvisit]
    exact Run.bind_ok hattach

/-- A visit that comes to a batch is done, unless the signal was given, the batch fails, or a key is
refused when the children are attached. -/
theorem visit_asked {f : LoadFrame} {rest : List LoadFrame} {b : Builder} {s : Session}
    (h : Asks ctx f σ b s) :
    (∃ v : Visit, v.before = σ ∧ v.frame = f ∧ v.IsDone fetch ctx ∧
      visit fetch ctx report f rest σ = (.ok (v.batch.isSome, v.children), v.after)) ∨
    ∃ e u, Stops fetch ctx f σ e ∧ visit fetch ctx report f rest σ = (.error e, u) := by
  have hkeys := firstKeys_keysOf σ.store f
  obtain ⟨-, hasked, ⟨q, hq, rfl⟩, hquiet, hturns⟩ := h
  generalize hb : batchOf ctx f.step ((keysOf σ.store f).map fun k => boundValue σ.store k.2) q = b
    at hturns
  have hvisit : visit fetch ctx report f rest σ = turn fetch ctx report f rest b s :=
    hturns fetch ctx.watched report rest
  have haborted : aborted s = aborted σ := by
    obtain ⟨_, _, _, _, rfl⟩ := hquiet
    rfl
  rw [hvisit]
  -- a signal is looked at behind the batch, before the query; then the query may fail, and the
  -- attaching
  cases hstop : ctx.watched && aborted σ with
  | true =>
    rw [turn_stopped fetch report f rest b (by rw [haborted]; exact hstop)]
    obtain ⟨log, hcancel⟩ := cancel_apply ctx report (f :: rest) s
    rw [Bool.and_eq_true] at hstop
    exact .inr ⟨_, _, .cancelled hkeys hasked hstop.1 hstop.2, hcancel⟩
  | false =>
    rw [turn_goes (by rw [haborted]; exact hstop)]
    rcases hfetch : fetch b s with ⟨e | children, received⟩
    · subst hb
      exact .inr ⟨e, received, .failed hkeys hasked hq hquiet hfetch, Run.bind_error hfetch⟩
    · rw [Run.bind_ok hfetch]
      rcases hattach : attach f.step f.parents children received with ⟨e | _, after⟩
      · subst hb
        exact .inr ⟨e, after, .unattached hkeys hasked hq hquiet hfetch (attach_refused hattach),
          Run.bind_error hattach⟩
      · refine .inl ⟨⟨f.step, f.parents, keysOf σ.store f, some b, children, σ, after⟩, rfl, rfl,
          ⟨hkeys, fun h => (hasked h).elim, fun _ => ?_⟩, Run.bind_ok hattach⟩
        exact ⟨q, b, s, received, hq, hb.symm, rfl, hquiet, hfetch, hattach⟩

/-- A visit does its work or stops for one of the reasons. -/
theorem visit_spec (fetch : Builder → Run (List Nat)) (ctx : LoadContext) (report : LoadReport)
    (f : LoadFrame) (rest : List LoadFrame) (σ : Session) :
    (∃ v : Visit, v.before = σ ∧ v.frame = f ∧ v.IsDone fetch ctx ∧
      visit fetch ctx report f rest σ = (.ok (v.batch.isSome, v.children), v.after)) ∨
    ∃ e u, Stops fetch ctx f σ e ∧ visit fetch ctx report f rest σ = (.error e, u) := by
  cases begins ctx f σ with
  | refused hp he _ h => exact .inr ⟨_, _, .refused hp he, h fetch ctx.watched report rest⟩
  | idle haccepted hkeys halike h =>
    exact .inl (visit_idle haccepted hkeys halike (h fetch ctx.watched report rest))
  | unbuilt hasked he _ h =>
    exact .inr ⟨_, _, .unbuilt (firstKeys_keysOf σ.store f) hasked he,
      h fetch ctx.watched report rest⟩
  | asks h => exact visit_asked h

/-! ## Loads -/

/-- How a load goes on from the frames that wait: one is visited after another, and the frames for
which a visit gives the parents wait behind the others. It ends in a session when nothing waits, or
stops at a frame. -/
inductive Loads (fetch : Builder → Run (List Nat)) (ctx : LoadContext) :
    List LoadFrame → Session → List Visit → Except Error Session → Prop where
  | ends (σ : Session) : Loads fetch ctx [] σ [] (.ok σ)
  | visits {v : Visit} {rest : List LoadFrame} {later : List Visit} {r : Except Error Session}
      (hv : v.IsDone fetch ctx) (h : Loads fetch ctx (rest ++ v.below) v.after later r) :
      Loads fetch ctx (v.frame :: rest) v.before (v :: later) r
  | stops {f : LoadFrame} {rest : List LoadFrame} {σ : Session} {e : Error}
      (h : Stops fetch ctx f σ e) : Loads fetch ctx (f :: rest) σ [] (.error e)

/-- The report after visits. -/
def reportOf (ctx : LoadContext) (report : LoadReport) (visits : List Visit) : LoadReport :=
  visits.foldl (fun report v => advance ctx report v.step v.batch.isSome) report

/-- The step that was visited leaves the queue, and those below it wait at its end. -/
theorem sizes_visited (v : Visit) (rest : List LoadFrame) :
    LoadStep.sizes ((v.frame :: rest).map LoadFrame.step) =
      LoadStep.sizes ((rest ++ v.below).map LoadFrame.step) + 1 := by
  have hstep : v.frame.step = v.step := rfl
  rw [List.map_append, Visit.below, steps_of_frames, LoadStep.sizes_append, List.map_cons,
    LoadStep.sizes, LoadStep.size_eq, hstep]
  omega

namespace Loads
variable {waiting : List LoadFrame} {visits : List Visit} {r : Except Error Session} {u : Session}

/-- A load that ends has visited what waited, and then what its visits put behind. -/
theorem frames_eq (h : Loads fetch ctx waiting σ visits (.ok u)) :
    visits.map Visit.frame = waiting ++ visits.flatMap Visit.below := by
  generalize hr : Except.ok u = r at h
  induction h with
  | ends _ => rfl
  | stops _ => cases hr
  | visits _ _ ih =>
    rw [List.map_cons, ih hr, List.flatMap_cons, List.append_assoc]
    rfl

theorem taken (h : Loads fetch ctx waiting σ visits (.ok u)) :
    Taken (waiting.map LoadFrame.step) (visits.map Visit.step) := by
  generalize hr : Except.ok u = r at h
  induction h with
  | ends _ => exact .nil
  | stops _ => cases hr
  | @visits v rest _ _ _ _ ih =>
    have hnext := ih hr
    rw [List.map_append] at hnext
    rw [Visit.below, steps_of_frames] at hnext
    exact .cons hnext

end Loads

theorem reportOf_completed (report : LoadReport) (visits : List Visit) :
    (reportOf ctx report visits).completed =
      report.completed ++ visits.map fun v => v.step.node.path := by
  induction visits generalizing report with
  | nil => exact (List.append_nil _).symm
  | cons v rest ih =>
    show (reportOf ctx (advance ctx report v.step v.batch.isSome) rest).completed = _
    rw [ih, List.map_cons]
    exact List.append_assoc ..

namespace Visit
variable {v : Visit}

end Visit

/-- What a load that ends has done: it has visited every step of the plan once, in the order of
the plan's paths, and reports these paths and the number of batches, which are no more than the
steps. -/
structure Complete (ctx : LoadContext) (roots : List Nat) (visits : List Visit)
    (report : LoadReport) : Prop where
  once : (visits.map Visit.step).Perm (LoadStep.allOf ctx.plan.steps)
  order : (visits.map fun v => v.step.node.path) = ctx.plan.paths
  queue : visits.map Visit.frame =
    (ctx.plan.steps.map fun s => ⟨s, roots⟩) ++ visits.flatMap Visit.below
  completed : report.completed = ctx.plan.paths
  queries : report.queries = (visits.filter fun v => v.batch.isSome).length
  bounded : report.queries ≤ LoadStep.sizes ctx.plan.steps

/-- A model with at most one relation to many, on a connection. -/
def oneRelation (name table connection : String) (relations : List (String × Relation)) : Model :=
  .make name table none (some connection) [] relations none

/-- Users, with posts. -/
def blogUser : Model :=
  oneRelation "User" "users" "main" [("posts", ⟨"Post", "userId", .hasMany none, none, none⟩)]

/-- Users with posts, and posts with tags. -/
def blog : List Model :=
  [blogUser,
    oneRelation "Post" "posts" "main" [("tags", ⟨"Tag", "postId", .hasMany none, none, none⟩)],
    oneRelation "Tag" "tags" "main" []]

/-- The plan for the tags of users' posts. -/
def blogPlan : LoadPlan :=
  ((LoadPlan.make blog blogUser [⟨"posts.tags", none, none⟩]).toOption).getD ⟨blogUser, [], []⟩

/-- A load on one connection, whose batches are awaited. -/
def blogLoad : LoadContext := ⟨blogPlan, "main", none, false⟩

theorem ok_getD {α : Type} {x : Except Error α} (h : x.isOk = true) (a : α) :
    x = .ok (x.toOption.getD a) := by
  cases x with
  | error e => cases h
  | ok b => rfl

/-- The connection on which a statement was sent. -/
def sentOn : Event → Option String
  | .sent connection _ _ => some connection
  | _ => none

end Loader
end PolyQuery
