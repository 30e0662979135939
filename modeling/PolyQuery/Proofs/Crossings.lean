import PolyQuery.Proofs.Beside

/-! Loads across connections. A load warns of a batch that goes to another connection than the one from
which the parents came. It takes them to come from the connection of their model, and from that of the
roots if their model is that of the roots. So the warnings are those that are due, unless records of this
model were loaded by the load itself and the roots came from elsewhere: `Loader.warnings_of_load`. -/
namespace PolyQuery
namespace Loader
variable {σ τ : Session} {fetch : Builder → Run (List Nat)} {ctx : LoadContext} {report : LoadReport}
  {f : LoadFrame} {frames rest waiting : List LoadFrame} {visits done later : List Visit} {v : Visit}
  {step : LoadStep} {parents children roots : List Nat} {source : String}

/-! ## Warnings -/

/-- The warning that is due for the batch of a frame whose parents come from a connection. -/
def due (f : LoadFrame) (source : String) : List CrossConnection :=
  if f.step.target.connection = source then []
  else [⟨f.step.node.path, source, f.step.target.connection⟩]

theorem due_inj {other : String} : due f source = due f other ↔ source = other := by
  constructor
  · intro h
    unfold due at h
    -- both warnings are missing, or both are there and name the parents' connections
    split at h <;> split at h
    · next hsource hother => exact hsource.symm.trans hother
    · cases h
    · cases h
    · exact congrArg CrossConnection.parent (List.cons.inj h).1
  · intro h
    rw [h]

/-- A load warns of what would be due if the parents came from where they are taken to come from. -/
theorem toList_crossing? (ctx : LoadContext) (f : LoadFrame) :
    (crossing? ctx f.step).toList = due f (connectionOf ctx f.step.owner) := by
  unfold crossing? due
  dsimp only
  split <;> rfl

theorem attachAll_warnings {lifetime : Option Number} {groups : List (String × List Nat)}
    (h : attachAll step lifetime groups parents σ = (.ok (), τ)) : τ.warnings = σ.warnings := by
  induction parents generalizing σ with
  | nil =>
    cases h
    rfl
  | cons p rest ih =>
    -- only the store is another one for the parents that are left
    obtain ⟨_, _, _, h⟩ := attachAll_cons_ok h
    have hrest := ih h
    exact hrest

/-- Nothing is warned of when children are attached. -/
theorem attach_warnings (h : attach step parents children σ = (.ok (), τ)) :
    τ.warnings = σ.warnings := by
  obtain ⟨-, _, _, -, -, h⟩ := attach_ok h
  have hall := attachAll_warnings h
  exact hall

/-- A visit without a batch warns of nothing; one with a batch warns before the batch is sent, and of
nothing after it. -/
def Visit.WarnsBefore (fetch : Builder → Run (List Nat)) (ctx : LoadContext) (v : Visit) : Prop :=
  v.batch = none ∧ v.after.warnings = v.before.warnings ∨
    v.batch.isSome = true ∧ ∃ b s received, Asks ctx v.frame v.before b s ∧
      s.warnings = v.before.warnings ++ (crossing? ctx v.step).toList ∧
      fetch b s = (.ok v.children, received) ∧ v.after.warnings = received.warnings

theorem warnsBefore_of_visit
    (h : visit fetch ctx report v.frame rest v.before = (.ok (v.batch.isSome, v.children), v.after)) :
    v.WarnsBefore fetch ctx := by
  obtain ⟨hidle, t, -, -, hattach⟩ | ⟨hasked, b, s, received, hasks, hids, hattach⟩ :=
    attached_of_visit h
  · have hattached := attach_warnings hattach
    exact .inl ⟨Option.isNone_iff_eq_none.1 (Option.isSome_eq_false_iff.1 hidle), hattached⟩
  · exact .inr ⟨hasked, b, s, received, hasks, hasks.warnings, hids, attach_warnings hattach⟩

/-- A load reports what it warned of before its batches. -/
theorem reportOf_warnings (ctx : LoadContext) (report : LoadReport) (visits : List Visit) :
    (reportOf ctx report visits).warnings = report.warnings ++
      (visits.filter fun v => v.batch.isSome).flatMap fun v => (crossing? ctx v.step).toList := by
  induction visits generalizing report with
  | nil => exact (List.append_nil _).symm
  | cons v rest ih =>
    show (reportOf ctx (advance ctx report v.step v.batch.isSome) rest).warnings = _
    rw [ih, List.filter_cons]
    unfold advance
    cases v.batch.isSome with
    | true => exact List.append_assoc ..
    | false => simp only [Bool.false_eq_true, if_false, List.append_nil]

/-! ## Where parents come from -/

/-- The connection from which the parents of a frame come: that of the roots, or the one to which the
batch went that loaded them. -/
inductive Origin (ctx : LoadContext) (roots : List Nat) (visits : List Visit) (f : LoadFrame) :
    String → Prop where
  | root (hstep : f.step ∈ ctx.plan.steps) (hparents : f.parents = roots) :
      Origin ctx roots visits f ctx.rootConnection
  | loaded {v : Visit} (hv : v ∈ visits) (hf : f ∈ v.below) :
      Origin ctx roots visits f v.step.target.connection

namespace Passes

/-- What was visited was in the queue or below at first. -/
theorem visited_mem_allOf (h : Passes fetch ctx report frames σ visits waiting τ) :
    ∀ v ∈ visits, v.step ∈ LoadStep.allOf (frames.map LoadFrame.step) := by
  induction h with
  | here => exact fun _ hv => nomatch hv
  | visits _ _ _ ih =>
    refine List.forall_mem_cons.2 ⟨LoadStep.mem_allOf List.mem_cons_self, fun v hv => ?_⟩
    exact mem_allOf_visited (ih v hv)

/-- A load came to each frame that it visited. -/
theorem came (h : Passes fetch ctx report frames σ visits waiting τ)
    (hsplit : visits = done ++ v :: later) :
    ∃ rest, Passes fetch ctx report frames σ done (v.frame :: rest) v.before := by
  induction h generalizing done with
  | here => exact (List.append_ne_nil_of_right_ne_nil done (List.cons_ne_nil _ _) hsplit.symm).elim
  | @visits report first rest _ _ _ hv hvisit _ ih =>
    cases done with
    | nil =>
      obtain rfl := (List.cons.inj hsplit).1
      exact ⟨rest, .here⟩
    | cons earlier done =>
      obtain ⟨rfl, hsplit'⟩ := List.cons.inj hsplit
      obtain ⟨rest', hcame⟩ := ih hsplit'
      exact ⟨rest', .visits hv hvisit hcame⟩

theorem warnsBefore (h : Passes fetch ctx report frames σ visits waiting τ) :
    ∀ v ∈ visits, v.WarnsBefore fetch ctx := by
  induction h with
  | here => exact fun _ hv => nomatch hv
  | visits _ hvisit _ ih => exact List.forall_mem_cons.2 ⟨warnsBefore_of_visit hvisit, ih⟩

theorem exists_origin (h : Passes fetch ctx report (ctx.plan.steps.map fun s => ⟨s, roots⟩) σ visits
    (f :: rest) τ) : ∃ source, Origin ctx roots visits f source := by
  have hmem : f ∈ (ctx.plan.steps.map fun s => (⟨s, roots⟩ : LoadFrame)) ++
      visits.flatMap Visit.below := by
    rw [h.frames_eq]
    exact List.mem_append_right _ List.mem_cons_self
  rcases List.mem_append.1 hmem with hroot | hloaded
  · obtain ⟨s, hs, rfl⟩ := List.mem_map.1 hroot
    exact ⟨ctx.rootConnection, .root hs rfl⟩
  · obtain ⟨v, hv, hf⟩ := List.mem_flatMap.1 hloaded
    exact ⟨v.step.target.connection, .loaded hv hf⟩

end Passes

section
variable {models : List Model} {model : Model} {requests : List LoadRequest}

/-- The step of a frame belongs to the model of the plan and its parents are the roots, or to a model from
whose connection its parents come. -/
theorem Origin.owner (hplan : LoadPlan.make models model requests = .ok ctx.plan)
    (h : Passes fetch ctx report (ctx.plan.steps.map fun s => ⟨s, roots⟩) σ visits waiting τ)
    (horigin : Origin ctx roots visits f source) :
    f.step.owner = model ∧ source = ctx.rootConnection ∨
      f.step.owner ∈ models ∧ source = f.step.owner.connection := by
  obtain ⟨-, htop, hresolved⟩ := LoadPlan.make_resolved hplan
  cases horigin with
  | root hstep _ => exact .inl ⟨htop _ hstep, rfl⟩
  | @loaded v hv hf =>
    obtain ⟨s, hs, rfl⟩ := List.mem_map.1 hf
    have hstep := h.visited_mem_allOf v hv
    rw [steps_of_frames] at hstep
    obtain ⟨-, htarget, howners⟩ := hresolved _ hstep
    have howner : s.owner = v.step.target := howners s hs
    exact .inr ⟨howner ▸ htarget, congrArg Model.connection howner.symm⟩

/-- A load is wrong about where parents come from only if they are of the model of the roots and do not come
from the connection of the roots. -/
theorem Origin.connectionOf_eq_iff (hplan : LoadPlan.make models model requests = .ok ctx.plan)
    (h : Passes fetch ctx report (ctx.plan.steps.map fun s => ⟨s, roots⟩) σ visits waiting τ)
    (horigin : Origin ctx roots visits f source) : connectionOf ctx f.step.owner = source ↔
      (f.step.owner.name = model.name → source = ctx.rootConnection) := by
  obtain ⟨hmodel, -, -⟩ := LoadPlan.make_resolved hplan
  unfold connectionOf
  rw [hmodel]
  -- a step at the top of the plan is taken for what it is; below, only the name of the model is looked at
  rcases horigin.owner hplan h with ⟨howner, rfl⟩ | ⟨-, hsource⟩
  · rw [howner, if_pos rfl]
    exact iff_of_true rfl fun _ => rfl
  · by_cases hname : f.step.owner.name = model.name
    · rw [if_pos hname]
      exact ⟨fun heq _ => heq.symm, fun heq => (heq hname).symm⟩
    · rw [if_neg hname]
      exact iff_of_true hsource.symm fun heq => (hname heq).elim

/-! ## Loads -/

/-- A load has made some visits, and some frames wait. -/
def Underway (fetch : Builder → Run (List Nat)) (ctx : LoadContext) (roots : List Nat) (σ : Session)
    (visits : List Visit) (waiting : List LoadFrame) (τ : Session) : Prop :=
  Passes fetch ctx ⟨[], [], 0⟩ (ctx.plan.steps.map fun s => ⟨s, roots⟩) σ visits waiting τ

/-- What a load warns of, however queries are run. Before a batch is sent at most one warning is given,
and between batches none. It is the one that is due exactly if the parents are not of the model of the
roots, or come from the connection of the roots; so each warning is due and each that is due is given where
the roots come from the connection of their model. A load that ends reports the warnings given before its
batches, and one that fails does so at a frame to which this applies. -/
theorem warnings_of_load (fetch : Builder → Run (List Nat)) (roots : List Nat) (σ : Session)
    (hplan : LoadPlan.make models model requests = .ok ctx.plan) :
    (∀ visits f rest τ, Underway fetch ctx roots σ visits (f :: rest) τ →
      (∀ v ∈ visits, v.WarnsBefore fetch ctx) ∧
      (∀ b s, Asks ctx f τ b s → s.warnings = τ.warnings ++ (crossing? ctx f.step).toList) ∧
      (∃ source, Origin ctx roots visits f source) ∧
      ∀ source, Origin ctx roots visits f source →
        ((crossing? ctx f.step).toList = due f source ↔
          (f.step.owner.name = model.name → source = ctx.rootConnection)) ∧
        ((∀ m ∈ models, m.name = model.name → m.connection = ctx.rootConnection) →
          (crossing? ctx f.step).toList = due f source)) ∧
    (∀ final υ, load fetch ctx roots σ = (.ok final, υ) →
      ∃ visits, Underway fetch ctx roots σ visits [] υ ∧
        (∀ done v later, visits = done ++ v :: later →
          ∃ rest, Underway fetch ctx roots σ done (v.frame :: rest) v.before) ∧
        (∀ v ∈ visits, v.WarnsBefore fetch ctx) ∧
        final.warnings = (visits.filter fun v => v.batch.isSome).flatMap fun v =>
          (crossing? ctx v.step).toList) ∧
    ∀ e υ, load fetch ctx roots σ = (.error e, υ) →
      ∃ visits f rest τ, Underway fetch ctx roots σ visits (f :: rest) τ ∧
        visit fetch ctx (reportOf ctx ⟨[], [], 0⟩ visits) f rest τ = (.error e, υ) := by
  refine ⟨?_, ?_, ?_⟩
  -- what is warned of is due just when the owner of the step is loaded from where its parents came
  · intro visits f rest τ hway
    refine ⟨hway.warnsBefore, fun b s hasks => hasks.warnings, hway.exists_origin, ?_⟩
    intro source horigin
    have hiff := horigin.connectionOf_eq_iff hplan hway
    rw [toList_crossing?, due_inj]
    refine ⟨hiff, fun hdefault => hiff.2 fun hname => ?_⟩
    rcases horigin.owner hplan hway with ⟨-, hsource⟩ | ⟨howner, hsource⟩
    · exact hsource
    · exact hsource.trans (hdefault _ howner hname)
  · intro final υ hload
    obtain ⟨visits, hpasses, rfl⟩ := load_passes hload
    exact ⟨visits, hpasses, fun done v later => hpasses.came, hpasses.warnsBefore,
      reportOf_warnings ctx ⟨[], [], 0⟩ visits⟩
  · intro e υ hload
    exact run_stops hload

end

/-! ## The model of the roots once more -/

/-- Users, with posts on another connection. -/
def replicatedUser : Model :=
  oneRelation "User" "users" "main" [("posts", ⟨"Post", "userId", .hasMany none, none, none⟩)]

/-- Users on one connection, and their posts on another. -/
def replicated : List Model :=
  [replicatedUser,
    oneRelation "Post" "posts" "replica" [("author", ⟨"User", "userId", .belongsTo none, none, none⟩)]]

/-- The plan for the posts of the authors of users' posts. -/
def authorPosts : LoadPlan :=
  ((LoadPlan.make replicated replicatedUser [⟨"posts.author.posts", none, none⟩]).toOption).getD
    ⟨replicatedUser, [], []⟩

/-- A user, and servers that know this user and one post. -/
def replicatedSession : Session :=
  { Session.fresh with
    models := replicated
    connections := [("main", .connection "main"), ("replica", .connection "replica")]
    links := [("main", ⟨.make .sqlite none, false, [.rows [[("id", .number (.int 1))]] none]⟩),
      ("replica", ⟨.make .sqlite none, false,
        [.rows [[("id", .number (.int 7)), ("user_id", .number (.int 1))]] none,
          .rows [[("id", .number (.int 7)), ("user_id", .number (.int 1))]] none]⟩)]
    store := { Store.empty with records := #[.ofRow [("id", .number (.int 1))]] } }

/-- A load onto records from a connection. -/
def authorPostsFrom (connection : String) : LoadContext := ⟨authorPosts, connection, none, true⟩

/-- The load onto the user. -/
def loadAuthorPosts (connection : String) : Except Error LoadReport × Session :=
  load (Run.allWithin .awaiting 4 true) (authorPostsFrom connection) [0] replicatedSession

theorem authorPosts_made :
    LoadPlan.make replicated replicatedUser [⟨"posts.author.posts", none, none⟩] = .ok authorPosts := by
  have hmade : (LoadPlan.make replicated replicatedUser
      [⟨"posts.author.posts", none, none⟩]).isOk = true := by decide +kernel
  exact ok_getD hmade ⟨replicatedUser, [], []⟩

/-- With the user from the connection of users, each of three batches crosses connections. -/
theorem warnings_of_load_main :
    LoadPlan.make replicated replicatedUser [⟨"posts.author.posts", none, none⟩] =
      .ok (authorPostsFrom "main").plan ∧
    ∃ final υ, ∃ visits : List Visit, loadAuthorPosts "main" = (.ok final, υ) ∧
      (∀ v ∈ visits, v.WarnsBefore (Run.allWithin .awaiting 4 true) (authorPostsFrom "main")) ∧
      final.warnings = [⟨"posts", "main", "replica"⟩, ⟨"posts.author", "replica", "main"⟩,
        ⟨"posts.author.posts", "main", "replica"⟩] := by
  have hplan : LoadPlan.make replicated replicatedUser [⟨"posts.author.posts", none, none⟩] =
      .ok (authorPostsFrom "main").plan := by
    unfold authorPostsFrom
    dsimp only
    exact authorPosts_made
  have hwarnings : (loadAuthorPosts "main").1.toOption.map LoadReport.warnings =
      some [⟨"posts", "main", "replica"⟩, ⟨"posts.author", "replica", "main"⟩,
        ⟨"posts.author.posts", "main", "replica"⟩] := by decide +kernel
  refine ⟨hplan, ?_⟩
  -- the load was computed, and here it is named with its outcome
  unfold loadAuthorPosts at hwarnings ⊢
  rcases hload : load (Run.allWithin .awaiting 4 true) (authorPostsFrom "main") [0] replicatedSession
    with ⟨e | final, υ⟩
  · rw [hload] at hwarnings
    cases hwarnings
  · rw [hload] at hwarnings
    obtain ⟨-, hends, -⟩ := warnings_of_load (Run.allWithin .awaiting 4 true) [0] replicatedSession hplan
    obtain ⟨visits, -, -, hbefore, -⟩ := hends final υ hload
    exact ⟨final, υ, visits, rfl, hbefore, Option.some.inj hwarnings⟩

/-- With the user from the connection of posts, the second batch goes to the connection of users, and the
last one goes back from there: of this no warning is given. -/
theorem authorPosts_unreported :
    (loadAuthorPosts "replica").1.toOption = some
      ⟨["posts", "posts.author", "posts.author.posts"], [⟨"posts.author", "replica", "main"⟩], 3⟩ ∧
    (loadAuthorPosts "replica").2.journal.filterMap sentOn = ["replica", "main", "replica"] ∧
    (loadAuthorPosts "replica").2.warnings = [⟨"posts.author", "replica", "main"⟩] := by
  decide +kernel

end Loader
end PolyQuery
