import PolyQuery.Proofs.Loading
import PolyQuery.Proofs.RequestOrder

/-! Cancelled loads. The frames of a load are apart: no two of them fill the same slot of the same
record, since siblings have slots of their own and children are new records. So what a visit filled
is not touched again, by later visits or by the end of the load, and what waits is made not loaded:
`load_cancelled`. -/
namespace PolyQuery

/-! ## Slots of siblings -/

namespace LoadNode
variable {f : List LoadNode} {n : LoadNode} {parent : String}

theorem Grown.slots (h : Grown parent f) : (f.map slot).Nodup := by
  induction h with
  | nil => exact List.nodup_nil
  | cons _ _ hfresh _ ih =>
    rw [List.map_cons, List.nodup_cons]
    refine ⟨fun hmem => ?_, ih⟩
    obtain ⟨m, hm, hslot⟩ := List.mem_map.1 hmem
    exact hfresh m hm hslot

theorem Grown.rest {m : LoadNode} (h : Grown parent (m :: f)) : Grown parent f := by
  cases h
  assumption

theorem Grown.children (h : Grown parent f) (hn : n ∈ f) : Grown n.path n.children := by
  induction h with
  | nil => cases hn
  | cons hchildren _ _ _ ih =>
    obtain rfl | hn := List.mem_cons.1 hn
    · exact hchildren
    · exact ih hn

end LoadNode

namespace LoadStep

/-- The steps below fill different slots. -/
def Spread (s : LoadStep) : Prop := (s.children.map fun c => c.node.slot).Nodup

theorem slots_of_nodes {steps : List LoadStep} {parent : String}
    (h : LoadNode.Grown parent (steps.map node)) : (steps.map fun s => s.node.slot).Nodup := by
  have hslots := h.slots
  rwa [List.map_map] at hslots

mutual

theorem spread_all : (s : LoadStep) → LoadNode.Grown s.node.path s.node.children →
    (∀ t ∈ s.all, t.Faithful) → ∀ t ∈ s.all, t.Spread
  | ⟨node, owner, target, relation, children⟩, hgrown, hfaithful => by
    rw [all] at hfaithful ⊢
    have hnodes : children.map LoadStep.node = node.children :=
      hfaithful _ (List.mem_cons_self ..)
    have hbelow : LoadNode.Grown node.path (children.map LoadStep.node) := hnodes ▸ hgrown
    intro t ht
    obtain rfl | ht := List.mem_cons.1 ht
    · exact slots_of_nodes hbelow
    · exact spread_allOf children hbelow
        (fun u hu => hfaithful u (List.mem_cons_of_mem _ hu)) t ht

/-- In a plan all steps have their children in different slots. -/
theorem spread_allOf : (steps : List LoadStep) → {parent : String} →
    LoadNode.Grown parent (steps.map node) → (∀ t ∈ allOf steps, t.Faithful) →
    ∀ t ∈ allOf steps, t.Spread
  | [], _, _, _ => fun _ ht => nomatch ht
  | s :: rest, parent, hgrown, hfaithful => by
    rw [allOf] at hfaithful ⊢
    have hfirst : LoadNode.Grown s.node.path s.node.children :=
      hgrown.children (List.mem_cons_self ..)
    have hrest : LoadNode.Grown parent (rest.map node) := hgrown.rest
    intro t ht
    obtain ht | ht := List.mem_append.1 ht
    · exact spread_all s hfirst (fun u hu => hfaithful u (List.mem_append_left _ hu)) t ht
    · exact spread_allOf rest hrest (fun u hu => hfaithful u (List.mem_append_right _ hu)) t ht

end

end LoadStep

/-- Siblings in a plan fill different slots. -/
theorem LoadPlan.make_spread {models : List Model} {model : Model} {requests : List LoadRequest}
    {plan : LoadPlan} (h : LoadPlan.make models model requests = .ok plan) :
    (plan.steps.map fun s => s.node.slot).Nodup ∧
      ∀ s ∈ LoadStep.allOf plan.steps, s.Spread := by
  obtain ⟨forest, hforest, -, hsteps, -⟩ := make_forest h
  obtain ⟨hnodes, hfaithful⟩ := LoadStep.resolveNodes_faithful models model forest hsteps
  have hgrown : LoadNode.Grown "" (plan.steps.map LoadStep.node) :=
    hnodes.symm ▸ (LoadRequest.forest_shows hforest).1
  exact ⟨LoadStep.slots_of_nodes hgrown, LoadStep.spread_allOf _ hgrown hfaithful⟩

namespace Loader
variable {σ τ : Session} {ctx : LoadContext} {report : LoadReport}
  {frames waiting past rest : List LoadFrame} {visits : List Visit} {s : Store} {v : Visit}

/-! ## Frames apart -/

/-- Two frames do not fill the same slot of the same record. -/
def Apart (f g : LoadFrame) : Prop :=
  f.step.node.slot = g.step.node.slot → ∀ p ∈ f.parents, p ∉ g.parents

/-- Frames that are apart, for records that are there. -/
structure Orderly (s : Store) (frames : List LoadFrame) : Prop where
  apart : frames.Pairwise Apart
  there : ∀ f ∈ frames, ∀ p ∈ f.parents, p < s.records.size

theorem apart_of_slots {steps : List LoadStep} (h : (steps.map fun s => s.node.slot).Nodup)
    (parents : List Nat) : (steps.map fun s => (⟨s, parents⟩ : LoadFrame)).Pairwise Apart := by
  rw [List.pairwise_map]
  exact (List.pairwise_map.1 h).imp fun hne heq => (hne heq).elim

/-- Children are new, so the frames behind a visit are apart from those that were there. -/
theorem Orderly.visited (h : Orderly v.before.store (past ++ v.frame :: rest)) (hlocal : v.IsLocal)
    (hspread : v.step.Spread) : Orderly v.after.store (past ++ v.frame :: (rest ++ v.below)) := by
  have hsplit : past ++ v.frame :: (rest ++ v.below) = (past ++ v.frame :: rest) ++ v.below := by
    rw [List.append_assoc]
    rfl
  have hbelow {f : LoadFrame} (hf : f ∈ v.below) : f.parents = v.children := by
    obtain ⟨s, _, rfl⟩ := List.mem_map.1 hf
    rfl
  rw [hsplit]
  refine ⟨List.pairwise_append.2 ⟨h.apart, apart_of_slots hspread _, ?_⟩, ?_⟩
  · intro f hf g hg _ p hp hchild
    rw [hbelow hg] at hchild
    exact Nat.not_lt.2 (hlocal.fresh p hchild).1 (h.there f hf p hp)
  · intro f hf p hp
    obtain hf | hf := List.mem_append.1 hf
    · exact Nat.lt_of_lt_of_le (h.there f hf p hp) hlocal.size
    · rw [hbelow hf] at hp
      exact (hlocal.fresh p hp).2

/-- A visit leaves the slots of the frames that were visited before. -/
theorem Orderly.kept (h : Orderly v.before.store (past ++ v.frame :: rest)) (hlocal : v.IsLocal)
    {f : LoadFrame} (hf : f ∈ past) {p : Nat} (hp : p ∈ f.parents) :
    v.after.store.loaded? p f.step.node.slot = v.before.store.loaded? p f.step.node.slot := by
  refine hlocal.kept p _ (h.there f (List.mem_append_left _ hf) p hp) ?_
  rintro ⟨hparent, hslot⟩
  exact (List.pairwise_append.1 h.apart).2.2 f hf v.frame (List.mem_cons_self ..) hslot p hp hparent

/-- A step whose query asks for no further relations, and whose slots do not expire. -/
structure Plain (σ : Session) (s : LoadStep) : Prop where
  unnested : ∀ q, modifiedQuery σ s = .ok q → q.requests = []
  lasting : Record.endingLifetime (s.relation.lifetime.or σ.relationLifetime) = none

/-- A query that no modifier changes asks for nothing further. -/
theorem unnested_of_unchanged {s : LoadStep} {q : Builder}
    (h : (s.node.modifier.bind fun name => σ.modifiers.lookup name) = none)
    (hq : modifiedQuery σ s = .ok q) : q.requests = [] := by
  unfold modifiedQuery at hq
  rw [h] at hq
  split at hq
  · cases hq
  · cases hq
    rfl

theorem unnested_of_no_modifiers {s : LoadStep} {q : Builder} (h : σ.modifiers = [])
    (hq : modifiedQuery σ s = .ok q) : q.requests = [] := by
  refine unnested_of_unchanged ?_ hq
  rw [h]
  cases s.node.modifier <;> rfl

theorem Plain.onward {s : LoadStep} (hs : Plain σ s) (h : σ.Onward τ) : Plain τ s :=
  ⟨fun q hq => hs.unnested q ((modifiedQuery_onward h s).symm.trans hq), h.lifetime ▸ hs.lasting⟩

section
variable {w : Waiting} {depth : Nat} {watched : Bool}

/-- A visit of a plain step is local. -/
theorem Plain.isLocal (h : Plain v.before v.step)
    (hvisit : visit (Run.allWithin w depth watched) ctx report v.frame rest v.before =
      (.ok (v.batch.isSome, v.children), v.after)) : v.IsLocal := by
  refine visit_isLocal (Run.proceeds_allWithin w depth watched) ?_ h.lasting hvisit
  intro b s hasks
  obtain ⟨q, hq, rfl⟩ := hasks.query
  obtain ⟨condition, channel, hbatch⟩ := batchOf_eq ctx v.frame.step
    ((keysOf v.before.store v.frame).map fun k => boundValue v.before.store k.2) q
  refine onlyAdds_allWithin w depth watched ?_
  rw [hbatch]
  exact h.unnested q hq

/-- On its way, a load keeps what it filled, and all frames stay apart. -/
theorem Passes.keeps (past : List LoadFrame)
    (h : Passes (Run.allWithin w depth watched) ctx report frames σ visits waiting τ)
    (horderly : Orderly σ.store (past ++ frames))
    (hplain : ∀ s ∈ LoadStep.allOf (frames.map LoadFrame.step), Plain σ s)
    (hspread : ∀ s ∈ LoadStep.allOf (frames.map LoadFrame.step), s.Spread) :
    Orderly τ.store (past ++ visits.map Visit.frame ++ waiting) ∧
      (∀ f ∈ past, ∀ p ∈ f.parents,
        τ.store.loaded? p f.step.node.slot = σ.store.loaded? p f.step.node.slot) ∧
      ∀ v ∈ visits, ∀ p ∈ v.parents, (v.after.store.loaded? p v.step.node.slot).isSome = true ∧
        τ.store.loaded? p v.step.node.slot = v.after.store.loaded? p v.step.node.slot := by
  induction h generalizing past with
  | here =>
    rw [List.map_nil, List.append_nil]
    exact ⟨horderly, fun _ _ _ _ => rfl, fun _ hv => nomatch hv⟩
  | @visits report v rest waiting later τ _ hvisit _ ih =>
    have hstep : v.step ∈ LoadStep.allOf ((v.frame :: rest).map LoadFrame.step) :=
      LoadStep.mem_allOf (List.mem_cons_self ..)
    have hlocal := (hplain _ hstep).isLocal hvisit
    have honward := proceeds_visit (Run.proceeds_allWithin w depth watched) ctx report v.frame rest
      v.before
    rw [hvisit] at honward
    -- the frame that was visited is one of the past for the rest of the way
    have hsplit : past ++ v.frame :: (rest ++ v.below) =
        (past ++ [v.frame]) ++ (rest ++ v.below) := by
      rw [List.append_assoc]
      rfl
    obtain ⟨hlater, hpast, hvisits⟩ := ih (past ++ [v.frame])
      (hsplit ▸ horderly.visited hlocal (hspread _ hstep))
      (fun s hs => (hplain s (mem_allOf_visited hs)).onward honward)
      fun s hs => hspread s (mem_allOf_visited hs)
    refine ⟨?_, ?_, List.forall_mem_cons.2 ⟨?_, hvisits⟩⟩
    · rw [List.map_cons]
      rw [List.append_assoc past [v.frame]] at hlater
      exact hlater
    · intro f hf p hp
      exact (hpast f (List.mem_append_left _ hf) p hp).trans (horderly.kept hlocal hf hp)
    · intro p hp
      refine ⟨hlocal.loaded p hp ?_, ?_⟩
      · exact horderly.there v.frame (List.mem_append_right _ (List.mem_cons_self ..)) p hp
      · exact hpast v.frame (List.mem_append_right _ (List.mem_singleton_self _)) p hp

end

/-! ## The end of a load -/

theorem loaded?_clearEach (ids : List Nat) (slot : String) (s : Store) (other : Nat)
    (property : String) :
    (ids.foldl (fun s id => s.clear id (some slot)) s).loaded? other property =
      if other ∈ ids ∧ property = slot then none else s.loaded? other property := by
  induction ids generalizing s with
  | nil => rfl
  | cons id rest ih =>
    rw [List.foldl_cons, ih, Store.loaded?_clear]
    by_cases hproperty : property = slot
    · by_cases hother : other = id
      · simp [hproperty, hother]
      · simp [hproperty, hother]
    · simp [hproperty]

/-- What is cleared are the slots of the frames, and nothing else. -/
theorem loaded?_cleared (frames : List LoadFrame) (s : Store) (id : Nat) (slot : String) :
    (cleared frames s).loaded? id slot =
      if ∃ f ∈ frames, id ∈ f.parents ∧ slot = f.step.node.slot then none
      else s.loaded? id slot := by
  induction frames generalizing s with
  | nil => simp [cleared]
  | cons f rest ih =>
    rw [cleared, List.foldl_cons, ← cleared, ih, loaded?_clearEach]
    by_cases hrest : ∃ g ∈ rest, id ∈ g.parents ∧ slot = g.step.node.slot
    · rw [if_pos hrest, if_pos]
      obtain ⟨g, hg, h⟩ := hrest
      exact ⟨g, List.mem_cons_of_mem _ hg, h⟩
    · rw [if_neg hrest]
      simp only [List.mem_cons, exists_eq_or_imp, hrest, or_false]

/-- How a load is split that ended before its plan was done: the paths of the visits and of what is
left are those of the plan, in this order, and no step was visited before the one above it. Nothing
was sent since the last visit. What the visits filled is still there, and what waits is not
loaded. -/
structure Split (ctx : LoadContext) (roots : List Nat) (visits : List Visit)
    (pending : List String) (τ υ : Session) : Prop where
  paths : (visits.map fun v => v.step.node.path) ++ pending = ctx.plan.paths
  parents : ∀ s ∈ LoadStep.allOf ctx.plan.steps, ∀ c ∈ s.children,
    c.node.path ∈ visits.map (fun v => v.step.node.path) →
      s.node.path ∈ visits.map fun v => v.step.node.path
  silent : υ.journal = τ.journal
  completed : ∀ v ∈ visits, ∀ p ∈ v.parents,
    (v.after.store.loaded? p v.step.node.slot).isSome = true ∧
      υ.store.loaded? p v.step.node.slot = v.after.store.loaded? p v.step.node.slot
  pending : ∀ f ∈ (ctx.plan.steps.map fun s => ⟨s, roots⟩) ++ visits.flatMap Visit.below,
    f.step.node.path ∈ pending →
      ∀ p ∈ f.parents, υ.store.loaded? p f.step.node.slot = none

/-- What comes before something that was taken was taken too. -/
theorem mem_of_sublist {α : Type} {a b : α} {xs ys : List α} (h : [a, b].Sublist (xs ++ ys))
    (hdistinct : (xs ++ ys).Nodup) (hb : b ∈ xs) : a ∈ xs := by
  obtain ⟨front, back, hsplit, hfront, hback⟩ := List.sublist_append_iff.1 h
  have hapart : b ∉ back := fun hmem =>
    (List.nodup_append.1 hdistinct).2.2 b hb b (hback.subset hmem) rfl
  have hfirst : a ∈ front := by
    cases front with
    | nil =>
      rw [List.nil_append] at hsplit
      exact (hapart (hsplit ▸ List.mem_cons_of_mem _ (List.mem_singleton_self b))).elim
    | cons c front =>
      rw [(List.cons.inj hsplit).1]
      exact List.mem_cons_self ..
  exact hfront.subset hfirst

theorem filter_left {xs ys : List String} (h : (xs ++ ys).Nodup) :
    ((xs ++ ys).filter fun p => !xs.contains p) = ys := by
  have hnone : (xs.filter fun p => !xs.contains p) = [] := by
    rw [List.filter_eq_nil_iff]
    intro p hp
    simp [hp]
  have hall : (ys.filter fun p => !xs.contains p) = ys := by
    rw [List.filter_eq_self]
    intro p hp
    have hout : p ∉ xs := fun hmem => (List.nodup_append.1 h).2.2 p hmem p hp rfl
    simp [hout]
  rw [List.filter_append, hnone, hall, List.nil_append]

section
variable {w : Waiting} {depth : Nat} {watched : Bool} {models : List Model} {model : Model}
  {requests : List LoadRequest} {roots : List Nat} {f : LoadFrame} {b : Builder} {t : Session}

/-- A load whose signal is found given before a batch ends there, and splits its plan: where the
paths of the plan are distinct, no modifier asks for further relations and no lifetime ends, what
was visited is complete, and what was not is not loaded. -/
theorem load_cancelled (hplan : LoadPlan.make models model requests = .ok ctx.plan)
    (hpaths : ctx.plan.paths.Nodup) (hthere : ∀ p ∈ roots, p < σ.store.records.size)
    (hplain : ∀ s ∈ LoadStep.allOf ctx.plan.steps, Plain σ s) (hwatched : ctx.watched = true)
    (hpasses : Passes (Run.allWithin w depth watched) ctx ⟨[], [], 0⟩
      (ctx.plan.steps.map fun s => ⟨s, roots⟩) σ visits (f :: rest) τ)
    (hasks : Asks ctx f τ b t) (haborted : aborted τ = true) :
    ∃ pending υ, load (Run.allWithin w depth watched) ctx roots σ =
        (.error (.loadCancelled (visits.map fun v => v.step.node.path) pending
          (σ.signal.bind Signal.reason)), υ) ∧
      Split ctx roots visits pending τ υ := by
  obtain ⟨hplanned, hfaithful⟩ := LoadPlan.make_faithful hplan
  obtain ⟨hslots, hspread⟩ := LoadPlan.make_spread hplan
  have hsteps := steps_of_frames ctx.plan.steps roots
  -- the paths of the visits are followed by those of what waits
  obtain ⟨later, hlater⟩ := Taken.exists_taken ((f :: rest).map LoadFrame.step)
  have htaken := hpasses.taken hlater
  rw [hsteps] at htaken
  have hsplit : (visits.map fun v => v.step.node.path) ++ later.map (fun s => s.node.path) =
      ctx.plan.paths := by
    rw [hplanned, ← htaken.map_path hfaithful, List.map_append, List.map_map]
    rfl
  have hdistinct : ((visits.map fun v => v.step.node.path) ++
      later.map fun s => s.node.path).Nodup := hsplit ▸ hpaths
  have honward := hpasses.onward (Run.proceeds_allWithin w depth watched)
  obtain ⟨horderly, -, hfilled⟩ := hpasses.keeps []
    ⟨apart_of_slots hslots roots, fun f hf => by
      obtain ⟨s, _, rfl⟩ := List.mem_map.1 hf
      exact hthere⟩ (hsteps.symm ▸ hplain) (hsteps.symm ▸ hspread)
  obtain ⟨υ, hload, hstore, hjournal⟩ := load_stopped hwatched hpasses hasks haborted
  rw [← hsplit, filter_left hdistinct, honward.signal] at hload
  have halike : τ.store.Alike t.store := by
    obtain ⟨_, _, _, halike, rfl⟩ := hasks.quiet
    exact halike
  refine ⟨_, υ, hload, hsplit, ?_, hjournal, ?_, ?_⟩
  · intro s hs c hc hvisited
    have hbefore := (htaken.parent_first hs hc).map fun s => s.node.path
    rw [List.map_append, List.map_map] at hbefore
    exact mem_of_sublist hbefore hdistinct hvisited
  · intro v hv p hp
    obtain ⟨hloaded, hkept⟩ := hfilled v hv p hp
    have hout : ¬ ∃ g ∈ f :: rest, p ∈ g.parents ∧ v.step.node.slot = g.step.node.slot := by
      rintro ⟨g, hg, hparent, hslot⟩
      exact (List.pairwise_append.1 horderly.apart).2.2 v.frame
        (List.mem_map.2 ⟨v, hv, rfl⟩) g hg hslot p hp hparent
    refine ⟨hloaded, ?_⟩
    rw [hstore, loaded?_cleared, if_neg hout, halike.loaded?, hkept]
  · intro g hg hpending p hp
    rw [hpasses.frames_eq] at hg
    obtain hg | hg := List.mem_append.1 hg
    · obtain ⟨v, hv, rfl⟩ := List.mem_map.1 hg
      exact ((List.nodup_append.1 hdistinct).2.2 _ (List.mem_map.2 ⟨v, hv, rfl⟩) _ hpending
        rfl).elim
    · rw [hstore, loaded?_cleared, if_pos ⟨g, hg, hp, rfl⟩]

end

/-- Users, with posts and drafts. -/
def writer : Model :=
  oneRelation "User" "users" "main" [("posts", ⟨"Post", "userId", .hasMany none, none, none⟩),
    ("drafts", ⟨"Draft", "userId", .hasMany none, none, none⟩)]

/-- Users with posts and drafts. -/
def writers : List Model :=
  [writer, oneRelation "Post" "posts" "main" [], oneRelation "Draft" "drafts" "main" []]

/-- The plan for the posts and drafts of users. -/
def writersPlan : LoadPlan :=
  ((LoadPlan.make writers writer [⟨"posts", none, none⟩, ⟨"drafts", none, none⟩]).toOption).getD
    ⟨writer, [], []⟩

theorem writersPlan_made :
    LoadPlan.make writers writer [⟨"posts", none, none⟩, ⟨"drafts", none, none⟩] =
      .ok writersPlan := by
  have hmade : (LoadPlan.make writers writer
      [⟨"posts", none, none⟩, ⟨"drafts", none, none⟩]).isOk = true := by decide +kernel
  exact ok_getD hmade ⟨writer, [], []⟩

/-- A load of posts and drafts that heeds the signal. -/
def writersLoad : LoadContext := ⟨writersPlan, "main", none, true⟩

/-- A user with one post, whose drafts were loaded before, and a signal that comes with the first
statement. -/
def interrupted : Session :=
  { Session.fresh with
    models := writers
    connections := [("main", .connection "main")]
    links := [("main", ⟨.make .sqlite none, false,
      [.rows [[("id", .number (.int 7)), ("user_id", .number (.int 1))]] none]⟩)]
    signal := some ⟨1, none⟩
    store := { Store.empty with records := #[
      (Record.ofRow [("id", .number (.int 1))]).attach (.int 0) "drafts" (.array []) none true] } }

/-- The posts were loaded when the signal came, and the drafts count as not loaded. -/
theorem load_cancelled_drafts :
    LoadPlan.make writers writer [⟨"posts", none, none⟩, ⟨"drafts", none, none⟩] =
        .ok writersLoad.plan ∧
      writersLoad.plan.paths = ["posts", "drafts"] ∧
      (∀ s ∈ LoadStep.allOf writersLoad.plan.steps, Plain interrupted s) ∧
      ∃ visits f rest τ, Passes (Run.allWithin .awaiting 2 true) writersLoad ⟨[], [], 0⟩
          (writersLoad.plan.steps.map fun s => ⟨s, [0]⟩) interrupted visits (f :: rest) τ ∧
        aborted τ = true ∧ (visits.map fun v => v.step.node.path) = ["posts"] ∧
        ∃ pending υ, load (Run.allWithin .awaiting 2 true) writersLoad [0] interrupted =
            (.error (.loadCancelled (visits.map fun v => v.step.node.path) pending none), υ) ∧
          Split writersLoad [0] visits pending τ υ := by
  have hplan : LoadPlan.make writers writer [⟨"posts", none, none⟩, ⟨"drafts", none, none⟩] =
      .ok writersLoad.plan := by
    unfold writersLoad
    dsimp only
    exact writersPlan_made
  have hpaths : writersLoad.plan.paths = ["posts", "drafts"] := by decide +kernel
  have hplain : ∀ s ∈ LoadStep.allOf writersLoad.plan.steps, Plain interrupted s := by
    have hlasting : ((LoadStep.allOf writersLoad.plan.steps).all fun s =>
        (Record.endingLifetime (s.relation.lifetime.or interrupted.relationLifetime)).isNone) =
          true := by decide +kernel
    intro s hs
    refine ⟨fun q hq => ?_, Option.isNone_iff_eq_none.1 (List.all_eq_true.1 hlasting s hs)⟩
    exact unnested_of_no_modifiers rfl hq
  obtain ⟨posts, drafts, hsteps⟩ : ∃ posts drafts, writersLoad.plan.steps = [posts, drafts] :=
    List.length_eq_two.1 (by decide +kernel)
  -- both visits are run on this session, with no name for what is between them
  have hturns : ((writersLoad.plan.steps.zip writersLoad.plan.steps.tail).all fun s =>
      let first := visit (Run.allWithin .awaiting 2 true) writersLoad ⟨[], [], 0⟩ ⟨s.1, [0]⟩
        [⟨s.2, [0]⟩] interrupted
      first.1.isOk && aborted first.2 && s.1.node.path == "posts" &&
        ((visit (fun _ => pure []) (heeding writersLoad false) ⟨[], [], 0⟩ ⟨s.2, [0]⟩ []
          first.2).1.toOption.map Prod.fst == some true)) = true := by decide +kernel
  rw [hsteps] at hturns
  have hboth := List.all_eq_true.1 hturns (posts, drafts) (List.mem_singleton_self _)
  simp only [Bool.and_eq_true, beq_iff_eq] at hboth
  obtain ⟨⟨⟨hfirst, haborted⟩, hposts⟩, hsecond⟩ := hboth
  obtain ⟨v, hv, hpasses⟩ := passes_first hfirst
  obtain ⟨b, t, hasks⟩ := asks_of_visit hsecond
  generalize (visit (Run.allWithin .awaiting 2 true) writersLoad ⟨[], [], 0⟩ ⟨posts, [0]⟩
    [⟨drafts, [0]⟩] interrupted).2 = τ at hpasses hasks haborted
  have hframes : (writersLoad.plan.steps.map fun s => (⟨s, [0]⟩ : LoadFrame)) =
      [⟨posts, [0]⟩, ⟨drafts, [0]⟩] := by rw [hsteps]; rfl
  rw [← hframes] at hpasses
  have hpath : ([v].map fun v => v.step.node.path) = ["posts"] := by
    have hstep : v.step = posts := congrArg LoadFrame.step hv
    rw [List.map_cons, hstep, hposts]
    rfl
  have hdistinct : writersLoad.plan.paths.Nodup := by
    rw [hpaths]
    decide
  have hthere : ∀ p ∈ [0], p < interrupted.store.records.size := by decide
  refine ⟨hplan, hpaths, hplain, [v], ⟨drafts, [0]⟩, v.below, τ, hpasses, haborted, hpath, ?_⟩
  exact load_cancelled hplan hdistinct hthere hplain rfl hpasses hasks haborted

end Loader
end PolyQuery
