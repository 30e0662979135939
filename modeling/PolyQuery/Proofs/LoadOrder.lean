import PolyQuery.Relation.LoadPlan

/-! The order in which a queue goes through a plan. The paths of a forest come level by level, and
so does a queue at whose end the children of what was taken wait: `Taken.map_path`. Every step of
the plan is taken, and none twice: `Taken.perm`. -/
namespace PolyQuery

namespace LoadNode
open forestLevels

/-! ## Levels -/

theorem mergeLevels_nil (xs : List (List String)) : mergeLevels xs [] = xs := by
  cases xs <;> rfl

theorem mergeLevels_assoc (xs ys zs : List (List String)) :
    mergeLevels (mergeLevels xs ys) zs = mergeLevels xs (mergeLevels ys zs) := by
  induction xs generalizing ys zs with
  | nil => rfl
  | cons x xs ih =>
    cases ys with
    | nil => rfl
    | cons y ys =>
      cases zs with
      | nil => rfl
      | cons z zs => simp only [mergeLevels, List.append_assoc, ih]

theorem forestLevels_append (f g : List LoadNode) :
    forestLevels (f ++ g) = mergeLevels (forestLevels f) (forestLevels g) := by
  induction f with
  | nil => rfl
  | cons n rest ih =>
    rw [List.cons_append, forestLevels, forestLevels, ih, mergeLevels_assoc]

/-- The first level of a forest are its nodes, and the next ones those of their children. -/
theorem forestLevels_level (n : LoadNode) (rest : List LoadNode) : forestLevels (n :: rest) =
    (n :: rest).map path :: forestLevels ((n :: rest).flatMap children) := by
  induction rest generalizing n with
  | nil =>
    obtain ⟨relation, slot, modifier, path, passing, below⟩ := n
    rw [forestLevels, forestLevels, mergeLevels_nil, levels, List.flatMap_cons, List.flatMap_nil,
      List.append_nil]
    rfl
  | cons m rest ih =>
    obtain ⟨relation, slot, modifier, path, passing, below⟩ := n
    rw [forestLevels, ih, levels]
    show (path :: (m :: rest).map LoadNode.path) ::
      mergeLevels (forestLevels below) (forestLevels ((m :: rest).flatMap children)) = _
    rw [← forestLevels_append]
    rfl

theorem paths_level (f : List LoadNode) :
    paths f = f.map path ++ paths (f.flatMap children) := by
  cases f with
  | nil => rfl
  | cons n rest =>
    unfold paths
    rw [forestLevels_level, List.flatten_cons]

end LoadNode

/-! ## Steps -/

namespace LoadStep

mutual

/-- A step and those below it. -/
def all : LoadStep → List LoadStep
  | ⟨node, owner, target, relation, children⟩ =>
    ⟨node, owner, target, relation, children⟩ :: allOf children

/-- The same for steps side by side. -/
def allOf : List LoadStep → List LoadStep
  | [] => []
  | s :: rest => s.all ++ allOf rest

end

theorem all_eq (s : LoadStep) : s.all = s :: allOf s.children := by
  obtain ⟨node, owner, target, relation, children⟩ := s
  rw [all]

theorem allOf_append (xs ys : List LoadStep) : allOf (xs ++ ys) = allOf xs ++ allOf ys := by
  induction xs with
  | nil => rfl
  | cons s rest ih => rw [List.cons_append, allOf, allOf, ih, List.append_assoc]

theorem size_eq (s : LoadStep) : s.size = 1 + sizes s.children := by
  obtain ⟨node, owner, target, relation, children⟩ := s
  rw [size]

theorem sizes_append (xs ys : List LoadStep) : sizes (xs ++ ys) = sizes xs + sizes ys := by
  induction xs with
  | nil => rw [List.nil_append, sizes, Nat.zero_add]
  | cons s rest ih => rw [List.cons_append, sizes, sizes, ih, Nat.add_assoc]

/-- The steps below are those of the nodes below, in order. -/
def Faithful (s : LoadStep) : Prop := s.children.map node = s.node.children

theorem mem_allOf {s : LoadStep} {steps : List LoadStep} (h : s ∈ steps) : s ∈ allOf steps := by
  induction steps with
  | nil => cases h
  | cons first rest ih =>
    rw [allOf, all_eq, List.cons_append]
    obtain rfl | h := List.mem_cons.1 h
    · exact List.mem_cons_self ..
    · exact List.mem_cons_of_mem _ (List.mem_append_right _ (ih h))

theorem flatMap_children {steps : List LoadStep} (h : ∀ s ∈ steps, s.Faithful) :
    (steps.map node).flatMap LoadNode.children = (steps.flatMap children).map node := by
  induction steps with
  | nil => rfl
  | cons s rest ih =>
    rw [List.map_cons, List.flatMap_cons, List.flatMap_cons, List.map_append,
      ih fun t ht => h t (List.mem_cons_of_mem _ ht), h s (List.mem_cons_self ..)]

/-- A node is resolved by a relation of its owner to a model that is known. -/
theorem resolveNode_ok {models : List Model} {owner : Model} {n : LoadNode} {s : LoadStep}
    (h : resolveNode models owner n = .ok s) : ∃ relation target steps,
      target ∈ models ∧ resolveNodes models target n.children = .ok steps ∧
        s = ⟨n, owner, target, relation, steps⟩ := by
  obtain ⟨name, slot, modifier, path, passing, children⟩ := n
  rw [resolveNode] at h
  -- a step is made only where the relation, its target and all steps below are found
  cases hrelation : owner.relations.lookup name with
  | none =>
    rw [hrelation] at h
    cases h
  | some relation =>
    rw [hrelation] at h
    dsimp only at h
    cases htarget : models.find? fun m => m.name == relation.target with
    | none =>
      rw [htarget] at h
      cases h
    | some target =>
      rw [htarget] at h
      dsimp only at h
      cases hsteps : resolveNodes models target children with
      | error e =>
        rw [hsteps] at h
        cases h
      | ok steps =>
        rw [hsteps] at h
        cases h
        exact ⟨relation, target, steps, List.mem_of_find?_eq_some htarget, hsteps, rfl⟩

theorem resolveNodes_cons_ok {models : List Model} {owner : Model} {n : LoadNode}
    {rest : List LoadNode} {steps : List LoadStep}
    (h : resolveNodes models owner (n :: rest) = .ok steps) : ∃ s others,
      resolveNode models owner n = .ok s ∧ resolveNodes models owner rest = .ok others ∧
        steps = s :: others := by
  rw [resolveNodes] at h
  cases hs : resolveNode models owner n with
  | error e =>
    rw [hs] at h
    cases h
  | ok s =>
    cases hothers : resolveNodes models owner rest with
    | error e =>
      rw [hs, hothers] at h
      cases h
    | ok others =>
      rw [hs, hothers] at h
      cases h
      exact ⟨s, others, rfl, rfl, rfl⟩

/-- What is resolved of a step: those below it are the steps of the nodes below, their owner is the
model to which the step leads, and that is one of the models. -/
structure Resolved (models : List Model) (s : LoadStep) : Prop where
  faithful : s.Faithful
  target : s.target ∈ models
  owners : ∀ t ∈ s.children, t.owner = s.target

mutual

/-- A resolved node keeps its node, its owner, and what is below it. -/
theorem resolveNode_resolved (models : List Model) (owner : Model) : (n : LoadNode) →
    {s : LoadStep} → resolveNode models owner n = .ok s →
      s.node = n ∧ s.owner = owner ∧ ∀ t ∈ s.all, t.Resolved models
  | ⟨name, slot, modifier, path, passing, children⟩, s, h => by
    obtain ⟨relation, target, steps, htarget, hsteps, rfl⟩ := resolveNode_ok h
    obtain ⟨hnodes, howners, hbelow⟩ := resolveNodes_resolved models target children hsteps
    refine ⟨rfl, rfl, fun t ht => ?_⟩
    rw [all_eq] at ht
    obtain rfl | ht := List.mem_cons.1 ht
    · exact ⟨hnodes, htarget, howners⟩
    · exact hbelow t ht

theorem resolveNodes_resolved (models : List Model) (owner : Model) : (ns : List LoadNode) →
    {steps : List LoadStep} → resolveNodes models owner ns = .ok steps →
      steps.map node = ns ∧ (∀ s ∈ steps, s.owner = owner) ∧
        ∀ t ∈ allOf steps, t.Resolved models
  | [], steps, h => by
    rw [resolveNodes] at h
    cases h
    exact ⟨rfl, nofun, nofun⟩
  | n :: rest, steps, h => by
    obtain ⟨s, others, hs, hothers, rfl⟩ := resolveNodes_cons_ok h
    obtain ⟨hnode, howner, hbelow⟩ := resolveNode_resolved models owner n hs
    obtain ⟨hnodes, howners, hbeside⟩ := resolveNodes_resolved models owner rest hothers
    refine ⟨?_, List.forall_mem_cons.2 ⟨howner, howners⟩, fun t ht => ?_⟩
    · rw [List.map_cons, hnode, hnodes]
    · rw [allOf] at ht
      exact (List.mem_append.1 ht).elim (hbelow t) (hbeside t)

end

theorem resolveNodes_faithful (models : List Model) (owner : Model) (ns : List LoadNode)
    {steps : List LoadStep} (h : resolveNodes models owner ns = .ok steps) :
    steps.map node = ns ∧ ∀ t ∈ allOf steps, t.Faithful := by
  obtain ⟨hnodes, -, hresolved⟩ := resolveNodes_resolved models owner ns h
  exact ⟨hnodes, fun t ht => (hresolved t ht).faithful⟩

end LoadStep

/-- A plan is a forest, resolved from its model. -/
theorem LoadPlan.make_forest {models : List Model} {model : Model} {requests : List LoadRequest}
    {plan : LoadPlan} (h : LoadPlan.make models model requests = .ok plan) :
    ∃ forest, LoadRequest.forest requests = .ok forest ∧ plan.paths = LoadNode.paths forest ∧
      resolveNodes models model forest = .ok plan.steps ∧ plan.model = model := by
  unfold LoadPlan.make at h
  cases hforest : LoadRequest.forest requests with
  | error e =>
    rw [hforest] at h
    cases h
  | ok forest =>
    rw [hforest] at h
    change (resolveNodes models model forest).bind _ = .ok plan at h
    cases hsteps : resolveNodes models model forest with
    | error e =>
      rw [hsteps] at h
      cases h
    | ok steps =>
      rw [hsteps] at h
      cases h
      exact ⟨forest, rfl, rfl, hsteps, rfl⟩

/-- The paths of a plan are those of its steps. -/
theorem LoadPlan.make_faithful {models : List Model} {model : Model} {requests : List LoadRequest}
    {plan : LoadPlan} (h : LoadPlan.make models model requests = .ok plan) :
    plan.paths = LoadNode.paths (plan.steps.map LoadStep.node) ∧
      ∀ s ∈ LoadStep.allOf plan.steps, s.Faithful := by
  obtain ⟨forest, -, hpaths, hsteps, -⟩ := make_forest h
  obtain ⟨hnodes, hfaithful⟩ := LoadStep.resolveNodes_faithful models model forest hsteps
  exact ⟨by rw [hpaths, hnodes], hfaithful⟩

/-- The steps at the top of a plan belong to its model, and the others to the model that the step above
them leads to. -/
theorem LoadPlan.make_resolved {models : List Model} {model : Model} {requests : List LoadRequest}
    {plan : LoadPlan} (h : LoadPlan.make models model requests = .ok plan) :
    plan.model = model ∧ (∀ s ∈ plan.steps, s.owner = model) ∧
      ∀ s ∈ LoadStep.allOf plan.steps, s.Resolved models := by
  obtain ⟨forest, -, -, hsteps, hmodel⟩ := make_forest h
  exact ⟨hmodel, (LoadStep.resolveNodes_resolved models model forest hsteps).2⟩

/-! ## The queue -/

/-- What is taken from a queue, one after another, where the steps below wait at its end. -/
inductive Taken : List LoadStep → List LoadStep → Prop where
  | nil : Taken [] []
  | cons {s : LoadStep} {rest taken : List LoadStep} (h : Taken (rest ++ s.children) taken) :
      Taken (s :: rest) (s :: taken)

namespace Taken
variable {queue taken : List LoadStep}

/-- Everything in the queue, and everything below it, is taken once. -/
theorem perm (h : Taken queue taken) : taken.Perm (LoadStep.allOf queue) := by
  induction h with
  | nil => exact .refl _
  | @cons s rest taken _ ih =>
    rw [LoadStep.allOf_append] at ih
    rw [LoadStep.allOf, LoadStep.all_eq, List.cons_append]
    exact (ih.trans List.perm_append_comm).cons s

/-- The queue is taken level by level: first what is left of one level, then what waits of the next
one, with what is below this level. -/
theorem map_path_append (level next : List LoadStep) (h : Taken (level ++ next) taken)
    (hfaithful : ∀ s ∈ LoadStep.allOf (level ++ next), s.Faithful) :
    taken.map (fun s => s.node.path) = level.map (fun s => s.node.path) ++
      LoadNode.paths ((next ++ level.flatMap LoadStep.children).map LoadStep.node) := by
  generalize hqueue : level ++ next = queue at h
  induction h generalizing level next with
  | nil =>
    obtain ⟨rfl, rfl⟩ := List.append_eq_nil_iff.1 hqueue
    rfl
  | @cons s rest taken _ ih =>
    have hbelow {t : LoadStep} (ht : t ∈ LoadStep.allOf (rest ++ s.children)) : t.Faithful := by
      refine hfaithful t ?_
      rw [hqueue, LoadStep.allOf, LoadStep.all_eq, List.cons_append]
      rw [LoadStep.allOf_append] at ht
      exact List.mem_cons_of_mem _ (List.mem_append.2 (List.mem_append.1 ht).symm)
    cases level with
    | nil =>
      -- one level is through, and all that waits is the next one
      obtain rfl : next = s :: rest := hqueue
      have hrest := ih rest s.children (fun t ht => hbelow ht) rfl
      have hnext : ∀ t ∈ s :: rest, t.Faithful :=
        fun t ht => hfaithful t (LoadStep.mem_allOf ht)
      have hlevel := LoadNode.paths_level ((s :: rest).map LoadStep.node)
      rw [LoadStep.flatMap_children hnext, List.map_map] at hlevel
      rw [List.map_cons, hrest, List.flatMap_nil, List.append_nil, hlevel]
      rfl
    | cons first level =>
      obtain ⟨rfl, rfl⟩ := List.cons.inj hqueue
      have hassoc : level ++ (next ++ first.children) = level ++ next ++ first.children :=
        (List.append_assoc ..).symm
      have hrest := ih level (next ++ first.children)
        (fun t ht => hbelow (hassoc ▸ ht)) hassoc
      rw [List.map_cons, hrest, List.append_assoc]
      rfl

/-- What is taken has the paths of the queue, level by level. -/
theorem map_path (h : Taken queue taken) (hfaithful : ∀ s ∈ LoadStep.allOf queue, s.Faithful) :
    taken.map (fun s => s.node.path) = LoadNode.paths (queue.map LoadStep.node) := by
  have hlevels := map_path_append [] queue h hfaithful
  rwa [List.flatMap_nil, List.append_nil] at hlevels

/-- Whatever waits in a queue can be taken. -/
theorem exists_taken (queue : List LoadStep) : ∃ taken, Taken queue taken := by
  generalize hsize : LoadStep.sizes queue = size
  induction size generalizing queue with
  | zero =>
    cases queue with
    | nil => exact ⟨[], .nil⟩
    | cons s rest =>
      rw [LoadStep.sizes, LoadStep.size_eq] at hsize
      omega
  | succ size ih =>
    cases queue with
    | nil => cases hsize
    | cons s rest =>
      rw [LoadStep.sizes, LoadStep.size_eq] at hsize
      obtain ⟨taken, h⟩ := ih (rest ++ s.children) (by rw [LoadStep.sizes_append]; omega)
      exact ⟨s :: taken, .cons h⟩

/-- A step is taken before those below it. -/
theorem parent_first {s c : LoadStep} (h : Taken queue taken) (hs : s ∈ LoadStep.allOf queue)
    (hc : c ∈ s.children) : [s, c].Sublist taken := by
  induction h with
  | nil => cases hs
  | @cons t rest taken h ih =>
    rw [LoadStep.allOf, LoadStep.all_eq, List.cons_append] at hs
    rw [LoadStep.allOf_append] at ih
    obtain rfl | hs := List.mem_cons.1 hs
    · -- the step is taken now, and the one below it waits
      have hmem : c ∈ taken := by
        rw [h.perm.mem_iff, LoadStep.allOf_append]
        exact List.mem_append_right _ (LoadStep.mem_allOf hc)
      exact (List.singleton_sublist.2 hmem).cons_cons s
    · exact (ih (List.mem_append.2 (List.mem_append.1 hs).symm)).cons t

/-- As many steps are taken as there are in the queue and below. -/
theorem length_eq (h : Taken queue taken) : taken.length = LoadStep.sizes queue := by
  induction h with
  | nil => rfl
  | @cons s rest taken _ ih =>
    rw [List.length_cons, ih, LoadStep.sizes_append, LoadStep.sizes, LoadStep.size_eq]
    omega

end Taken
end PolyQuery
