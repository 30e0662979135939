import PolyQuery.Proofs.Beside
import PolyQuery.Proofs.Cancellation
import PolyQuery.Proofs.Trie
import PolyQuery.Proofs.Twin

/-! Relations on demand. A path alone is planned as relations one below the other, none of them
modified, and the first of them fills the slot that is named before the first point, without blanks
around: `LoadPlan.make_path`. A load leaves all other slots of its roots: `Loader.load_fills`. But
the value is read from the slot as it was written, blanks included. So it is the value that was
loaded, and stays so, where no blanks were written: `Table.related_reads`. -/
namespace PolyQuery

/-! ## The plan of one path -/

namespace LoadNode

/-- The nodes for one goal, one below the other. -/
def chain (g : LoadGoal) (parent : String) : List String → LoadNode
  | [] => ofGoal parent g
  | segment :: rest =>
    { onTheWay parent segment with children := [chain g (extendPath parent segment) rest] }

theorem insert_empty (g : LoadGoal) (parent : String) (way : List String) :
    insert g parent way [] = .ok [chain g parent way] := by
  induction way generalizing parent with
  | nil =>
    rw [insert_nil]
    show (meet parent g (ofGoal parent g)).map _ = _
    rw [meet, if_pos ⟨rfl, rfl⟩]
    rfl
  | cons segment rest ih =>
    rw [insert_cons]
    show (insert g (extendPath parent segment) rest []).map _ = _
    rw [ih]
    rfl

theorem slot_chain (g : LoadGoal) (parent : String) (way : List String) :
    (way ++ [g.slot]).head? = some (chain g parent way).slot := by
  cases way <;> rfl

end LoadNode

/-- Where the goal has no modifier, no step for the nodes of one goal has one. -/
theorem LoadStep.modifier_of_chain {g : LoadGoal} (hg : g.modifier = none) (way : List String)
    {parent : String} {s : LoadStep} (hnode : s.node = .chain g parent way)
    (hfaithful : ∀ t ∈ s.all, t.Faithful) : ∀ t ∈ s.all, t.node.modifier = none := by
  -- along the path only the last step has the goal, and the others have no modifier
  induction way generalizing parent s with
  | nil =>
    have hchildren : s.children.map node = [] := by
      rw [hfaithful s (all_eq s ▸ List.mem_cons_self), hnode]
      rfl
    rw [all_eq, List.map_eq_nil_iff.1 hchildren]
    refine List.forall_mem_singleton.2 ?_
    rw [hnode]
    exact hg
  | cons segment rest ih =>
    have hchildren : s.children.map node = [.chain g (extendPath parent segment) rest] := by
      rw [hfaithful s (all_eq s ▸ List.mem_cons_self), hnode]
      rfl
    obtain ⟨below, hbelow, hchain⟩ := List.map_eq_singleton_iff.1 hchildren
    have hall : s.all = s :: below.all := by
      rw [all_eq, hbelow, allOf, allOf, List.append_nil]
    rw [hall] at hfaithful ⊢
    refine List.forall_mem_cons.2 ⟨?_, ?_⟩
    · rw [hnode]
      rfl
    · exact ih hchain (List.forall_mem_cons.1 hfaithful).2

theorem Dialect.head?_dottedParts (cs : List Char) :
    (dottedParts cs).head? = some (cs.takeWhile (· != '.')) := by
  induction cs with
  | nil => rfl
  | cons c cs ih =>
    rw [dottedParts]
    by_cases hc : c = '.'
    · rw [if_pos hc, List.takeWhile_cons_of_neg (by simp [hc])]
      rfl
    · rw [if_neg hc, List.takeWhile_cons_of_pos (by simp [hc])]
      cases hparts : dottedParts cs with
      | nil =>
        rw [hparts] at ih
        cases ih
      | cons part parts =>
        rw [hparts] at ih
        exact congrArg (fun part => some (c :: part)) (Option.some.inj ih)

/-- The slot of the first relation of a path. -/
def Table.firstSlot (path : String) : String := Text.trim (beforePoint path)

/-- A path alone is planned as steps one below the other, the first for the slot that the path names
first, and none has a modifier. -/
theorem LoadPlan.make_path {models : List Model} {model : Model} {path : String} {plan : LoadPlan}
    (h : make models model [⟨path, none, none⟩] = .ok plan) :
    (∃ step, plan.steps = [step] ∧ step.node.slot = Table.firstSlot path) ∧
      ∀ s ∈ LoadStep.allOf plan.steps, s.node.modifier = none := by
  obtain ⟨forest, hforest, -, hsteps, -⟩ := make_forest h
  obtain ⟨hnodes, hfaithful⟩ := LoadStep.resolveNodes_faithful models model forest hsteps
  change (LoadRequest.addTo [] ⟨path, none, none⟩ >>= pure) = .ok forest at hforest
  rw [bind_pure, LoadRequest.addTo_eq] at hforest
  cases htarget : (LoadRequest.mk path none none).target? with
  | none =>
    rw [htarget] at hforest
    cases hforest
  | some t =>
    rw [htarget] at hforest
    dsimp only at hforest
    obtain ⟨-, hsegments, hgoal⟩ := LoadRequest.target?_eq_some htarget
    rw [LoadNode.insert_empty] at hforest
    rw [← Except.ok.inj hforest] at hnodes
    obtain ⟨step, hstep, hchain⟩ := List.map_eq_singleton_iff.1 hnodes
    refine ⟨⟨step, hstep, ?_⟩, ?_⟩
    -- without an alias the goal is put in the slot of its relation
    · have hslot : t.goal.slot = t.goal.relation := congrArg LoadGoal.slot hgoal
      have hhead : (LoadRequest.segments path).head? = some (Table.firstSlot path) := by
        rw [LoadRequest.segments, List.head?_map, Dialect.head?_dottedParts]
        rfl
      have hfirst := LoadNode.slot_chain t.goal "" t.way
      rw [hslot, ← hsegments, hhead] at hfirst
      rw [hchain]
      exact (Option.some.inj hfirst).symm
    · have hmodifier : t.goal.modifier = none := congrArg LoadGoal.modifier hgoal
      rw [hstep, LoadStep.allOf, LoadStep.allOf, List.append_nil] at hfaithful ⊢
      exact LoadStep.modifier_of_chain hmodifier t.way hchain hfaithful

/-! ## What a load leaves in the slots of its roots -/

namespace Loader
variable {σ τ : Session} {s t : Store} {step : LoadStep} {lifetime : Option Number} {p : Nat}
  {given : List (Nat × List Nat)} {ctx : LoadContext} {report : LoadReport}
  {frames waiting rest : List LoadFrame} {visits : List Visit} {roots : List Nat}

/-- The slot of a step is loaded for a record, with records or nothing. -/
def Filled (step : LoadStep) (s : Store) (p : Nat) : Prop :=
  ∃ mine, s.loaded? p step.node.slot = some (slotValue step.relation.isToMany mine)

theorem slotValue_ne_undefined (many : Bool) (mine : List Nat) :
    slotValue many mine ≠ .undefined := by
  unfold slotValue
  cases many with
  | true => exact nofun
  | false => cases mine <;> exact nofun

theorem filled_supplied {mine : List Nat} (hlasting : Record.endingLifetime lifetime = none)
    (hthere : p < s.records.size) (hapart : p ∉ mine) :
    Filled step (supplied step lifetime p mine s) p := by
  refine ⟨mine, ?_⟩
  rw [Store.loaded?_eq, record_supplied_parent hthere hapart,
    (agree_supplied step lifetime p mine s).now, Record.readCache_attach hlasting, if_pos rfl]

/-- What is dealt fills the slots of all that it is dealt to. -/
theorem Dealt.filled (h : Dealt step lifetime given s t)
    (hlasting : Record.endingLifetime lifetime = none) (hthere : p < s.records.size)
    (hapart : ∀ d ∈ given, p ∉ d.2) (hp : p ∈ given.map Prod.fst ∨ Filled step s p) :
    Filled step t p := by
  induction h with
  | nil hlook =>
    obtain ⟨mine, hmine⟩ := hp.resolve_left List.not_mem_nil
    exact ⟨mine, (hlook.loaded? p _).trans hmine⟩
  | @cons q mine rest s t u hlook _ ih =>
    obtain ⟨hfirst, hrest⟩ := List.forall_mem_cons.1 hapart
    have hthere' : p < t.records.size := hlook.size.symm ▸ hthere
    refine ih ((agree_supplied step lifetime q mine t).size.symm ▸ hthere') hrest ?_
    -- a slot is filled when its parent is served, and serving others leaves it as it is
    by_cases hself : p = q
    · subst hself
      exact .inr (filled_supplied hlasting hthere' hfirst)
    · refine hp.imp (fun hmem => (List.mem_cons.1 hmem).resolve_left hself) ?_
      rintro ⟨held, hheld⟩
      have hfills := fills_supplied (W := Writes step [q] mine) t hlasting
        (.inl ⟨List.mem_singleton_self q, rfl⟩) fun c hc slot hslot => .inr ⟨hc, hslot⟩
      refine ⟨held, (hfills.kept p _ ?_).trans ((hlook.loaded? p _).trans hheld)⟩
      rintro (⟨hparent, -⟩ | ⟨hchild, -⟩)
      · exact hself (List.mem_singleton.1 hparent)
      · exact hfirst hchild

section
variable {w : Waiting} {depth : Nat} {watched : Bool}

/-- A visit fills the slots of its parents. -/
theorem visit_filled {v : Visit}
    (hlasting : Record.endingLifetime
      (v.step.relation.lifetime.or v.before.relationLifetime) = none)
    (h : visit (Run.allWithin w depth watched) ctx report v.frame rest v.before =
      (.ok (v.batch.isSome, v.children), v.after)) :
    ∀ p ∈ v.parents, p < v.before.store.records.size → Filled v.step v.after.store p := by
  intro p hp hthere
  have hfetch := Run.adds_allWithin w depth watched
  -- children are new, so what one of them gets does not reach a parent
  have hapart : p ∉ v.children := fun hchild =>
    Nat.not_lt.2 (visit_new hfetch h p hchild).1 hthere
  obtain ⟨-, t, halike, hchildren, hattach⟩ | ⟨-, b, s, received, hasks, hids, hattach⟩ :=
    attached_of_visit h
  · obtain ⟨given, -, hgiven, hdealt, hmembers⟩ := attach_dealt hattach
    exact hdealt.filled hlasting (halike.size.symm ▸ hthere)
      (fun d hd hmem => List.not_mem_nil (hmembers d hd hmem)) (.inl (hgiven rfl ▸ hp))
  · obtain ⟨given, -, hgiven, hdealt, hmembers⟩ := attach_dealt hattach
    have honward := Run.proceeds_allWithin w depth watched b s
    have hadds := (hfetch b s).1
    rw [hids] at honward hadds
    obtain ⟨store, _, _, halike, rfl⟩ := hasks.quiet
    rw [honward.lifetime] at hdealt
    refine hdealt.filled hlasting ?_ (fun d hd hmem => hapart (hmembers d hd hmem))
      (.inl (hgiven rfl ▸ hp))
    exact Nat.lt_of_lt_of_le (halike.size.symm ▸ hthere) hadds.size

/-- On its way, a load fills the slots of its visits and leaves the others of the records that were
there. -/
theorem Passes.fills
    (h : Passes (Run.allWithin w depth watched) ctx report frames σ visits waiting τ)
    (hplain : ∀ s ∈ LoadStep.allOf (frames.map LoadFrame.step), Plain σ s) :
    (∀ v ∈ visits, ∀ p ∈ v.parents, p < σ.store.records.size →
      Filled v.step v.after.store p) ∧
    ∀ id < σ.store.records.size, ∀ slot, (¬ ∃ v ∈ visits, v.Opens id slot) →
      τ.store.loaded? id slot = σ.store.loaded? id slot := by
  induction h with
  | here => exact ⟨fun _ hv => (List.not_mem_nil hv).elim, fun _ _ _ _ => rfl⟩
  | @visits report v rest waiting later τ _ hvisit _ ih =>
    have hstep : v.step ∈ LoadStep.allOf ((v.frame :: rest).map LoadFrame.step) :=
      LoadStep.mem_allOf List.mem_cons_self
    have hlocal := (hplain _ hstep).isLocal hvisit
    have honward := proceeds_visit (Run.proceeds_allWithin w depth watched) ctx report v.frame rest
      v.before
    rw [hvisit] at honward
    obtain ⟨hlater, hkept⟩ := ih fun s hs => (hplain s (mem_allOf_visited hs)).onward honward
    refine ⟨List.forall_mem_cons.2 ⟨visit_filled (hplain _ hstep).lasting hvisit, ?_⟩, ?_⟩
    · intro u hu p hp hthere
      exact hlater u hu p hp (Nat.lt_of_lt_of_le hthere hlocal.size)
    -- what no visit opens neither the first one nor the later ones change
    · intro id hid slot hout
      rw [List.exists_mem_cons_iff, not_or] at hout
      exact (hkept id (Nat.lt_of_lt_of_le hid hlocal.size) slot hout.2).trans
        (hlocal.kept id slot hid hout.1)

/-- A load of plain steps that ends has filled the slots of its roots for the steps of its plan, and
left their other slots, and those of the other records that were there. -/
theorem load_fills {models : List Model} {model : Model} {requests : List LoadRequest}
    {final : LoadReport} (hplan : LoadPlan.make models model requests = .ok ctx.plan)
    (hroots : ∀ id ∈ roots, id < σ.store.records.size)
    (hplain : ∀ s ∈ LoadStep.allOf ctx.plan.steps, Plain σ s)
    (h : load (Run.allWithin w depth watched) ctx roots σ = (.ok final, τ)) :
    (∀ s ∈ ctx.plan.steps, ∀ p ∈ roots, Filled s τ.store p) ∧
    ∀ id < σ.store.records.size, ∀ slot,
      ¬ (id ∈ roots ∧ ∃ s ∈ ctx.plan.steps, slot = s.node.slot) →
        τ.store.loaded? id slot = σ.store.loaded? id slot := by
  have hfetch := Run.adds_allWithin w depth watched
  have hsteps := steps_of_frames ctx.plan.steps roots
  have hthere := there_of_roots ctx.plan.steps hroots
  obtain ⟨hslots, hspread⟩ := LoadPlan.make_spread hplan
  obtain ⟨visits, hpasses, -⟩ := load_passes h
  obtain ⟨hfilled, hkept⟩ := hpasses.fills (hsteps.symm ▸ hplain)
  obtain ⟨-, -, hstays⟩ := hpasses.keeps [] ⟨apart_of_slots hslots roots, hthere⟩
    (hsteps.symm ▸ hplain) (hsteps.symm ▸ hspread)
  have hframes := hpasses.frames_eq
  rw [List.append_nil] at hframes
  -- the steps at the roots are visited first of all, and what they fill stays as it is
  constructor
  · intro s hs p hp
    have hmem : (⟨s, roots⟩ : LoadFrame) ∈ visits.map Visit.frame :=
      hframes ▸ List.mem_append_left _ (List.mem_map_of_mem hs)
    obtain ⟨v, hv, hframe⟩ := List.mem_map.1 hmem
    obtain rfl : v.step = s := congrArg LoadFrame.step hframe
    obtain rfl : v.parents = roots := congrArg LoadFrame.parents hframe
    obtain ⟨mine, hmine⟩ := hfilled v hv p hp (hroots p hp)
    exact ⟨mine, (hstays v hv p hp).2.trans hmine⟩
  · intro id hid slot hout
    refine hkept id hid slot ?_
    rw [(hpasses.opens_iff hfetch hthere slot).1 id hid, exists_frame_iff]
    exact hout

end

end Loader

/-! ## Reading what was loaded -/

namespace Table
open Loader
variable {t : Table} {w : Waiting} {record : Nat} {path : String} {σ τ : Session} {plan : LoadPlan}
  {v : Value}

/-- Looking whether a slot is loaded leaves a store that is the same to every reader. -/
theorem cached_apply (record : Nat) (slot : String) (σ : Session) : ∃ store, σ.store.Alike store ∧
    cached record slot σ = (.ok (σ.store.loaded? record slot), { σ with store := store }) :=
  ⟨_, σ.store.alike_change record _ (Record.alike_readCache ..), rfl⟩

/-- A relation is given from its slot without a load, or after one: where the path has a point or the
slot that it names is not loaded. -/
theorem related_cases (t : Table) (w : Waiting) (record : Nat) (path : String) (σ : Session) :
    (∃ v store, '.' ∉ path.toList ∧ σ.store.loaded? record (beforePoint path) = some v ∧
      σ.store.Alike store ∧ t.related w record path σ = (.ok v, { σ with store := store })) ∨
    ∃ store, σ.store.Alike store ∧ t.related w record path σ =
      (Run.loadOnto w t.model [⟨path, none, none⟩] [record] none t.channel >>= fun _ =>
        cached record (beforePoint path) >>= fun v => pure (v.getD .undefined))
          { σ with store := store } := by
  rw [related]
  by_cases hpoint : '.' ∈ path.toList
  · refine .inr ⟨σ.store, .refl _ _, ?_⟩
    rw [if_neg (by simp [hpoint])]
  · obtain ⟨store, halike, hcached⟩ := cached_apply record (beforePoint path) σ
    rw [if_pos (by simp [hpoint])]
    cases hloaded : σ.store.loaded? record (beforePoint path) with
    | some v =>
      rw [hloaded] at hcached
      exact .inl ⟨v, store, hpoint, rfl, halike, Run.bind_ok hcached⟩
    | none =>
      rw [hloaded] at hcached
      exact .inr ⟨store, halike, Run.bind_ok hcached⟩

/-- A relation that is asked for without a point is given from its slot if this is loaded, and nothing
is sent. -/
theorem related_loaded (t : Table) (w : Waiting) (hpoint : '.' ∉ path.toList)
    (hloaded : σ.store.loaded? record (beforePoint path) = some v) :
    ∃ store, σ.store.Alike store ∧
      t.related w record path σ = (.ok v, { σ with store := store }) := by
  obtain ⟨store, halike, hcached⟩ := cached_apply record (beforePoint path) σ
  rw [hloaded] at hcached
  refine ⟨store, halike, ?_⟩
  rw [related, if_pos (by simp [hpoint])]
  exact Run.bind_ok hcached

/-- A relation is what its slot holds, and while the slot holds it and the path names no further
relation it is given again without a statement. -/
structure Serves (t : Table) (record : Nat) (path : String) (v : Value) (τ : Session) : Prop where
  held : τ.store.loaded? record (firstSlot path) = some v
  again : '.' ∉ path.toList → ∀ (w : Waiting) (υ : Session),
    υ.store.loaded? record (firstSlot path) = some v → ∃ store, υ.store.Alike store ∧
      t.related w record path υ = (.ok v, { υ with store := store })

section
variable (hplan : LoadPlan.make σ.models t.model [⟨path, none, none⟩] = .ok plan)
  (hthere : record < σ.store.records.size)
  (hlasting : ∀ s ∈ LoadStep.allOf plan.steps,
    Record.endingLifetime (s.relation.lifetime.or σ.relationLifetime) = none)
include hplan hthere hlasting

/-- What a load for a relation leaves: the slot of the first relation of the path is loaded, and the
slot as it was written holds what it held, if it is another. -/
theorem loadOnto_firstSlot {loaded : LoadPlan × LoadReport}
    (h : Run.loadOnto w t.model [⟨path, none, none⟩] [record] none t.channel σ =
      (.ok loaded, τ)) :
    (∃ v ≠ Value.undefined, τ.store.loaded? record (firstSlot path) = some v) ∧
      ∀ slot ≠ firstSlot path, τ.store.loaded? record slot = σ.store.loaded? record slot := by
  obtain ⟨⟨step, hsteps, hslot⟩, hmodifiers⟩ := LoadPlan.make_path hplan
  rw [loadOnto_apply w hplan] at h
  obtain ⟨report, υ, hload, hpure⟩ := Run.bind_eq_ok h
  cases hpure
  have hplain : ∀ s ∈ LoadStep.allOf plan.steps, Plain σ s := fun s hs =>
    ⟨fun q hq => unnested_of_unchanged (by rw [hmodifiers s hs]; rfl) hq, hlasting s hs⟩
  have hmade : LoadPlan.make σ.models t.model [⟨path, none, none⟩] =
      .ok (ontoContext t.model none t.channel plan).plan := hplan
  obtain ⟨hfilled, hkept⟩ := load_fills hmade (List.forall_mem_singleton.2 hthere) hplain hload
  obtain ⟨mine, hmine⟩ := hfilled step (hsteps ▸ List.mem_singleton_self step) record
    (List.mem_singleton_self record)
  refine ⟨⟨_, slotValue_ne_undefined _ mine, hslot ▸ hmine⟩, fun slot hother => ?_⟩
  refine hkept record hthere slot ?_
  -- the plan has one step at the record, so it opens one slot there
  rintro ⟨-, s, hs, rfl⟩
  change s ∈ plan.steps at hs
  rw [hsteps, List.mem_singleton] at hs
  exact hother (hs ▸ hslot)

/-- What is given was loaded before, or its slot is read after a load. -/
theorem related_ok (h : t.related w record path σ = (.ok v, τ)) :
    ('.' ∉ path.toList ∧ σ.store.loaded? record (beforePoint path) = some v ∧
      σ.store.Alike τ.store) ∨
    (∃ u ≠ Value.undefined, τ.store.loaded? record (firstSlot path) = some u) ∧
      v = (τ.store.loaded? record (beforePoint path)).getD .undefined ∧
      ∀ slot ≠ firstSlot path, τ.store.loaded? record slot = σ.store.loaded? record slot := by
  obtain ⟨u, store, hpoint, hloaded, halike, hgiven⟩ | ⟨store, halike, hloads⟩ :=
    related_cases t w record path σ
  · cases hgiven.symm.trans h
    exact .inl ⟨hpoint, hloaded, halike⟩
  · obtain ⟨loaded, υ, hload, hread⟩ := Run.bind_eq_ok (hloads.symm.trans h)
    obtain ⟨after, hafter, hcached⟩ := cached_apply record (beforePoint path) υ
    obtain ⟨⟨u, hu, hheld⟩, hkept⟩ := loadOnto_firstSlot (σ := { σ with store := store })
      hplan (halike.size.symm ▸ hthere) hlasting hload
    rw [Run.bind_ok hcached] at hread
    cases hread
    refine .inr ⟨⟨u, hu, (hafter.loaded? ..).trans hheld⟩, ?_, fun slot hother => ?_⟩
    · rw [hafter.loaded?]
    · rw [hafter.loaded?, hkept slot hother, halike.loaded?]

/-- Without blanks the slot that is read is the one that is loaded. -/
theorem related_written (hwritten : beforePoint path = firstSlot path)
    (h : t.related w record path σ = (.ok v, τ)) :
    t.Serves record path v τ ∧ (v = .undefined → '.' ∉ path.toList ∧
      σ.store.loaded? record (firstSlot path) = some .undefined) := by
  have hserves (hheld : τ.store.loaded? record (firstSlot path) = some v) :
      t.Serves record path v τ :=
    ⟨hheld, fun hpoint again υ hυ => related_loaded t again hpoint (hwritten ▸ hυ)⟩
  have hcases := related_ok hplan hthere hlasting h
  rw [hwritten] at hcases
  obtain ⟨hpoint, hloaded, halike⟩ | ⟨⟨u, hu, hheld⟩, hv, -⟩ := hcases
  · refine ⟨hserves ((halike.loaded? ..).trans hloaded), fun hnone => ⟨hpoint, ?_⟩⟩
    rw [hloaded, hnone]
  · rw [hheld, Option.getD_some] at hv
    subst hv
    exact ⟨hserves hheld, fun hnone => (hu hnone).elim⟩

/-- With blanks the relation is loaded, and another slot is read. -/
theorem related_blanks (hblanks : beforePoint path ≠ firstSlot path)
    (hunloaded : σ.store.loaded? record (beforePoint path) = none)
    (h : t.related w record path σ = (.ok v, τ)) :
    v = .undefined ∧ τ.store.loaded? record (beforePoint path) = none ∧
      ∃ u ≠ Value.undefined, τ.store.loaded? record (firstSlot path) = some u := by
  obtain ⟨-, hloaded, -⟩ | ⟨hfilled, hv, hkept⟩ := related_ok hplan hthere hlasting h
  · cases hloaded.symm.trans hunloaded
  · -- the load fills the slot without blanks, and leaves the one that is read then
    have hnone := (hkept _ hblanks).trans hunloaded
    rw [hnone] at hv
    exact ⟨hv, hnone, hfilled⟩

end

/-- A path that is planned is planned as one step with those below it, and the relation is given
unless its load fails. Where no lifetime ends, it is what the slot of that step holds then, and is
served from there, if the path begins without blanks around the name of the slot; only a slot that
was made to hold undefined gives it. If there are blanks, and no slot has that name with blanks, the
slot of the step is loaded all the same, but undefined is given, and the relation is not found loaded
the next time. -/
theorem related_reads (t : Table) (w : Waiting) (record : Nat)
    (hplan : LoadPlan.make σ.models t.model [⟨path, none, none⟩] = .ok plan)
    (hthere : record < σ.store.records.size)
    (hlasting : ∀ s ∈ LoadStep.allOf plan.steps,
      Record.endingLifetime (s.relation.lifetime.or σ.relationLifetime) = none) :
    (∃ step, plan.steps = [step] ∧ step.node.slot = firstSlot path) ∧
    (∀ e τ, t.related w record path σ = (.error e, τ) → ∃ store, σ.store.Alike store ∧
      Run.loadOnto w t.model [⟨path, none, none⟩] [record] none t.channel
        { σ with store := store } = (.error e, τ)) ∧
    ∀ v τ, t.related w record path σ = (.ok v, τ) →
      (beforePoint path = firstSlot path → t.Serves record path v τ ∧
        (v = .undefined → '.' ∉ path.toList ∧
          σ.store.loaded? record (firstSlot path) = some .undefined)) ∧
      (beforePoint path ≠ firstSlot path →
        σ.store.loaded? record (beforePoint path) = none →
          v = .undefined ∧ τ.store.loaded? record (beforePoint path) = none ∧
          ∃ u ≠ Value.undefined, τ.store.loaded? record (firstSlot path) = some u) := by
  refine ⟨(LoadPlan.make_path hplan).1, fun e τ h => ?_, fun v τ h => ⟨fun hwritten => ?_, ?_⟩⟩
  · obtain ⟨_, _, -, -, -, hgiven⟩ | ⟨store, halike, hloads⟩ := related_cases t w record path σ
    · cases hgiven.symm.trans h
    · refine ⟨store, halike, ?_⟩
      -- reading the slot never fails, so the load did
      obtain hfailed | ⟨_, υ, -, hread⟩ := Run.bind_eq_error (hloads.symm.trans h)
      · exact hfailed
      · cases hread
  · exact related_written hplan hthere hlasting hwritten h
  · exact fun hblanks hunloaded => related_blanks hplan hthere hlasting hblanks hunloaded h

/-- A user whose posts are not loaded, and a connection that answers twice with one. -/
def lone : Session :=
  { interrupted with
    links := [("main", ⟨.make .sqlite none, false, List.replicate 2
      (.rows [[("id", .number (.int 7)), ("user_id", .number (.int 1))]] none)⟩)]
    signal := none }

/-- The plan for the posts of the user, as their path is written. -/
def postsPlan (path : String) : LoadPlan :=
  ((LoadPlan.make lone.models writer [⟨path, none, none⟩]).toOption).getD ⟨writer, [], []⟩

theorem lasting_postsPlan (path : String) (h : ((LoadStep.allOf (postsPlan path).steps).all fun s =>
    (Record.endingLifetime (s.relation.lifetime.or lone.relationLifetime)).isNone) = true) :
    ∀ s ∈ LoadStep.allOf (postsPlan path).steps,
      Record.endingLifetime (s.relation.lifetime.or lone.relationLifetime) = none :=
  fun s hs => Option.isNone_iff_eq_none.1 (List.all_eq_true.1 h s hs)

/-- The posts of the user are loaded, and served from their slot from then on. -/
theorem related_reads_posts :
    LoadPlan.make lone.models writer [⟨"posts", none, none⟩] = .ok (postsPlan "posts") ∧
      0 < lone.store.records.size ∧
      (∀ s ∈ LoadStep.allOf (postsPlan "posts").steps,
        Record.endingLifetime (s.relation.lifetime.or lone.relationLifetime) = none) ∧
      ∃ v τ, (Table.mk writer none).related .awaiting 0 "posts" lone = (.ok v, τ) ∧
        v ≠ .undefined ∧ (Table.mk writer none).Serves 0 "posts" v τ := by
  have hmade : (LoadPlan.make lone.models writer [⟨"posts", none, none⟩]).isOk = true := by
    decide +kernel
  have hplan := ok_getD hmade ⟨writer, [], []⟩
  have hlasting := lasting_postsPlan "posts" (by decide +kernel)
  have hgiven : ((Table.mk writer none).related .awaiting 0 "posts" lone).1.isOk = true := by
    decide +kernel
  have hunloaded : (lone.store.loaded? 0 "posts").isNone = true := by decide +kernel
  have hwritten : beforePoint "posts" = "posts" ∧ firstSlot "posts" = "posts" := by decide +kernel
  refine ⟨hplan, by decide, hlasting, ?_⟩
  rcases hrun : (Table.mk writer none).related .awaiting 0 "posts" lone with ⟨e | v, τ⟩
  · rw [hrun] at hgiven
    cases hgiven
  · obtain ⟨-, -, hreads⟩ := related_reads ⟨writer, none⟩ .awaiting 0 hplan
      (by decide) hlasting
    obtain ⟨hserves, hundefined⟩ := (hreads v τ hrun).1 (hwritten.1.trans hwritten.2.symm)
    refine ⟨v, τ, rfl, fun hnone => ?_, hserves⟩
    have hheld := (hundefined hnone).2
    rw [hwritten.2] at hheld
    rw [hheld] at hunloaded
    cases hunloaded

/-- With a blank before them the posts are loaded each time, and never given. -/
theorem blank_posts_undefined :
    LoadPlan.make lone.models writer [⟨" posts", none, none⟩] = .ok (postsPlan " posts") ∧
      ∃ τ, (Table.mk writer none).related .awaiting 0 " posts" lone = (.ok .undefined, τ) ∧
        (∃ u ≠ Value.undefined, τ.store.loaded? 0 "posts" = some u) ∧ τ.journal.length = 1 ∧
        ((Table.mk writer none).related .awaiting 0 " posts" τ).2.journal.length = 2 := by
  have hmade : (LoadPlan.make lone.models writer [⟨" posts", none, none⟩]).isOk = true := by
    decide +kernel
  have hplan := ok_getD hmade ⟨writer, [], []⟩
  have hlasting := lasting_postsPlan " posts" (by decide +kernel)
  have hgiven : ((Table.mk writer none).related .awaiting 0 " posts" lone).1.isOk = true := by
    decide +kernel
  have hunloaded : (lone.store.loaded? 0 (beforePoint " posts")).isNone = true := by decide +kernel
  have hfirst : firstSlot " posts" = "posts" := by decide +kernel
  have hblanks : beforePoint " posts" ≠ firstSlot " posts" := by decide +kernel
  have hsent : ((Table.mk writer none).related .awaiting 0 " posts" lone).2.journal.length = 1 := by
    decide +kernel
  -- the slot with the blank stays empty, so the second reading asks again
  have hagain : ((Table.mk writer none).related .awaiting 0 " posts"
      ((Table.mk writer none).related .awaiting 0 " posts" lone).2).2.journal.length = 2 := by
    decide +kernel
  refine ⟨hplan, ?_⟩
  rcases hrun : (Table.mk writer none).related .awaiting 0 " posts" lone with ⟨e | v, τ⟩
  · rw [hrun] at hgiven
    cases hgiven
  · rw [hrun] at hsent hagain
    obtain ⟨rfl, -, hloaded⟩ := related_blanks (t := ⟨writer, none⟩) hplan (by decide)
      hlasting hblanks (Option.isNone_iff_eq_none.1 hunloaded) hrun
    rw [hfirst] at hloaded
    exact ⟨τ, rfl, hloaded, hsent, hagain⟩

end Table
end PolyQuery
