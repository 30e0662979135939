import PolyQuery.Relation.Key
import PolyQuery.Relation.LoadPlan
import PolyQuery.Session

/-! Eager loading. The relations of a plan are taken level by level, parents before children; each
is loaded by one query for the keys of all its parents, and the children are attached to the
parents whose key they hold. The loader takes the way in which a query is run as an argument, so
awaited and blocking loading share every step. -/
namespace PolyQuery

/-- A relation to load for the records that are its parents. -/
structure LoadFrame where
  step : LoadStep
  parents : List Nat

/-- What a load is about: the plan, the connection of the root records, the channel on which queries
that stay on that connection run, and whether the signal is heeded. -/
structure LoadContext where
  plan : LoadPlan
  rootConnection : String
  channel : Option Channel
  watched : Bool

/-- What a load has done: the paths that were loaded, the warnings, and the number of queries. -/
structure LoadReport where
  completed : List String
  warnings : List CrossConnection
  queries : Nat
  deriving DecidableEq, Repr

namespace Loader

/-- The key of a property of a record. -/
def keyOf (id : Nat) (property : String) : Run (Value × Option String) := do
  let v ← Run.onStore fun s => s.read id property
  let key ← Run.onStoreOrFail (matchKey v)
  return (v, key)

/-- The distinct keys among the parents, in order, each with its first value. -/
def distinctKeys (property : String) (found : List (String × Value)) :
    List Nat → Run (List (String × Value))
  | [] => return found
  | id :: rest => do
    let (v, key) ← keyOf id property
    distinctKeys property (match key with
      | some k => addKey found k v
      | none => found) rest

/-- The groups of the children by key, in order. -/
def groupChildren (property : String) (groups : List (String × List Nat)) :
    List Nat → Run (List (String × List Nat))
  | [] => return groups
  | id :: rest => do
    let (_, key) ← keyOf id property
    groupChildren property (match key with
      | some k => addToGroup groups k id
      | none => groups) rest

/-- A value as it can be bound: records in it become plain objects. -/
def bindable (v : Value) : Run Value := do
  let plain ← Run.onStore fun s => s.plain? v
  return plain.getD v

/-- The connection from which a model's records are taken to come. -/
def connectionOf (ctx : LoadContext) (m : Model) : String :=
  if m.name = ctx.plan.model.name then ctx.rootConnection else m.connection

/-- The condition that a child holds one of the keys. -/
def keyCondition (s : LoadStep) (keys : List Value) : Expr :=
  .inList (.column (some s.target.table) (Naming.camelToSnake s.childKey) none)
    (keys.map fun v => propertyValue (some s.target.fields) s.childKey (.value v)) false

/-- The criteria that narrow the query for children to those of the parents. -/
def childCriteria (s : LoadStep) (keys : List Value) : List Criterion :=
  .expression (keyCondition s keys) ::
    (match s.relation.link with
      | .polymorphic _ typeColumn typeValue _ =>
        [.comparison typeColumn .equal (.value (.string (typeValue.getD s.owner.name)))]
      | _ => [])

/-- The query for the children of a step, with the modifier applied before it is narrowed. -/
def childQuery (s : LoadStep) (keys : List Value) : Run Builder := do
  let b ← Run.query s.target.name
  let session ← Run.session
  let modified ← match s.node.modifier.bind fun name => session.modifiers.lookup name with
    | some change => Run.ofExcept (change b)
    | none => pure b
  return (childCriteria s keys).foldl Builder.filter modified

/-- The lifetime of what a relation attaches. -/
def lifetimeOf (s : LoadStep) : Run (Option Number) := do
  let session ← Run.session
  return s.relation.lifetime.or session.relationLifetime

/-- What a slot holds: all children, or the first one. -/
def slotValue (many : Bool) (children : List Nat) : Value :=
  if many then .array (children.map Value.record)
  else (children.head?.map Value.record).getD .null

/-- Points the inverse slots of children back at their parent. -/
def attachInverse (slot : String) (lifetime : Option Number) (parent : Nat) (children : List Nat) :
    Run Unit :=
  Run.onStore fun s =>
    ((), children.foldl (fun s child => s.attach child slot (.record parent) lifetime false) s)

/-- Attaches the children to the parents that hold their keys, parent by parent. -/
def attachAll (step : LoadStep) (lifetime : Option Number) (groups : List (String × List Nat)) :
    List Nat → Run Unit
  | [] => return
  | parent :: rest => do
    let (_, key) ← keyOf parent step.parentKey
    let children := ((key.bind fun k => groups.lookup k)).getD []
    Run.onStore fun s =>
      ((), s.attach parent step.node.slot (slotValue step.relation.isToMany children) lifetime true)
    match step.relation.inverseSlot with
    | some slot => attachInverse slot lifetime parent children
    | none => pure ()
    attachAll step lifetime groups rest

/-- Attaches what was loaded for a step. -/
def attach (step : LoadStep) (parents children : List Nat) : Run Unit := do
  let lifetime ← lifetimeOf step
  let groups ← groupChildren step.childKey [] children
  attachAll step lifetime groups parents

/-- Ends a load before the given frames: their slots are left, or made, not loaded. -/
def cancel {α : Type} (ctx : LoadContext) (report : LoadReport) (frames : List LoadFrame) :
    Run α := do
  Run.onStore fun s =>
    ((), frames.foldl (fun s f =>
      f.parents.foldl (fun s id => s.clear id (some f.step.node.slot)) s) s)
  let pending := ctx.plan.paths.filter fun p => !report.completed.contains p
  Run.log "relations" .info ("Eager loading cancelled, pending: " ++ ", ".intercalate pending) []
  let reason ← Run.abortReason
  Run.fail (.loadCancelled report.completed pending reason)

/-- The warning of a step whose children come from another connection than its parents. -/
def crossing? (ctx : LoadContext) (s : LoadStep) : Option CrossConnection :=
  let parent := connectionOf ctx s.owner
  if s.target.connection = parent then none
  else some ⟨s.node.path, parent, s.target.connection⟩

/-- The query on the channel on which it has to run. -/
def directed (ctx : LoadContext) (s : LoadStep) (b : Builder) : Builder :=
  match ctx.channel with
  | some c => if s.target.connection = ctx.rootConnection then b.via c else b
  | none => b

/-- Loads the children of the first frame for the given keys. -/
def loadChildren (fetch : Builder → Run (List Nat)) (ctx : LoadContext) (report : LoadReport)
    (frames : List LoadFrame) (s : LoadStep) (keys : List Value) : Run (List Nat) := do
  match crossing? ctx s with
  | some w => Run.warn w
  | none => pure ()
  Run.log "relations" .debug
    ("Loading " ++ s.node.path ++ " for " ++ toString keys.length ++ " key(s)") []
  let b ← childQuery s keys
  if ctx.watched && (← Run.isAborted) then cancel ctx report frames
  fetch (directed ctx s b)

/-- The report after a step. -/
def advance (ctx : LoadContext) (report : LoadReport) (s : LoadStep) (asked : Bool) : LoadReport :=
  ⟨report.completed ++ [s.node.path],
    report.warnings ++ (if asked then (crossing? ctx s).toList else []),
    report.queries + (if asked then 1 else 0)⟩

/-- Takes frame after frame; the children of a step wait behind all frames that wait already. Each
step adds frames only for the steps below it, so `fuel` is the number of steps in the plan. -/
def run (fetch : Builder → Run (List Nat)) (ctx : LoadContext) :
    Nat → LoadReport → List LoadFrame → Run LoadReport
  | 0, report, _ => return report
  | _ + 1, report, [] => return report
  | fuel + 1, report, f :: rest => do
    let keys ← distinctKeys f.step.parentKey [] f.parents
    let values ← keys.mapM fun k => bindable k.2
    let asked := !values.isEmpty
    let children ←
      if asked then loadChildren fetch ctx report (f :: rest) f.step values else pure []
    attach f.step f.parents children
    run fetch ctx fuel (advance ctx report f.step asked)
      (rest ++ f.step.children.map fun s => ⟨s, children⟩)

/-- Loads a plan onto its root records. -/
def load (fetch : Builder → Run (List Nat)) (ctx : LoadContext) (roots : List Nat) :
    Run LoadReport :=
  run fetch ctx (LoadStep.sizes ctx.plan.steps) ⟨[], [], 0⟩
    (ctx.plan.steps.map fun s => ⟨s, roots⟩)

end Loader

end PolyQuery
