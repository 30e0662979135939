import PolyQuery.Relation.LoadTree

/-! Load plans: a tree of relations with the models and the keys that they connect. Everything that
can be unknown about a relation is found here, before any statement is sent. -/
namespace PolyQuery

/-- A relation to load: from which model to which, and by which properties of their records. -/
structure LoadStep where
  node : LoadNode
  owner : Model
  target : Model
  relation : Relation
  children : List LoadStep

namespace LoadStep

/-- The property of the parents that holds the key. -/
def parentKey (s : LoadStep) : String := s.relation.parentKey s.owner

/-- The property of the children that holds the key. -/
def childKey (s : LoadStep) : String := s.relation.childKey s.target

mutual

/-- The number of relations in a step with those below it. -/
def size : LoadStep → Nat
  | ⟨_, _, _, _, children⟩ => 1 + sizes children

/-- The number of relations in steps side by side. -/
def sizes : List LoadStep → Nat
  | [] => 0
  | s :: rest => s.size + sizes rest

end

end LoadStep

/-- The model whose records are the roots, the steps to take, and all paths. -/
structure LoadPlan where
  model : Model
  steps : List LoadStep
  paths : List String

mutual

/-- The step of a node whose owner is known. -/
def resolveNode (models : List Model) (owner : Model) : LoadNode → Except Error LoadStep
  | ⟨name, slot, modifier, path, passing, children⟩ =>
    match owner.relations.lookup name with
    | none => .error (.unknownRelation owner.name name none)
    | some relation =>
      match models.find? fun m => m.name == relation.target with
      | none => .error (.unknownRelation owner.name name (some relation.target))
      | some target => do
        let steps ← resolveNodes models target children
        return ⟨⟨name, slot, modifier, path, passing, children⟩, owner, target, relation, steps⟩

/-- The steps of nodes with one owner, in order. -/
def resolveNodes (models : List Model) (owner : Model) :
    List LoadNode → Except Error (List LoadStep)
  | [] => .ok []
  | n :: rest => do
    let s ← resolveNode models owner n
    let others ← resolveNodes models owner rest
    return s :: others

end

/-- The plan for requests on the records of a model. -/
def LoadPlan.make (models : List Model) (model : Model) (requests : List LoadRequest) :
    Except Error LoadPlan := do
  let forest ← (LoadRequest.forest requests).mapError Error.invalidPlan
  let steps ← resolveNodes models model forest
  return ⟨model, steps, LoadNode.paths forest⟩

end PolyQuery
