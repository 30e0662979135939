import PolyQuery.Model
import PolyQuery.Plan.Arity
import PolyQuery.Relation.LoadTree
import PolyQuery.Text.Units

/-! Plain views of models and relations, of trees of relations to load, and of arities. -/
namespace PolyQuery

/-- The fields of a link. -/
def Link.fields : Link → List (String × Value)
  | .hasOne key => optionalText "localKey" key
  | .hasMany key => optionalText "localKey" key
  | .belongsTo key => optionalText "ownerKey" key
  | .polymorphic key typeColumn typeValue many =>
    optionalText "localKey" key ++ [("typeColumn", .string typeColumn), ("many", .bool many)] ++
      optionalText "typeValue" typeValue

/-- A relation as an object. -/
def Relation.reflect (r : Relation) : Value :=
  kindNode r.link.name ([("target", .string r.target), ("foreignKey", .string r.foreignKey)] ++
    r.link.fields ++ optionalText "inverseOf" r.inverse ++
    optionalField "cacheTtlMs" (r.lifetime.map Value.number))

/-- A model as an object; of its fields and relations the names are listed, in order. -/
def Model.reflect (m : Model) : Value :=
  let sorted (names : List String) : Value :=
    .array ((names.mergeSort Text.unitsLe).map Value.string)
  .node [("name", .string m.name), ("table", .string m.table),
    ("primaryKey", .string m.primaryKey), ("connection", .string m.connection),
    ("autoFields", .array (m.autoFields.map Value.string)),
    ("fields", sorted (m.fields.map Prod.fst)), ("relations", sorted (m.relations.map Prod.fst))]

mutual

/-- A node of a tree as an object. -/
def LoadNode.reflect : LoadNode → Value
  | ⟨relation, slot, modifier, path, _, children⟩ =>
    .node [("relation", .string relation), ("slot", .string slot), ("path", .string path),
      ("modifier", (modifier.map Value.string).getD .null),
      ("children", .array (reflectNodes children))]

/-- Nodes as objects. -/
def reflectNodes : List LoadNode → List Value
  | [] => []
  | n :: rest => n.reflect :: reflectNodes rest

end

/-- An arity as an object. -/
def Arity.reflect : Arity → Value
  | .count n => kindNode "count" [("count", .number (.int n))]
  | .wildcard table =>
    kindNode "wildcard" [("table", (table.map Value.string).getD .null)]

end PolyQuery
