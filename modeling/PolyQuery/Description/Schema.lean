import PolyQuery.Builder.Traversal
import PolyQuery.Config
import PolyQuery.Description.Query
import PolyQuery.Model.Reflect
import PolyQuery.Sql.Fragment

/-! Reading models, relations and requests for related records from descriptions. -/
namespace PolyQuery.Description

/-- A field of a model. -/
def field (d : Description) : Field :=
  ⟨(d.get "type").text?, (d.get "dbType").representation?, (d.get "adapter").adapter?⟩

/-- The fields of a model. -/
def fieldMap (d : Description) : FieldMap := d.entries.map fun (name, f) => (name, f.field)

/-- A link of some kind with its options. -/
def link (kind : String) (options : Description) : Link :=
  let key := (options.get "localKey").text?
  match kind with
  | "hasOne" => .hasOne key
  | "hasMany" => .hasMany key
  | "belongsTo" => .belongsTo (options.get "ownerKey").text?
  | _ => .polymorphic key (options.get "typeColumn").text (options.get "typeValue").text?
      ((options.get "many").bool?.getD true)

/-- A relation: its kind, its target, the foreign key and options. -/
def relation (d : Description) : Relation :=
  let options := d.item 3
  ⟨(d.item 1).text, (d.item 2).text, link (d.item 0).text options,
    (options.get "inverseOf").text?, (options.get "cacheTtlMs").number?⟩

/-- A relation as an object. Options that it does not use are listed too; where both say something,
the relation itself counts. -/
def relationView (d : Description) : Value :=
  let options := (d.item 3).toOperand.entries.filterMap fun (name, x) =>
    if Expr.isAbsent x then none else some (name, x.toValue)
  match d.relation.reflect with
  | .node own => .node (Fields.ofList (options ++ own))
  | v => v

/-- A model. -/
def model (d : Description) : Model :=
  Model.make (d.get "name").text (d.get "table").text (d.get "primaryKey").text?
    (d.get "connection").text? (d.get "fields").fieldMap
    ((d.get "relations").entries.map fun (name, r) => (name, r.relation))
    ((d.get "autoFields").present?.map texts)

/-- A modifier by its name. -/
def modifier? : Description → Option String
  | .modifier name => some name
  | _ => none

/-- A request for related records: a path, a path with a modifier, or an object. -/
def request (d : Description) : LoadRequest :=
  match d.text?, d with
  | some path, _ => ⟨path, none, none⟩
  | none, .items _ => ⟨(d.item 0).text, (d.item 1).modifier?, none⟩
  | none, _ => ⟨(d.get "path").text, (d.get "modify").modifier?, (d.get "as").text?⟩

/-- A traversal, with defaults for what is not given. -/
def traversal (d : Description) : Traversal where
  table := (d.get "table").text
  start := (d.get "start").toOperand
  idColumn := (d.get "idColumn").text?.getD "id"
  parentColumn := (d.get "parentColumn").text?.getD "parent_id"
  toDescendants := (d.get "direction").text?.getD "descendants" == "descendants"
  maxDepth := (d.get "maxDepth").bound?.getD (.number Config.standard.recursionDepth)
  name := (d.get "name").text?.getD "tree"
  connection := (d.get "connection").text?.getD defaultConnection

/-- The channel of a connection, by name or as such; without one, the client. -/
def toChannel (d : Description) : Channel :=
  match d with
  | .channel c => c
  | d => (d.text?.map Channel.connection).getD .client

/-- A row of data. -/
def row (d : Description) : Row :=
  match d.toValue with
  | .object fs => fs
  | _ => []

/-- The binding of a value with what is said about its type. -/
def binding (d : Description) : Binding :=
  ⟨(d.get "value").toValue, ⟨(d.get "hostType").text, (d.get "dbType").representation?,
    (d.get "adapter").adapter?⟩⟩

end PolyQuery.Description
