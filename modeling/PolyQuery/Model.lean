import PolyQuery.Adapter
import PolyQuery.Number

/-! Models: what is known about a table. A model names the table, the connection on which it lives,
the types of its fields and its relations to other models. Fields and relations go by the names of
record properties. -/
namespace PolyQuery

/-- The declared type of a field, and overrides of the representation and the adapter. -/
structure Field where
  hostType : Option String
  representation : Option Representation
  adapter : Option Adapter
  deriving Repr

/-- A field of which nothing is declared. -/
def Field.untyped : Field := ⟨none, none, none⟩

/-- Whether a field overrides what the dialect would choose. -/
def Field.isOverridden (f : Field) : Bool := f.adapter.isSome || f.representation.isSome

/-- The fields of a model by property. -/
abbrev FieldMap := List (String × Field)

namespace FieldMap

/-- Properties that every object has, declared or not. -/
def inherited : List String :=
  ["constructor", "toString", "valueOf", "hasOwnProperty", "isPrototypeOf",
    "propertyIsEnumerable", "toLocaleString"]

/-- The field of a property. A property that every object has is a field without a type. -/
def find? (fields : FieldMap) (property : String) : Option Field :=
  match fields.lookup property with
  | some f => some f
  | none => if inherited.contains property then some Field.untyped else none

end FieldMap

/-- How the records of two models are linked. The target holds the key of the owner, or the owner
holds the key of the target, or the target tells by a second column which model its owner is of. A
local or owner key that is absent is the primary key. -/
inductive Link where
  | hasOne (localKey : Option String)
  | hasMany (localKey : Option String)
  | belongsTo (ownerKey : Option String)
  | polymorphic (localKey : Option String) (typeColumn : String) (typeValue : Option String)
      (many : Bool)
  deriving Repr

/-- The word for a link. -/
def Link.name : Link → String
  | .hasOne _ => "hasOne"
  | .hasMany _ => "hasMany"
  | .belongsTo _ => "belongsTo"
  | .polymorphic _ _ _ _ => "polymorphic"

/-- A relation to a target model through a foreign key. The inverse is the slot of a target record
that points back, and the lifetime says for how many milliseconds loaded records are kept. -/
structure Relation where
  target : String
  foreignKey : String
  link : Link
  inverse : Option String
  lifetime : Option Number
  deriving Repr

/-- Whether a relation leads to a list of records. -/
def Relation.isToMany (r : Relation) : Bool :=
  match r.link with
  | .hasMany _ => true
  | .polymorphic _ _ _ many => many
  | _ => false

/-- The inverse slot, where the relation fills one: a record does not point back at what it belongs
to, and an empty name is none. -/
def Relation.inverseSlot (r : Relation) : Option String :=
  match r.link with
  | .belongsTo _ => none
  | _ => r.inverse.filter (· != "")

/-- A model. -/
structure Model where
  name : String
  table : String
  primaryKey : String
  connection : String
  fields : FieldMap
  relations : List (String × Relation)
  autoFields : List String
  deriving Repr

/-- The connection of models that name none. -/
def defaultConnection : String := "default"

/-- Fields that the database fills in, unless a model says otherwise. -/
def defaultAutoFields : List String := ["id", "createdAt", "updatedAt"]

/-- A model by its name and table, with defaults for what is not given. -/
def Model.make (name table : String) (primaryKey connection : Option String) (fields : FieldMap)
    (relations : List (String × Relation)) (autoFields : Option (List String)) : Model where
  name := name
  table := table
  primaryKey := primaryKey.getD "id"
  connection := connection.getD defaultConnection
  fields := fields
  relations := relations
  autoFields := autoFields.getD defaultAutoFields

/-- The property of an owner's record that holds the key of a relation. -/
def Relation.parentKey (r : Relation) (owner : Model) : String :=
  match r.link with
  | .hasOne key => key.getD owner.primaryKey
  | .hasMany key => key.getD owner.primaryKey
  | .polymorphic key _ _ _ => key.getD owner.primaryKey
  | .belongsTo _ => r.foreignKey

/-- The property of a target's record that holds the key of a relation. -/
def Relation.childKey (r : Relation) (target : Model) : String :=
  match r.link with
  | .belongsTo key => key.getD target.primaryKey
  | _ => r.foreignKey

end PolyQuery
