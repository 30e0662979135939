import PolyQuery.Value

/-! The store of records. A record has properties in order; some hold data, others are slots for
loaded relations. What a slot holds lives beside the record, in a cache whose entries may expire; a
slot without a live entry reads as undefined. Reading an expired entry removes it. -/
namespace PolyQuery

/-- A property holds data, or is a slot that may be hidden from listings of the record. -/
inductive Property where
  | data (v : Value)
  | slot (visible : Bool)
  deriving Repr

/-- A loaded value and the time from which it counts as not loaded, if there is one. -/
structure CacheEntry where
  value : Value
  expiry : Option Number
  deriving Repr

/-- A record. -/
structure Record where
  properties : List (String × Property)
  cache : List (String × CacheEntry)
  deriving Repr

/-- A record without properties. -/
def Record.blank : Record := ⟨[], []⟩

/-- All records, by identity, and the time in milliseconds. -/
structure Store where
  records : Array Record
  now : Number

namespace Record

/-- A record with data. -/
def ofRow (row : Row) : Record :=
  ⟨(Fields.ofList row).map fun (name, v) => (name, .data v), []⟩

/-- Without a key. -/
def without {α : Type} (key : String) (entries : List (String × α)) : List (String × α) :=
  entries.filter fun e => e.1 != key

/-- Whether an entry still counts. -/
def isLive (now : Number) (e : CacheEntry) : Bool :=
  match e.expiry with
  | some t => !t.le now
  | none => true

/-- The live entry of a slot, and the record without it where it has expired. -/
def readCache (r : Record) (now : Number) (slot : String) : Option Value × Record :=
  match r.cache.lookup slot with
  | none => (none, r)
  | some e =>
    if isLive now e then (some e.value, r) else (none, { r with cache := without slot r.cache })

/-- The value of a property, and the record after reading it. -/
def read (r : Record) (now : Number) (property : String) : Value × Record :=
  match r.properties.lookup property with
  | some (.data v) => (v, r)
  | some (.slot _) =>
    let (v, r) := r.readCache now property
    (v.getD .undefined, r)
  | none => (.undefined, r)

/-- A lifetime in milliseconds that ends; zero does not. -/
def endingLifetime (lifetime : Option Number) : Option Number :=
  lifetime.filter fun n => !(n.isZero || n == .nan)

/-- The properties with a slot in them. A slot that is there keeps its visibility, and data gives
way to the slot. -/
def openSlot (properties : List (String × Property)) (slot : String) (visible : Bool) :
    List (String × Property) :=
  match properties.lookup slot with
  | some (.slot _) => properties
  | _ => Fields.put properties slot (.slot visible)

/-- Puts a loaded value into a slot. -/
def attach (r : Record) (now : Number) (slot : String) (value : Value) (lifetime : Option Number)
    (visible : Bool) : Record where
  properties := openSlot r.properties slot visible
  cache := Fields.put r.cache slot ⟨value, (endingLifetime lifetime).map now.add⟩

/-- Marks a slot, or all of them, as not loaded. -/
def clear (r : Record) : Option String → Record
  | some slot => { r with cache := without slot r.cache }
  | none => { r with cache := [] }

/-- Whether listings show a property. -/
def isVisible : Property → Bool
  | .data _ => true
  | .slot visible => visible

/-- The names that listings of the record show, in order. -/
def visibleNames (r : Record) : List String :=
  (Fields.arrange (r.properties.filter fun p => isVisible p.2)).map Prod.fst

/-- The names that listings do not show, in order. -/
def hiddenNames (r : Record) : List String :=
  (Fields.arrange (r.properties.filter fun p => !isVisible p.2)).map Prod.fst

end Record

namespace Store

/-- A store without records. -/
def empty : Store := ⟨#[], .int 1760000000000⟩

/-- The record of an identity. -/
def record (s : Store) (id : Nat) : Record := s.records[id]?.getD .blank

/-- The store with a record changed. -/
def change (s : Store) (id : Nat) (f : Record → Record) : Store :=
  { s with records := s.records.modify id f }

/-- Adds a record. -/
def add (s : Store) (r : Record) : Nat × Store :=
  (s.records.size, { s with records := s.records.push r })

/-- Adds records for rows, in order. -/
def addRows (s : Store) : List Row → List Nat × Store
  | [] => ([], s)
  | row :: rest =>
    let (id, s) := s.add (.ofRow row)
    let (ids, s) := s.addRows rest
    (id :: ids, s)

/-- Reads a property of a record. -/
def read (s : Store) (id : Nat) (property : String) : Value × Store :=
  let (v, r) := (s.record id).read s.now property
  (v, s.change id fun _ => r)

/-- Reads a property of an object or an item of a list. -/
def readOf (s : Store) (v : Value) (name : String) : Value × Store :=
  match v with
  | .record id => s.read id name
  | .object fields => ((fields.lookup name).getD .undefined, s)
  | .array items =>
    match Fields.position? name with
    | some n => ((items[n]?).getD .undefined, s)
    | none => (if name = "length" then .number (.int items.length) else .undefined, s)
  | _ => (.undefined, s)

/-- Follows names from a value, each a property of what the ones before lead to. -/
def follow (s : Store) (v : Value) : List String → Value × Store
  | [] => (v, s)
  | name :: rest =>
    let (next, s) := s.readOf v name
    follow s next rest

/-- Reads properties of a record, in order. -/
def readAll (s : Store) (id : Nat) : List String → List (String × Value) × Store
  | [] => ([], s)
  | name :: rest =>
    let (v, s) := s.read id name
    let (others, s) := s.readAll id rest
    ((name, v) :: others, s)

/-- The loaded value of a slot, if it is loaded. -/
def cached? (s : Store) (id : Nat) (slot : String) : Option Value × Store :=
  let (v, r) := (s.record id).readCache s.now slot
  (v, s.change id fun _ => r)

/-- Puts a loaded value into a slot of a record. -/
def attach (s : Store) (id : Nat) (slot : String) (value : Value) (lifetime : Option Number)
    (visible : Bool) : Store :=
  s.change id fun r => r.attach s.now slot value lifetime visible

/-- Marks a slot of a record, or all of them, as not loaded. -/
def clear (s : Store) (id : Nat) (slot : Option String) : Store :=
  s.change id fun r => r.clear slot

/-- A new record with what a listing of another shows, as data. -/
def copy (s : Store) (id : Nat) : Nat × Store :=
  let (row, s) := s.readAll id (s.record id).visibleNames
  s.add (.ofRow row)

end Store

end PolyQuery
