import WorldLocks.Attribute.Definition
import WorldLocks.Object.Flag
import WorldLocks.World.Error

/-!
# Worlds

A world is a table of objects that only grows, a registry of the attribute definitions declared on
them, and a cache of attribute readings.  A destroyed object keeps its slot, so that a number never
comes to mean another object.

Operations on a world answer with a result and the world after it.  An operation may be refused
after it has already changed something, so a refusal too comes with a world.
-/

set_option autoImplicit false

namespace WorldLocks

/-! ## Objects -/

structure AttrValue where
  key : AttrKey
  value : Text
  deriving DecidableEq

/-- What the table holds about one object. -/
structure ObjectRecord where
  name : Text
  kind : ObjectKind
  flags : FlagSet ObjectFlag
  location : Dbref
  zone : Dbref
  /-- The objects inside that are no exits, oldest first. -/
  contents : List Dbref
  exits : List Dbref
  link : Dbref
  owner : Dbref
  /-- The objects whose attributes are inherited, in the order in which they are searched. -/
  parents : List Dbref
  children : List Dbref
  /-- The serial numbers of the definitions declared here, oldest first. -/
  declared : List Nat
  values : List AttrValue
  modified : Int
  created : Int
  deriving DecidableEq

namespace ObjectRecord

def new (name : Text) (kind : ObjectKind) (owner : Dbref) (now : Int) : ObjectRecord where
  name := name
  kind := kind
  flags := .empty
  location := .nothing
  zone := .nothing
  contents := []
  exits := []
  link := .nothing
  owner := owner
  parents := []
  children := []
  declared := []
  values := []
  modified := now
  created := now

def hasFlag (record : ObjectRecord) (flag : ObjectFlag) : Bool := record.flags.contains flag

def value? (record : ObjectRecord) (key : AttrKey) : Option Text :=
  (record.values.find? (·.key = key)).map (·.value)

end ObjectRecord

/-! ## The registry of definitions -/

/-- A declared definition and how often it is referred to: once by the object that declares it, and
once by every stored value. -/
structure Registered where
  serial : Nat
  definition : AttrDef
  count : Nat
  deriving DecidableEq

/-- The live definitions, and the serial number of the next one.  Serial numbers are never used
twice. -/
structure Registry where
  entries : List Registered
  nextSerial : Nat
  deriving DecidableEq

namespace Registry

def empty : Registry := ⟨[], 0⟩

def registered? (registry : Registry) (serial : Nat) : Option Registered :=
  registry.entries.find? (·.serial = serial)

/-- The definition of a serial number, while it is registered. -/
def definition? (registry : Registry) (serial : Nat) : Option AttrDef :=
  (registry.registered? serial).map (·.definition)

def count? (registry : Registry) (serial : Nat) : Option Nat :=
  (registry.registered? serial).map (·.count)

def size (registry : Registry) : Nat := registry.entries.length

/-- The registry with the entry of a serial number changed, if there is one. -/
def update (registry : Registry) (serial : Nat) (change : Registered → Registered) : Registry :=
  { registry with
    entries := registry.entries.map fun entry =>
      if entry.serial = serial then change entry else entry }

/-- The registry with a new definition, to which its declaration refers, and its definition. -/
def declare (registry : Registry) (name : Text) (flags : FlagSet AttrFlag) (definer : Dbref) :
    AttrDef × Registry :=
  let definition : AttrDef := ⟨.declared registry.nextSerial, name, flags, definer⟩
  (definition,
    ⟨registry.entries ++ [⟨registry.nextSerial, definition, 1⟩], registry.nextSerial + 1⟩)

/-- The registry with one more reference to a definition, if it is registered. -/
def addRef? (registry : Registry) (serial : Nat) : Option Registry :=
  match registry.registered? serial with
  | some _ => some (registry.update serial fun entry => { entry with count := entry.count + 1 })
  | none => none

/-- The registry with one reference less to a definition, which goes with its last reference. -/
def release (registry : Registry) (serial : Nat) : Registry :=
  match registry.registered? serial with
  | none => registry
  | some entry =>
    if entry.count ≤ 1 then
      { registry with entries := registry.entries.filter (·.serial ≠ serial) }
    else registry.update serial fun entry => { entry with count := entry.count - 1 }

def setFlags (registry : Registry) (serial : Nat) (flags : FlagSet AttrFlag) : Registry :=
  registry.update serial fun entry =>
    { entry with definition := { entry.definition with flags := flags } }

end Registry

/-! ## The cache of readings -/

/-- Remembers what attributes were read as, by object and key, until the next write. -/
structure ReadCache where
  enabled : Bool
  entries : List ((Dbref × AttrKey) × Text)
  deriving DecidableEq

namespace ReadCache

/-- What an attribute of an object was last read as, if that is remembered. -/
def lookup? (cache : ReadCache) (object : Dbref) (key : AttrKey) : Option Text :=
  if cache.enabled then (cache.entries.find? (·.1 = (object, key))).map (·.2) else none

def fill (cache : ReadCache) (object : Dbref) (key : AttrKey) (value : Text) : ReadCache :=
  if cache.enabled then { cache with entries := ((object, key), value) :: cache.entries } else cache

def flush (cache : ReadCache) : ReadCache := { cache with entries := [] }

end ReadCache

/-! ## Worlds -/

structure WorldConfig where
  maxAttrDefs : Nat := 90
  /-- Whether attribute readings are remembered until the next write. -/
  attrCache : Bool := true
  deriving DecidableEq, Repr

/-- A table of objects with the definitions declared on them. -/
structure World where
  objects : List ObjectRecord
  registry : Registry
  cache : ReadCache
  config : WorldConfig
  /-- The time, in seconds since 1970, that objects are stamped with. -/
  clock : Int
  deriving DecidableEq

namespace World

def new (config : WorldConfig) (clock : Int) : World :=
  ⟨[], .empty, ⟨config.attrCache, []⟩, config, clock⟩

/-- The record in an object's slot, whether the object is destroyed or not. -/
def slot? (world : World) (object : Dbref) : Option ObjectRecord :=
  object.index?.bind (world.objects[·]?)

/-- The record of an object that exists: one in the table that is not destroyed. -/
def record? (world : World) (object : Dbref) : Option ObjectRecord :=
  (world.slot? object).filter fun record => !record.hasFlag .going

def isValid (world : World) (object : Dbref) : Bool := (world.record? object).isSome

def slots (world : World) : List Dbref := (List.range world.objects.length).map Dbref.ofIndex

def validObjects (world : World) : List Dbref := world.slots.filter world.isValid

/-- The world with the record in an object's slot changed, if there is such a slot. -/
def modify (world : World) (object : Dbref) (change : ObjectRecord → ObjectRecord) : World :=
  match object.index? with
  | some index => { world with objects := world.objects.modify index change }
  | none => world

def flush (world : World) : World := { world with cache := world.cache.flush }

def ownerOf (world : World) (object : Dbref) : Dbref :=
  (world.slot? object).elim .nothing (·.owner)

def nameOf (world : World) (object : Dbref) : Text := (world.slot? object).elim [] (·.name)

def hasFlag (world : World) (object : Dbref) (flag : ObjectFlag) : Bool :=
  (world.record? object).any (·.hasFlag flag)

def definition? (world : World) : AttrKey → Option AttrDef
  | .builtin which => some (.ofBuiltin which)
  | .declared serial => world.registry.definition? serial

end World

/-! ## Outcomes -/

/-- The result of an operation, and the world after it. -/
abbrev Outcome (α : Type) := Except WorldError α × World

namespace World

def done {α : Type} (world : World) (result : α) : Outcome α := (.ok result, world)

def refuse {α : Type} (world : World) (error : WorldError) : Outcome α := (.error error, world)

/-- Goes on if an object exists, and is refused otherwise. -/
def ifExists {α : Type} (world : World) (object : Dbref) (next : World → Outcome α) : Outcome α :=
  if world.isValid object then next world else world.refuse (.objectNotFound object)

/-- Goes on if a reference is to nothing or to an object that exists, and is refused otherwise. -/
def ifNothingOrExists {α : Type} (world : World) (object : Dbref) (next : World → Outcome α) :
    Outcome α :=
  if object = .nothing then next world else world.ifExists object next

/-- Changes the record in an object's slot, or refuses if there is no such slot. -/
def modifySlot (world : World) (object : Dbref) (change : ObjectRecord → ObjectRecord) :
    Outcome Unit :=
  if (world.slot? object).isSome then (world.modify object change).done ()
  else world.refuse (.objectNotFound object)

end World

namespace Outcome

variable {α β : Type}

/-- Goes on with a further operation unless the first is refused. -/
def andThen (outcome : Outcome α) (next : α → World → Outcome β) : Outcome β :=
  match outcome with
  | (.ok result, world) => next result world
  | (.error error, world) => (.error error, world)

end Outcome
end WorldLocks
