import WorldLocks.World.Inheritance

/-!
# Attribute values

An attribute is computed from the object's record, or stored on the object, or inherited: then its
value is the first non-empty one among the object's ancestors.  Readings are remembered in the
cache under object and key; every write forgets them all.

A definition is handed in as a handle, which may be out of date: its flags may have been changed
since, or it may no longer be registered.  What a read or a write does depends on the flags of the
handle.
-/

set_option autoImplicit false

namespace WorldLocks

/-! ## Reading -/

/-- The object behind another one in a list, or nothing. -/
def nextIn (object : Dbref) (siblings : List Dbref) : Dbref :=
  (siblings.dropWhile (· ≠ object))[1]?.getD .nothing

namespace World

def nextSibling (world : World) (object : Dbref) (record : ObjectRecord) : Dbref :=
  match world.slot? record.location with
  | none => .nothing
  | some place => nextIn object (if record.kind = .exit then place.exits else place.contents)

/-- The value of a computed attribute; one that is stored has none. -/
def computed? (world : World) (object : Dbref) (record : ObjectRecord) : Builtin → Option Text
  | .location => some record.location.literal
  | .owner => some record.owner.literal
  | .link => some record.link.literal
  | .parents => some (Dbref.literals record.parents)
  | .children => some (Dbref.literals record.children)
  | .contents => some (Dbref.literals record.contents)
  | .exits => some (Dbref.literals record.exits)
  | .name => some record.name
  | .flags => some (ObjectFlag.shortForm record.kind record.flags)
  | .longFlags => some (ObjectFlag.longForm record.kind record.flags)
  | .zone => some record.zone.literal
  | .next => some (world.nextSibling object record).literal
  | .modified => some (Text.ofInt record.modified)
  | .created => some (Text.ofInt record.created)
  | _ => none

def computedValue (world : World) (object : Dbref) (record : ObjectRecord) : AttrKey → Text
  | .builtin which => (world.computed? object record which).getD "???".toList
  | .declared _ => []

def ownValue? (world : World) (key : AttrKey) (object : Dbref) : Option Text :=
  ((world.slot? object).bind (·.value? key)).filter (· ≠ [])

/-- The first non-empty value under a key that a search from an object's parents finds. -/
def inheritedValue? (world : World) (object : Dbref) (key : AttrKey) : Option Text :=
  ((world.parentsOf object).foldl
    (fun (found, seen) parent =>
      if found.isSome then (found, seen)
      else search world.parentsOf (world.ownValue? key) world.searchDepth parent seen)
    (none, [object])).1

/-- The value of a stored attribute, read without the cache: the one stored on the object itself,
else, for a handle that says so, an inherited one, else nothing. -/
def storedValue (world : World) (object : Dbref) (record : ObjectRecord) (handle : AttrDef) :
    Text :=
  match record.value? handle.key with
  | some value => value
  | none =>
    if handle.hasFlag .inherit then (world.inheritedValue? object handle.key).getD [] else []

/-- Reads an attribute with a given cache, and gives the cache after it. -/
def readWith (world : World) (cache : ReadCache) (object : Dbref) (handle : AttrDef) :
    Text × ReadCache :=
  match world.slot? object with
  | none => ([], cache)
  | some record =>
    if handle.isComputed then (world.computedValue object record handle.key, cache)
    else match cache.lookup? object handle.key with
      | some value => (value, cache)
      | none =>
        let value := world.storedValue object record handle
        (value, cache.fill object handle.key value)

/-- Reads an attribute; the world remembers the reading. -/
def read (world : World) (object : Dbref) (handle : AttrDef) : Text × World :=
  let (value, cache) := world.readWith world.cache object handle
  (value, { world with cache := cache })

/-- The values stored in an object's slot with their current definitions, oldest first; values whose
definition is gone are left out. -/
def localValues (world : World) (object : Dbref) : List (AttrDef × Text) :=
  ((world.slot? object).elim [] (·.values)).filterMap fun entry =>
    (world.definition? entry.key).map (·, entry.value)

/-! ## Writing -/

/-- The world with one more reference to a key.  A built-in attribute is not counted, and a
definition that is gone gets no new references. -/
def addRef (world : World) : AttrKey → Except WorldError World
  | .builtin _ => .ok world
  | .declared serial =>
    match world.registry.addRef? serial with
    | some registry => .ok { world with registry := registry }
    | none => .error (.definitionFreed serial)

/-- The world with one reference less to a key; a built-in attribute is not counted. -/
def release (world : World) : AttrKey → World
  | .builtin _ => world
  | .declared serial => { world with registry := world.registry.release serial }

def appendValue (entry : AttrValue) (record : ObjectRecord) : ObjectRecord :=
  { record with values := record.values ++ [entry] }

def replaceValue (entry : AttrValue) (record : ObjectRecord) : ObjectRecord :=
  let index := record.values.findIdx (·.key = entry.key)
  { record with values := record.values.modify index fun _ => entry }

def eraseValue (key : AttrKey) (record : ObjectRecord) : ObjectRecord :=
  { record with values := record.values.eraseP (·.key = key) }

def dropValues (key : AttrKey) (record : ObjectRecord) : ObjectRecord :=
  { record with values := record.values.filter (·.key ≠ key) }

/-- Stores a value under a handle's key.  An empty value takes the entry away, and a value for a
key that has an entry replaces it in its place.  A new entry is added once there is a reference for
it.  Adding it first and taking every entry for its key back when the definition turns out to be
gone would come to the same, as there is no other one. -/
def setValue (world : World) (object : Dbref) (handle : AttrDef) (value : Text) : Outcome Unit :=
  if handle.isComputed then world.refuse (.builtinAttribute handle.name)
  else
    let world := world.flush
    match world.slot? object with
    | none => world.refuse (.objectNotFound object)
    | some record =>
      match record.value? handle.key, value with
      | none, [] => world.done ()
      | some _, [] => ((world.modify object (eraseValue handle.key)).release handle.key).done ()
      | some _, value => (world.modify object (replaceValue ⟨handle.key, value⟩)).done ()
      | none, value =>
        match world.addRef handle.key with
        | .error error => world.refuse error
        | .ok counted => (counted.modify object (appendValue ⟨handle.key, value⟩)).done ()

/-- Takes away what is stored under a key, if anything is. -/
def clearKey (world : World) (object : Dbref) (key : AttrKey) : Outcome Unit :=
  let world := world.flush
  match world.slot? object with
  | none => world.refuse (.objectNotFound object)
  | some record =>
    let cleared := world.modify object (dropValues key)
    if record.values.any (·.key = key) then (cleared.release key).done () else cleared.done ()

/-- Takes away what is stored under a handle's key, so that an inherited value shows again. -/
def clearValue (world : World) (object : Dbref) (handle : AttrDef) : Outcome Unit :=
  world.clearKey object handle.key

def releaseAll (world : World) (values : List AttrValue) : World :=
  values.foldl (fun world entry => world.release entry.key) world

def freeValues (world : World) (object : Dbref) : Outcome Unit :=
  let world := world.flush
  match world.slot? object with
  | none => world.refuse (.objectNotFound object)
  | some record =>
    ((world.modify object fun record => { record with values := [] }).releaseAll
      record.values).done ()

/-- Adds a reference for each of some values, up to the first whose definition is gone. -/
def addRefs (world : World) : List AttrValue → Outcome Unit
  | [] => world.done ()
  | entry :: later =>
    match world.addRef entry.key with
    | .error error => world.refuse error
    | .ok counted => counted.addRefs later

def keyHasFlag (world : World) (key : AttrKey) (flag : AttrFlag) : Bool :=
  (world.definition? key).any (·.hasFlag flag)

/-- Replaces what is stored on one object by the values of another one that are not inherited. -/
def copyNoninherited (world : World) (destination source : Dbref) : Outcome Unit :=
  match world.slot? source with
  | none => world.refuse (.objectNotFound source)
  | some record =>
    let copied := record.values.filter fun entry => !world.keyHasFlag entry.key .inherit
    (world.freeValues destination).andThen fun _ world =>
      (world.addRefs copied).andThen fun _ world =>
        (world.modify destination fun record => { record with values := copied }).done ()

end World
end WorldLocks
