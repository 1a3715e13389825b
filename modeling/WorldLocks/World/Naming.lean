import WorldLocks.Matching.Basic
import WorldLocks.World.Definitions

/-!
# Names in a world

What name matching sees of a world, and how a player's attribute name is resolved to a definition
with its help.
-/

set_option autoImplicit false

namespace WorldLocks.World

/-! ## Names of objects -/

def nickname? (record : ObjectRecord) : Option Text := record.value? (.builtin .nickname)

/-- The names of an object: an exit bears all parts of its name between semicolons, and a player its
alias as well. -/
def recordNames (record : ObjectRecord) : List Text :=
  let names := if record.kind = .exit then record.name.splitOn ';' else [record.name]
  if record.kind = .player then names ++ (nickname? record).toList else names

def namesOf (world : World) (object : Dbref) : Except WorldError (List Text) :=
  match world.record? object with
  | some record => .ok (recordNames record)
  | none => .error (.objectNotFound object)

/-- The exits and the other contents of an existing object's location, then its own contents. -/
def surroundings (world : World) (actor : Dbref) : Except WorldError (List Dbref) :=
  match world.record? actor with
  | none => .error (.objectNotFound actor)
  | some record =>
    let beside := match world.record? record.location with
      | some place => place.exits ++ place.contents.filter (· ≠ actor)
      | none => []
    .ok (beside ++ record.contents)

def locationOf (world : World) (object : Dbref) : Except WorldError Dbref :=
  match world.record? object with
  | some record => .ok record.location
  | none => .error (.objectNotFound object)

/-- Whether a record is a player's that goes by a name, whatever the case of its letters. -/
def isPlayerNamed (name : Text) (record : ObjectRecord) : Bool :=
  record.kind = .player &&
    (Text.sameIgnoringCase record.name name ||
      (nickname? record).any (Text.sameIgnoringCase · name))

def findPlayer (world : World) (name : Text) : Option Dbref :=
  world.validObjects.find? fun object => (world.slot? object).any (isPlayerNamed name)

def environment (world : World) : MatchEnvironment where
  isValid := world.isValid
  names := world.namesOf
  surroundings := world.surroundings
  locationOf := world.locationOf
  findPlayer := world.findPlayer

def matcher (world : World) : Matcher := world.environment.matchObject

/-! ## Names of attributes -/

/-- The definition that a dotted name means before anything else is tried: a built-in one behind a
leading dot, or one that the object named before the dot declares itself. -/
def dottedAttr? (world : World) (matcher : Matcher) (actor : Dbref) (target name : Text) :
    Option AttrDef := do
  let found ← (matcher actor target).toOption
  let object ← found.object?
  world.definedOn? object name

/-- The definition that an actor can read and that a context descends from the definer of, else a
built-in one, else one that the context can read. -/
def plainAttr? (world : World) (actor context : Dbref) (name : Text) : Option AttrDef :=
  let readable := if world.isValid actor then world.findDef? actor name else none
  (readable.filter fun definition => world.isA context definition.definer).or
    ((AttrDef.builtin? name).or
      (if world.isValid context then world.findDef? context name else none))

/-- Resolves an attribute name for an actor in a context.  A name with a leading dot is a built-in
one and nothing else; any other dotted name that names no declaration is tried as it stands. -/
def resolveAttr? (world : World) (matcher : Matcher) (actor context : Dbref) (name : Text) :
    Option AttrDef :=
  match Text.splitOnce '.' name with
  | some ([], builtin) => AttrDef.builtin? builtin
  | some (target, attr) =>
    (world.dottedAttr? matcher actor target attr).or (world.plainAttr? actor context name)
  | none => world.plainAttr? actor context name

end WorldLocks.World
