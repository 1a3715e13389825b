import WorldLocks.Fixture.Basic
import WorldLocks.World.Lifecycle

/-!
# Loading fixtures

A world is built from a fixture in four rounds: first all objects without any relations, so that
they can refer to each other in any order, then the relations of each object, then all declarations,
then all values.  The first thing that goes wrong ends the loading.

Parent links are taken as they are listed, even if they make a cycle.
-/

set_option autoImplicit false

namespace WorldLocks

namespace ObjectFixture

def record (fixture : ObjectFixture) (now : Int) : ObjectRecord :=
  { ObjectRecord.new fixture.name fixture.kind .nothing now with flags := .ofList fixture.flags }

/-- Everything that an object refers to, in the order in which it is checked. -/
def references (fixture : ObjectFixture) (object : Dbref) : List Dbref :=
  [fixture.owner.getD object, fixture.location, fixture.zone, fixture.link] ++ fixture.parents

end ObjectFixture

namespace World

/-! ## Relations -/

/-- Whether a reference leads to a slot, to nothing or to home. -/
def mayReferTo (world : World) (reference : Dbref) : Bool :=
  reference = .nothing || reference = .home || (world.slot? reference).isSome

/-- The world with the owner, zone, link and parents of an object as listed. -/
def relate (world : World) (object : Dbref) (fixture : ObjectFixture) : World :=
  world.modify object fun record =>
    { record with
      owner := fixture.owner.getD object
      zone := fixture.zone
      link := fixture.link
      parents := fixture.parents }

def enlistChild (world : World) (object : Dbref) : List Dbref → Except FixtureError World
  | [] => .ok world
  | parent :: later =>
    if (world.slot? parent).isSome then
      (world.modify parent fun record =>
        { record with children := record.children ++ [object] }).enlistChild object later
    else .error (.world (.objectNotFound parent))

/-- Puts an object where the fixture has it; home and nothing leave it nowhere. -/
def settle (world : World) (object location : Dbref) : World :=
  if location = .nothing ∨ location = .home then world else world.putInto object location

def loadRelations (world : World) (object : Dbref) (fixture : ObjectFixture) :
    Except FixtureError World := do
  match (fixture.references object).find? fun reference => !world.mayReferTo reference with
  | some reference => .error (.badReference object reference)
  | none =>
    let related ← (world.relate object fixture).enlistChild object fixture.parents
    pure (related.settle object fixture.location)

/-! ## Attributes -/

def loadDef (object : Dbref) (world : World) (entry : Text × Text) : Except FixtureError World :=
  let (name, options) := entry
  match AttrFlag.readOptions options with
  | (flags, []) =>
    match world.declareAttr object name flags with
    | (.ok _, declared) => .ok declared
    | (.error error, _) => .error (.world error)
  | (_, unknown) => .error (.unknownOptions object unknown)

def loadValue (object : Dbref) (world : World) (entry : Text × Text) : Except FixtureError World :=
  let (name, value) := entry
  match world.namedAttr? object name with
  | none => .error (.unknownAttribute object name)
  | some definition =>
    match world.setValue object definition value with
    | (.ok _, stored) => .ok stored
    | (.error error, _) => .error (.world error)

/-! ## Rounds -/

/-- Does something for each object of a fixture, in order. -/
def loadEach (fixture : WorldFixture)
    (load : World → Dbref → ObjectFixture → Except FixtureError World) (world : World) :
    Except FixtureError World :=
  fixture.objects.zipIdx.foldlM
    (fun world (object, index) => load world (.ofIndex index) object) world

/-- The world of unrelated objects, unless there are more of them than numbers. -/
def unrelated (fixture : WorldFixture) (clock : Int) : Except FixtureError World :=
  if Dbref.maxNumber + 1 < fixture.objects.length then .error (.world (.objectNotFound .nothing))
  else
    .ok { World.new fixture.config clock with
      objects := fixture.objects.map fun object => object.record clock }

/-- The world that a fixture describes, created at a time. -/
def ofFixture (fixture : WorldFixture) (clock : Int) : Except FixtureError World := do
  let loose ← unrelated fixture clock
  let related ← loadEach fixture loadRelations loose
  let declared ← loadEach fixture
    (fun world object fixture => fixture.defs.foldlM (loadDef object) world) related
  loadEach fixture (fun world object fixture => fixture.attrs.foldlM (loadValue object) world)
    declared

end World
end WorldLocks
