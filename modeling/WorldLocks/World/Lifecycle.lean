import WorldLocks.World.Definitions
import WorldLocks.World.Parentage
import WorldLocks.World.Placement

/-!
# Creating and destroying objects

A new object takes the next slot of the table.  A destroyed one keeps its slot, marked as going, but
holds nothing any more: its declarations, values, place, inhabitants and relatives are all let go.
-/

set_option autoImplicit false

namespace WorldLocks

namespace World

def nextObject (world : World) : Dbref := .ofIndex world.objects.length

def isFull (world : World) : Bool := Dbref.maxNumber < world.objects.length

def push (world : World) (record : ObjectRecord) : World :=
  { world with objects := world.objects ++ [record] }

/-- Creates an object.  Without an owner it owns itself, and without a location it is nowhere. -/
def create (world : World) (name : Text) (kind : ObjectKind) (owner location : Dbref) :
    Outcome Dbref :=
  world.ifNothingOrExists location fun world => world.ifNothingOrExists owner fun world =>
    if world.isFull then world.flush.refuse (.objectNotFound .nothing)
    else
      let object := world.nextObject
      let owner := if owner = .nothing then object else owner
      let pushed := world.flush.push (.new name kind owner world.clock)
      (if location = .nothing then pushed else pushed.putInto object location).done object

/-- Creates an object like another one: with its name, kind, flags, zone, link and parents and with
the values that it does not pass on by inheritance.  The new object stays when a parent or a value
is refused. -/
def clone (world : World) (source owner location : Dbref) : Outcome Dbref :=
  match world.record? source with
  | none => world.refuse (.objectNotFound source)
  | some template =>
    (world.create template.name template.kind owner location).andThen fun object world =>
      let likened := world.modify object fun record =>
        { record with flags := template.flags, zone := template.zone, link := template.link }
      (likened.addParents object template.parents).andThen fun _ world =>
        (world.copyNoninherited object source).andThen fun _ world => world.done object

/-- Takes back declarations by name, up to the first that is refused. -/
def undeclareAll (world : World) (object : Dbref) : List Text → Outcome Unit
  | [] => world.done ()
  | name :: later =>
    (world.undeclareAttr object name).andThen fun _ world => world.undeclareAll object later

def letGo (world : World) (object : Dbref) : World :=
  match world.slot? object with
  | none => world
  | some record =>
    let emptied := world.modify object fun record =>
      { record with parents := [], children := [], contents := [], exits := [] }
    let orphaned := record.parents.foldl
      (fun world parent => world.modify parent (·.dropChild object)) emptied
    let disowned := record.children.foldl
      (fun world child => world.modify child (·.dropParent object)) orphaned
    (record.contents ++ record.exits).foldl
      (fun world inside => world.modify inside (·.withLocation .nothing)) disowned

def bury (world : World) (object : Dbref) : World :=
  world.modify object fun record =>
    { record with flags := record.flags.insert .going, modified := world.clock }

/-- Destroys an object; the first one of the table may not be. -/
def destroy (world : World) (object : Dbref) : Outcome Unit :=
  if object = .system then world.refuse .objectPermissionDenied
  else world.ifExists object fun world =>
    (world.undeclareAll object ((world.localDefs object).map (·.name))).andThen fun _ world =>
      (world.freeValues object).andThen fun _ world =>
        (((world.takeOut object).letGo object).bury object).done ()

end World
end WorldLocks
