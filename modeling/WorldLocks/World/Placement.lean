import WorldLocks.World.Inheritance

/-!
# Placement

Every object is in at most one place, which knows it too: exits are listed among the exits of their
place and everything else among its contents.  An object is taken out of its old place before it is
put into a new one, and it is never put into itself or into anything inside it.
-/

set_option autoImplicit false

namespace WorldLocks

namespace ObjectRecord

def receive (place : ObjectRecord) (kind : ObjectKind) (object : Dbref) : ObjectRecord :=
  if kind = .exit then { place with exits := place.exits ++ [object] }
  else { place with contents := place.contents ++ [object] }

def dismiss (place : ObjectRecord) (object : Dbref) : ObjectRecord :=
  { place with
    contents := place.contents.filter (· ≠ object)
    exits := place.exits.filter (· ≠ object) }

def withLocation (record : ObjectRecord) (place : Dbref) : ObjectRecord :=
  { record with location := place }

end ObjectRecord

namespace World

/-- The place of what is in an object's slot, unless it is nowhere. -/
def placeOf (world : World) (object : Dbref) : List Dbref :=
  match world.slot? object with
  | some record => if record.location = .nothing then [] else [record.location]
  | none => []

/-- An object, its place, the place of that, and so on outwards, each once. -/
def outward (world : World) (object : Dbref) : List Dbref :=
  walk world.placeOf (world.walkBound (fun record => [record.location]) [object]) [object] []

def putInto (world : World) (object place : Dbref) : World :=
  match world.slot? object with
  | some record =>
    (world.modify place (·.receive record.kind object)).modify object (·.withLocation place)
  | none => world

def takeOut (world : World) (object : Dbref) : World :=
  match world.slot? object with
  | some record =>
    (world.modify record.location (·.dismiss object)).modify object (·.withLocation .nothing)
  | none => world

/-- Moves an object into another one, or takes it out of its place if the destination is nothing. -/
def moveTo (world : World) (object destination : Dbref) : Outcome Unit :=
  world.ifExists object fun world =>
    if destination = .nothing then (world.flush.takeOut object).done ()
    else world.ifExists destination fun world =>
      if (world.outward destination).contains object then
        world.refuse (.recursiveMove object destination)
      else ((world.flush.takeOut object).putInto object destination).done ()

end World
end WorldLocks
