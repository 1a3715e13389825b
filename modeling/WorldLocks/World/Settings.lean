import WorldLocks.World.Basic

/-!
# Settings of objects

The parts of a record that can be set on their own.  They can also be set on destroyed objects.
-/

set_option autoImplicit false

namespace WorldLocks.World

def setFlag (world : World) (object : Dbref) (flag : ObjectFlag) (on : Bool) : Outcome Unit :=
  world.flush.modifySlot object fun record =>
    { record with flags := if on then record.flags.insert flag else record.flags.erase flag }

/-- Sets the zone, to an object that exists or to nothing. -/
def setZone (world : World) (object zone : Dbref) : Outcome Unit :=
  world.ifNothingOrExists zone fun world =>
    world.flush.modifySlot object fun record => { record with zone := zone }

def setLink (world : World) (object link : Dbref) : Outcome Unit :=
  world.flush.modifySlot object fun record => { record with link := link }

def setOwner (world : World) (object owner : Dbref) : Outcome Unit :=
  world.ifExists owner fun world =>
    world.flush.modifySlot object fun record => { record with owner := owner }

def touch (world : World) (object : Dbref) : Outcome Unit :=
  world.flush.modifySlot object fun record => { record with modified := world.clock }

end WorldLocks.World
