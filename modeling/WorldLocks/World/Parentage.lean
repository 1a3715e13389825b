import WorldLocks.World.Inheritance

/-!
# Parentage

A parent link is stored at both of its ends.  Links are made one at a time, and none is made that
would let an object inherit from itself.
-/

set_option autoImplicit false

namespace WorldLocks

namespace ObjectRecord

/-- The record of an object that no longer inherits from a parent. -/
def dropParent (record : ObjectRecord) (parent : Dbref) : ObjectRecord :=
  { record with parents := record.parents.filter (· ≠ parent) }

/-- The record of an object from which a child no longer inherits. -/
def dropChild (record : ObjectRecord) (child : Dbref) : ObjectRecord :=
  { record with children := record.children.filter (· ≠ child) }

end ObjectRecord

namespace World

/-- Makes one object a parent of another, behind its other parents.  A parent that the child has
already stays where it is. -/
def addParent (world : World) (child parent : Dbref) : Outcome Unit :=
  world.ifExists child fun world => world.ifExists parent fun world =>
    if world.isA parent child then world.refuse (.recursiveParent child parent)
    else
      let world := world.flush
      if (world.parentsOf child).contains parent then world.done ()
      else
        let linked := world.modify child fun record =>
          { record with parents := record.parents ++ [parent] }
        (linked.modify parent fun record =>
          { record with children := record.children ++ [child] }).done ()

/-- Adds parents one after the other, up to the first that is refused. -/
def addParents (world : World) (child : Dbref) : List Dbref → Outcome Unit
  | [] => world.done ()
  | parent :: later =>
    (world.addParent child parent).andThen fun _ world => world.addParents child later

/-- Takes a parent from an object.  The child's end goes first, and stays changed if there is no
parent to change. -/
def removeParent (world : World) (child parent : Dbref) : Outcome Unit :=
  (world.flush.modifySlot child (·.dropParent parent)).andThen fun _ world =>
    world.modifySlot parent (·.dropChild child)

end World
end WorldLocks
