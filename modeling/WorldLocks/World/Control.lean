import WorldLocks.World.Basic

/-!
# Control and visibility

Who may act as the owner of an object, how an object is shown to a viewer, and which attributes a
viewer may see.
-/

set_option autoImplicit false

namespace WorldLocks

/-- Whether a viewer may see an attribute of an object, given its definition. -/
abbrev VisibilityRule := (viewer object : Dbref) → AttrDef → Bool

namespace World

/-! ## Control -/

def isWizard (world : World) (object : Dbref) : Bool := world.hasFlag object .wizard

/-- Whether one object may act as the owner of another.  Wizards may, and every object for itself.
Objects of one owner may for each other, but only the owner itself and objects that inherit its
powers may for those that do. -/
def controls (world : World) (who what : Dbref) : Bool :=
  match world.record? who, world.record? what with
  | some actor, some target =>
    actor.hasFlag .wizard || who = what ||
      (actor.owner = target.owner &&
        (actor.owner = who || actor.hasFlag .inheritPowers || !target.hasFlag .inheritPowers))
  | _, _ => false

/-! ## Display -/

def flagLetters (world : World) (object : Dbref) : Text :=
  (world.slot? object).elim [] fun record => ObjectFlag.shortForm record.kind record.flags

def showsNumber (world : World) (viewer object : Dbref) (record : ObjectRecord) : Bool :=
  record.owner = viewer || world.controls viewer object ||
    (record.kind = .room && record.hasFlag .jumpOk) || record.hasFlag .chownOk ||
    record.hasFlag .seeOk || world.isWizard viewer

/-- An object as it is shown to a viewer: its name, with its number and flags if the viewer may know
them. -/
def shown (world : World) (viewer object : Dbref) : Text :=
  if object = .nothing then "*NOTHING*".toList
  else if object = .home then "*HOME*".toList
  else match world.slot? object with
    | none => "<invalid ".toList ++ object.literal ++ ['>']
    | some record =>
      if world.showsNumber viewer object record then
        record.name ++ '(' :: object.literal ++ world.flagLetters object ++ [')']
      else record.name

/-! ## Visibility -/

/-- The rule of the world.  Passwords are for the first player.  An attribute that is not for
everyone's eyes needs control of the object, or an object that shows itself to everyone; a dark one
needs a wizard or control of the object that declares it. -/
def canSee (world : World) : VisibilityRule := fun viewer object definition =>
  if definition.key = .builtin .password then viewer = .root
  else match world.record? object with
    | none => false
    | some record =>
      if !definition.hasFlag .osee && !world.controls viewer object && !record.hasFlag .seeOk then
        false
      else if definition.hasFlag .dark then
        if definition.isBuiltin then world.isWizard viewer
        else world.controls viewer definition.definer
      else true

end World
end WorldLocks
