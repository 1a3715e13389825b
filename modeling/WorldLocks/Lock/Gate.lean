import WorldLocks.Lock.Evaluate

/-!
# Gates

Before a player uses a thing its lock is asked, but some things can never be used whatever their
lock says.  The zone in effect is the one that the player is in.
-/

set_option autoImplicit false

namespace WorldLocks

namespace World

def zoneReach : Nat := 10

/-- The zone of the first object, which is everyone's who is in no other. -/
def globalZone (world : World) : Dbref := (world.slot? .system).elim .nothing (·.zone)

/-- Looks for a zone from an object outwards, a bounded number of steps.  Rooms and things without a
zone belong to the global one. -/
def zoneFrom (world : World) : Nat → Dbref → Dbref
  | 0, _ => world.globalZone
  | reach + 1, object =>
    match world.record? object with
    | none => world.globalZone
    | some record =>
      if object = world.globalZone then world.globalZone
      else if record.zone ≠ .nothing then record.zone
      else if (record.kind = .thing ∨ record.kind = .room) ∧ object ≠ .system then world.globalZone
      else world.zoneFrom reach record.location

def zoneOf (world : World) (object : Dbref) : Dbref := world.zoneFrom zoneReach object

/-- Whether a thing can be used at all.  A thing cannot use a key, an exit has to lead somewhere,
and everything else but a room has to be somewhere. -/
def isUsable (player thing : ObjectRecord) : Bool :=
  !(player.kind = .thing && thing.kind = .thing && thing.hasFlag .key) &&
    match thing.kind with
    | .exit => thing.link ≠ .nothing
    | .room => true
    | .player | .channel | .cosmos | .thing => thing.location ≠ .nothing

end World

namespace Evaluator

def mayUse (ev : Evaluator) (cache : ReadCache) (player thing : Dbref) (lock : AttrDef) :
    Bool × Evaluation :=
  let zone := ev.world.zoneOf player
  match ev.world.record? player, ev.world.record? thing with
  | some playerRecord, some thingRecord =>
    if World.isUsable playerRecord thingRecord then ev.evaluateAttr cache player thing lock zone
    else (false, .start player thing zone cache)
  | _, _ => (false, .start player thing zone cache)

end Evaluator
end WorldLocks
