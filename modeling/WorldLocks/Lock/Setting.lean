import WorldLocks.Lock.Evaluate
import WorldLocks.World.Settings

/-!
# Setting locks

A player who controls a thing can set its locks.  The text is compiled first, and nothing is stored
unless that succeeds.  An empty text takes the lock away.  Either way the player is told what came
of it.
-/

set_option autoImplicit false

namespace WorldLocks

/-- What came of setting a lock: the text that is stored now, or why it was refused. -/
structure LockSetting where
  result : Except LockError Text
  world : World
  told : List Message

namespace World

/-- The lock that a player may set on a thing, compiled, or the reason why not. -/
def lockToSet (world : World) (limits : Limits) (player thing : Dbref) (lock : AttrDef)
    (text : Text) : Except LockError CompiledLock :=
  if !world.isValid thing then .error (.world (.objectNotFound thing))
  else if !lock.hasFlag .lock then .error (.notALock lock.name)
  else if !world.controls player thing then .error .permissionDenied
  else
    match Compiler.compile ⟨world, world.matcher, player⟩ text limits.bufferLen with
    | .ok compiled => .ok compiled
    | .error error => .error (.compile error)

def storeLock (world : World) (thing : Dbref) (lock : AttrDef) (text : Text) : Outcome Unit :=
  (world.setValue thing lock text).andThen fun _ world => world.touch thing

def settingReport : Except LockError Text → Text
  | .ok [] => "Unlocked.".toList
  | .ok _ => "Locked.".toList
  | .error error => error.message

def setLock (world : World) (limits : Limits) (player thing : Dbref) (lock : AttrDef)
    (text : Text) : LockSetting :=
  let report (warnings : List Text) (result : Except LockError Text) : List Message :=
    (warnings ++ [settingReport result]).map (player, ·)
  match world.lockToSet limits player thing lock text with
  | .error error => ⟨.error error, world, report [] (.error error)⟩
  | .ok compiled =>
    let (stored, behind) := world.storeLock thing lock compiled.text
    let result : Except LockError Text := match stored with
      | .ok _ => .ok compiled.text
      | .error error => .error (.world error)
    ⟨result, behind, report compiled.warnings result⟩

end World
end WorldLocks
