import WorldLocks.World.Error

/-!
# Refused locks

Why a lock cannot be compiled or set, and what the player is told.
-/

set_option autoImplicit false

namespace WorldLocks

inductive CompileError where
  | noMatch (name : Text)
  | ambiguousMatch (name : Text)
  /-- An attribute of an object is named without a pattern. -/
  | missingColon
  | invalidActor (actor : Dbref)
  deriving DecidableEq, Repr

def CompileError.message : CompileError → Text
  | noMatch name => "I don't see ".toList ++ Text.quoted name ++ " here.".toList
  | ambiguousMatch name =>
    "I don't know which ".toList ++ Text.quoted name ++ " you mean!".toList
  | missingColon => "I don't understand that key.".toList
  | invalidActor actor => "Invalid acting object ".toList ++ actor.literal

inductive LockError where
  | compile (error : CompileError)
  | world (error : WorldError)
  | permissionDenied
  | notALock (name : Text)
  deriving DecidableEq, Repr

def LockError.message : LockError → Text
  | compile error => error.message
  | world error => error.message
  | permissionDenied => "You can't set that attribute.".toList
  | notALock name => name ++ " is not a lock.".toList

end WorldLocks
