import WorldLocks.Lock.Error
import WorldLocks.Lock.Item
import WorldLocks.Text.Bounded
import WorldLocks.World.Naming

/-!
# Compiling locks

A player types names; a stored lock holds numbers, so that it goes on to mean the same objects when
names change or the player has left.  Compiling replaces every object name by the literal of the
object that it matches and leaves everything else as it is.  An attribute that means nothing is
warned about and kept.

The compiled text goes into a buffer with one byte to spare.  Compiling stops when the buffer is
full, so names behind that point are not looked at.
-/

set_option autoImplicit false

namespace WorldLocks

open Cursor (Word)

/-- A compiled lock and what the player is warned about. -/
structure CompiledLock where
  text : Text
  warnings : List Text
  deriving DecidableEq, Repr

/-- A lock is compiled for an actor, in a world, with a way to match names. -/
structure Compiler where
  world : World
  matcher : Matcher
  actor : Dbref

structure CompiledSubject where
  pieces : List Text
  warnings : List Text

namespace Compiler

def objectOf (compiler : Compiler) (word : Word) : Except CompileError Dbref :=
  let name := Text.trim word.text
  match compiler.matcher compiler.actor name with
  | .ok (.found object) => .ok object
  | .ok (.ambiguous _) => .error (.ambiguousMatch name)
  | .ok .notFound | .error _ => .error (.noMatch name)

/-- Warns about the attribute of a test that is neither built in nor readable for the actor. -/
def testWarnings (compiler : Compiler) (word : Word) : List Text :=
  let name := Text.trim word.text
  if word.isCall || (AttrDef.builtin? name).isSome ||
      (compiler.world.findDef? compiler.actor name).isSome then []
  else ["Warning: no such built in attribute '".toList ++ name ++ ['\'']]

def dottedWarnings (compiler : Compiler) (object : Dbref) (word : Word) : List Text :=
  let name := Text.trim word.text
  if word.isCall || (compiler.world.definedOn? object name).isSome then []
  else ["Warning: no such attribute '".toList ++ name ++ "' on ".toList ++ object.literal]

def subject (compiler : Compiler) : Subject → Except CompileError CompiledSubject
  | .test name pattern => .ok ⟨(Subject.test name pattern).pieces, compiler.testWarnings name⟩
  | .dotted object name pattern => do
    let object ← compiler.objectOf object
    match pattern with
    | some pattern =>
      .ok ⟨[object.literal, ['.'], name.text, [':'], pattern.text],
        compiler.dottedWarnings object name⟩
    | none => .error .missingColon
  | .plain word =>
    if word.isCall then .ok ⟨[word.text], []⟩
    else do
      let object ← compiler.objectOf word
      .ok ⟨[object.literal], []⟩

def items (compiler : Compiler) : (room : Nat) → List LockItem → Except CompileError CompiledLock
  | _, [] => .ok ⟨[], []⟩
  | room, item :: later =>
    let left := Text.takeBytes room item.left
    let room := Text.roomAfter room left
    if room = 0 then .ok ⟨left, []⟩
    else do
      let compiled ← compiler.subject item.subject
      let written := Text.fit room (compiled.pieces ++ [item.right])
      let rest ← compiler.items (Text.roomAfter room written) later
      .ok ⟨left ++ written ++ rest.text, compiled.warnings ++ rest.warnings⟩

def compile (compiler : Compiler) (text : Text) (bufferLen : Nat) :
    Except CompileError CompiledLock :=
  if compiler.world.isValid compiler.actor then
    compiler.items (bufferLen - 1) (LockItem.ofText text)
  else .error (.invalidActor compiler.actor)

end Compiler
end WorldLocks
