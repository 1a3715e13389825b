import WorldLocks.Lock.Compile
import WorldLocks.Lock.Decompile
import WorldLocks.Lock.Place

/-!
# Passes over a lock

Compiling and decompiling go through a lock from place to place.  Each pass takes the marks before a
subject, the subject and the marks behind it, and writes what becomes of them while there is room.
They go on until the text or the room is used up.

How many passes there are is not known before.  A bound is given for them, and if they do not come
to an end within it there is no result.
-/

set_option autoImplicit false

namespace WorldLocks

def Place.subject (place : Place) : Option (Subject × Place) := do
  let ((first, _), behind) ← place.word
  match ← behind.peek with
  | some ':' =>
    let (_, behind) ← behind.bump
    let ((pattern, _), behind) ← behind.word
    return (.test first pattern, behind)
  | some '.' =>
    let (_, behind) ← behind.bump
    let ((name, _), behind) ← behind.word
    let (colon, behind) ← behind.eat ':'
    if colon then
      let ((pattern, _), behind) ← behind.word
      return (.dotted first name (some pattern), behind)
    else return (.dotted first name none, behind)
  | _ => return (.plain first, behind)

/-! ## Compiling -/

namespace Compiler

/-- What one pass writes and warns about, and the place at which the next one starts.  There is no
next one if the marks before the subject have used up the room. -/
def pass (compiler : Compiler) (room : Nat) (place : Place) :
    Option (Except CompileError (CompiledLock × Option Place)) := do
  let (marks, behind) ← place.leftMarks
  let left := Text.takeBytes room marks
  let room := Text.roomAfter room left
  if room = 0 then return .ok (⟨left, []⟩, none)
  else
    let (subject, behind) ← behind.subject
    match compiler.subject subject with
    | .error failure => return .error failure
    | .ok compiled =>
      let (right, behind) ← behind.rightMarks
      return .ok (⟨left ++ Text.fit room (compiled.pieces ++ [right]), compiled.warnings⟩, behind)

/-- Passes from a place on, as long as there is text and room. -/
def passes (compiler : Compiler) :
    (bound : Nat) → (room : Nat) → Place → Option (Except CompileError CompiledLock)
  | 0, _, _ => none
  | bound + 1, room, place => do
    if place.atEnd ∨ room = 0 then return .ok ⟨[], []⟩
    else
      match ← compiler.pass room place with
      | .error failure => return .error failure
      | .ok (written, none) => return .ok written
      | .ok (written, some next) =>
        match ← compiler.passes bound (Text.roomAfter room written.text) next with
        | .error failure => return .error failure
        | .ok rest => return .ok ⟨written.text ++ rest.text, written.warnings ++ rest.warnings⟩

end Compiler

/-! ## Decompiling -/

namespace Decompiler

/-- What one pass writes, and the place at which the next one starts. -/
def pass (decompiler : Decompiler) (room : Nat) (place : Place) : Option (Text × Place) := do
  let (left, behind) ← place.leftMarks
  let (subject, behind) ← behind.subject
  let (right, behind) ← behind.rightMarks
  return (Text.fit room (left :: decompiler.subject subject ++ [right]), behind)

/-- Passes from a place on, as long as there is text and room. -/
def passes (decompiler : Decompiler) : (bound : Nat) → (room : Nat) → Place → Option Text
  | 0, _, _ => none
  | bound + 1, room, place => do
    if place.atEnd ∨ room = 0 then return []
    else
      let (written, next) ← decompiler.pass room place
      let rest ← decompiler.passes bound (Text.roomAfter room written) next
      return written ++ rest

end Decompiler
end WorldLocks
