import WorldLocks.Lock.Item
import WorldLocks.Text.Bounded
import WorldLocks.World.Control
import WorldLocks.World.Naming

/-!
# Decompiling locks

A stored lock is shown to a viewer with names in place of numbers, but only where typing the name
would find the same object again.  Everything else is copied.  The shown text goes into a buffer
with one byte to spare.
-/

set_option autoImplicit false

namespace WorldLocks

open Cursor (Word)

/-- A lock is shown to a viewer, in a world, with a way to match names. -/
structure Decompiler where
  world : World
  matcher : Matcher
  viewer : Dbref

namespace Decompiler

/-- Whether a name is a single plain word for the compiler, and no literal and no player lookup. -/
def isPlainName (name : Text) : Bool :=
  !name.isEmpty && Text.trim name == name && !(name.head? == some '#' || name.head? == some '*') &&
    !name.any fun c => Cursor.isLeftMark c || Cursor.isRightMark c || c == '[' || c == ']'

/-- The object that a word means if it is `#` and digits and nothing else.  A number that is too
large means nothing. -/
def numbered? (word : Text) : Option Dbref :=
  match word with
  | '#' :: digits =>
    if digits.isEmpty || !digits.all Text.isDigit then none
    else some ((Dbref.read? word).getD .nothing)
  | _ => none

/-- The first name of an object, or nothing if it does not exist. -/
def firstName (decompiler : Decompiler) (object : Dbref) : Text :=
  match decompiler.world.namesOf object with
  | .ok (name :: _) => Text.trim name
  | .ok [] | .error _ => []

/-- Whether the viewer, typing a name, would mean the object. -/
def finds (decompiler : Decompiler) (name : Text) (object : Dbref) : Bool :=
  match decompiler.matcher decompiler.viewer name with
  | .ok (.found found) => found = object
  | _ => false

def object (decompiler : Decompiler) (object : Dbref) : Text :=
  if (decompiler.world.slot? object).isSome then
    let name := decompiler.firstName object
    if isPlainName name && decompiler.finds name object then name else object.literal
  else decompiler.world.shown decompiler.viewer .nothing

def word (decompiler : Decompiler) (word : Word) : Text :=
  match numbered? (Text.trim word.text) with
  | some object => decompiler.object object
  | none => word.text

def subject (decompiler : Decompiler) : Subject → List Text
  | .test name pattern => (Subject.test name pattern).pieces
  | .dotted object name pattern =>
    decompiler.word object :: (Subject.dotted object name pattern).pieces.tail
  | .plain word => if word.isCall then [word.text] else [decompiler.word word]

def items (decompiler : Decompiler) : (room : Nat) → List LockItem → Text
  | _, [] => []
  | room, item :: later =>
    if room = 0 then []
    else
      let written := Text.fit room (item.left :: decompiler.subject item.subject ++ [item.right])
      written ++ decompiler.items (Text.roomAfter room written) later

def decompile (decompiler : Decompiler) (text : Text) (bufferLen : Nat) : Text :=
  decompiler.items (bufferLen - 1) (LockItem.ofText text)

end Decompiler
end WorldLocks
