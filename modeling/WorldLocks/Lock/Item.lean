import WorldLocks.Lock.Cursor

/-!
# Lock items

The compiler and the decompiler do not read a lock as a tree.  They cut it into items: a subject
with the marks around it.  A subject is a test `name:pattern`, a test `object.name:pattern`, or a
plain word, which is an object or a function call.  Every character of the lock is part of an item,
so a lock can be put together again from its items with only some of the subjects changed.

Here a pattern is a word, so it ends at any right mark, unlike the patterns that the evaluator
reads.
-/

set_option autoImplicit false

namespace WorldLocks

open Cursor

inductive Subject where
  /-- A test of an attribute of the one who wants to pass. -/
  | test (name pattern : Word)
  /-- A test of an attribute of an object, with a pattern if a colon follows. -/
  | dotted (object name : Word) (pattern : Option Word)
  | plain (word : Word)
  deriving DecidableEq, Repr

namespace Subject

def pieces : Subject → List Text
  | test name pattern => [name.text, [':'], pattern.text]
  | dotted object name none => [object.text, ['.'], name.text]
  | dotted object name (some pattern) =>
    [object.text, ['.'], name.text, [':'], pattern.text]
  | plain word => [word.text]

def read (ahead : Cursor) : Subject × Cursor :=
  let (first, behind) := word ahead
  match behind with
  | ':' :: behind =>
    let (pattern, behind) := word behind
    (.test first pattern, behind)
  | '.' :: behind =>
    let (name, behind) := word behind
    match eat? ':' behind with
    | some behind =>
      let (pattern, behind) := word behind
      (.dotted first name (some pattern), behind)
    | none => (.dotted first name none, behind)
  | behind => (.plain first, behind)

end Subject

/-- A subject with the marks before and behind it. -/
structure LockItem where
  left : Text
  subject : Subject
  right : Text
  deriving DecidableEq, Repr

namespace LockItem

def read (ahead : Cursor) : LockItem × Cursor :=
  let (left, behind) := leftMarks ahead
  let (subject, behind) := Subject.read behind
  let (right, behind) := rightMarks behind
  (⟨left, subject, right⟩, behind)

/-- Reads items to the end of a text.  The first argument bounds their number. -/
def readAll : Nat → Cursor → List LockItem
  | _, [] => []
  | 0, _ :: _ => []
  | bound + 1, ahead =>
    let (item, behind) := read ahead
    item :: readAll bound behind

/-- The items of a lock.  Each takes at least one character, so there are no more of them than
characters. -/
def ofText (text : Text) : List LockItem := readAll text.length text

end LockItem
end WorldLocks
