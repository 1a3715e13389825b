import WorldLocks.Lock.Cursor

/-!
# Places in a lock

A cursor can also be kept as a whole text and an offset in bytes.  What is ahead is then cut off the
text each time it is needed, and an offset moves on by the bytes of what was passed.

A text can only be cut between two characters.  A cut behind its end or inside of a character has no
result, and neither has anything that would need it.
-/

set_option autoImplicit false

namespace WorldLocks

/-! ## Cuts by offset -/

namespace Text

/-- What is behind an offset. -/
def fromByte? : Nat → Text → Option Text
  | 0, text => some text
  | _ + 1, [] => none
  | offset + 1, c :: rest =>
    if c.utf8Size ≤ offset + 1 then fromByte? (offset + 1 - c.utf8Size) rest else none

/-- What is before an offset. -/
def upToByte? : Nat → Text → Option Text
  | 0, _ => some []
  | _ + 1, [] => none
  | offset + 1, c :: rest =>
    if c.utf8Size ≤ offset + 1 then
      (upToByte? (offset + 1 - c.utf8Size) rest).map (c :: ·)
    else none

/-- What is between two offsets. -/
def slice? (first last : Nat) (text : Text) : Option Text := do
  let behind ← fromByte? first text
  if first ≤ last then upToByte? (last - first) behind else none

/-- The characters of a text with their offsets, which are counted from a given one on. -/
def indices : Nat → Text → List (Nat × Char)
  | _, [] => []
  | offset, c :: rest => (offset, c) :: indices (offset + c.utf8Size) rest

/-- The offset of the first character that satisfies a test, or of the end. -/
def offsetOf (test : Char → Bool) (text : Text) : Nat :=
  ((indices 0 text).find? fun (_, c) => test c).elim (bytes text) Prod.fst

end Text

/-! ## Places -/

/-- A text and an offset in it. -/
structure Place where
  text : Text
  offset : Nat
  deriving DecidableEq, Repr

namespace Place

open Cursor

def start (text : Text) : Place := ⟨text, 0⟩

def rest (place : Place) : Option Text := Text.fromByte? place.offset place.text

def forward (count : Nat) (place : Place) : Place := ⟨place.text, place.offset + count⟩

/-! ### Single characters -/

def peek (place : Place) : Option (Option Char) := do
  let rest ← place.rest
  return rest.head?

def bump (place : Place) : Option (Option Char × Place) := do
  match ← place.peek with
  | none => return (none, place)
  | some c => return (some c, place.forward c.utf8Size)

/-- Passes over a given character if it is next. -/
def eat (mark : Char) (place : Place) : Option (Bool × Place) := do
  let next ← place.peek
  if next = some mark then return (true, place.forward mark.utf8Size) else return (false, place)

def atEnd (place : Place) : Bool := place.text.bytes ≤ place.offset

def skipToEnd (place : Place) : Place := ⟨place.text, place.text.bytes⟩

/-! ### Runs of characters -/

def takeWhile (test : Char → Bool) (place : Place) : Option (Text × Place) := do
  let rest ← place.rest
  let length := rest.offsetOf fun c => !test c
  let taken ← rest.upToByte? length
  return (taken, place.forward length)

def skipBlanks (place : Place) : Option Place := do
  let (_, behind) ← place.takeWhile Text.isBlank
  return behind

def leftMarks (place : Place) : Option (Text × Place) := place.takeWhile isLeftMark

def rightMarks (place : Place) : Option (Text × Place) := place.takeWhile isRightMark

def reference (place : Place) : Option (Text × Place) := place.takeWhile fun c => !isRightMark c

def digits (place : Place) : Option (Text × Place) := place.takeWhile Text.isDigit

/-! ### Words -/

/-- Goes on to the end of a word.  From a `[` on all is part of it up to the next `]`.  The first
argument bounds the number of rounds, and a word that does not end within them has no end.  The
second one is whether there has been a `[` so far. -/
def toWordEnd : (rounds : Nat) → (isCall : Bool) → Place → Option (Bool × Place)
  | 0, _, _ => none
  | rounds + 1, isCall, place => do
    match ← place.peek with
    | none => return (isCall, place)
    | some c =>
      if isRightMark c then return (isCall, place)
      else if c = '[' then
        let (_, behind) ← place.takeWhile (· != ']')
        toWordEnd rounds true behind
      else
        let (_, behind) ← place.bump
        toWordEnd rounds isCall behind

/-- A word, and whether it holds a function call.  Each round but the last passes over a character,
so there are at most as many of them as characters, and one more. -/
def word (place : Place) : Option ((Word × Bool) × Place) := do
  let (isCall, behind) ← toWordEnd (place.text.length + 1) false place
  let text ← place.text.slice? place.offset behind.offset
  return ((⟨text⟩, isCall), behind)

/-! ### Attribute tests -/

def attrTest (place : Place) : Option (Option (Text × Text) × Place) := do
  let rest ← place.rest
  let length := rest.offsetOf fun c => c != '.' && isRightMark c
  let behind ← rest.fromByte? length
  if behind.head? = some ':' then
    let name ← rest.upToByte? length
    let (pattern, behind) ← (place.forward (length + 1)).takeWhile fun c => !endsPattern c
    return (some (name, pattern), behind)
  else return (none, place)

/-! ### Calls -/

def call (place : Place) : Call → Option (Answer × Place)
  | .peek => do
    let next ← place.peek
    return (.char next, place)
  | .bump => do
    let (next, behind) ← place.bump
    return (.char next, behind)
  | .atEnd => return (.bool place.atEnd, place)
  | .skipToEnd => return (.nothing, place.skipToEnd)
  | .skipBlanks => do
    let behind ← place.skipBlanks
    return (.nothing, behind)
  | .leftMarks => do
    let (marks, behind) ← place.leftMarks
    return (.text marks, behind)
  | .rightMarks => do
    let (marks, behind) ← place.rightMarks
    return (.text marks, behind)
  | .word => do
    let ((word, _), behind) ← place.word
    return (.word word, behind)
  | .reference => do
    let (name, behind) ← place.reference
    return (.text name, behind)
  | .digits => do
    let (digits, behind) ← place.digits
    return (.text digits, behind)
  | .attrTest => do
    let (test, behind) ← place.attrTest
    return (.attrTest test, behind)
  | .eat mark => do
    let (eaten, behind) ← place.eat mark
    return (.bool eaten, behind)

def callAll (place : Place) : List Call → Option (List (Answer × Place))
  | [] => some []
  | next :: later => do
    let (answer, behind) ← place.call next
    let others ← behind.callAll later
    return (answer, behind) :: others

end Place
end WorldLocks
