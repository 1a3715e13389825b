import WorldLocks.Text.Blank

/-!
# Lock tokens

What a character of a lock means depends on where it stands: a dot ends an object name but is part
of an attribute name, and a pattern runs on through colons, dots and equals signs.  So a lock is not
split up in advance.  A cursor hands out one token at a time, and its caller says which kind of
token it expects next.

A cursor is the text that is still ahead.  Every call answers with a token and the cursor behind it.
-/

set_option autoImplicit false

namespace WorldLocks

abbrev Cursor := Text

namespace Cursor

/-! ## Marks -/

def isRightMark (c : Char) : Bool :=
  c == '&' || c == '|' || c == ':' || c == '.' || c == ')' || c == '='

def isLeftMark (c : Char) : Bool := c == '!' || c == '(' || c == '@' || c == '=' || c == '+'

def endsPattern (c : Char) : Bool := c == '&' || c == '|' || c == ')'

/-! ## Single characters -/

def peek (ahead : Cursor) : Option Char := ahead.head?

def bump (ahead : Cursor) : Option Char × Cursor := (ahead.head?, ahead.tail)

def eat? (mark : Char) : Cursor → Option Cursor
  | c :: rest => if c = mark then some rest else none
  | [] => none

/-- Passes over a given character if it is next, and stays otherwise. -/
def eat (mark : Char) (ahead : Cursor) : Cursor := (eat? mark ahead).getD ahead

def atEnd (ahead : Cursor) : Bool := ahead.isEmpty

def skipBlanks (ahead : Cursor) : Cursor := Text.trimStart ahead

/-! ## Runs of characters -/

/-- The run of characters that satisfy a test, and what is behind it. -/
def run (test : Char → Bool) (ahead : Cursor) : Text × Cursor :=
  (ahead.takeWhile test, ahead.dropWhile test)

def leftMarks (ahead : Cursor) : Text × Cursor := run isLeftMark ahead

def rightMarks (ahead : Cursor) : Text × Cursor := run isRightMark ahead

def reference (ahead : Cursor) : Text × Cursor := run (fun c => !isRightMark c) ahead

def digits (ahead : Cursor) : Text × Cursor := run Text.isDigit ahead

/-! ## Words -/

structure Word where
  text : Text
  deriving DecidableEq, Repr

/-- Whether a word holds a function call in brackets, and so has to be left as it is. -/
def Word.isCall (word : Word) : Bool := word.text.contains '['

/-- The characters of a word and what is behind them.  Outside brackets a right mark ends the word;
inside them, from a `[` to the next `]`, marks are part of it. -/
def wordFrom : (inCall : Bool) → Cursor → Text × Cursor
  | _, [] => ([], [])
  | false, c :: rest =>
    if isRightMark c then ([], c :: rest)
    else
      let (text, behind) := wordFrom (c == '[') rest
      (c :: text, behind)
  | true, c :: rest =>
    let (text, behind) := wordFrom (c != ']') rest
    (c :: text, behind)

def word (ahead : Cursor) : Word × Cursor :=
  let (text, behind) := wordFrom false ahead
  (⟨text⟩, behind)

/-! ## Attribute tests -/

/-- A test `name:pattern`.  Dots are part of the name; the pattern runs to the next mark that ends
one.  Without a colon right behind the name there is no test. -/
def attrTest? (ahead : Cursor) : Option ((Text × Text) × Cursor) :=
  let (name, behind) := run (fun c => c == '.' || !isRightMark c) ahead
  match eat? ':' behind with
  | none => none
  | some behind =>
    let (pattern, behind) := run (fun c => !endsPattern c) behind
    some ((name, pattern), behind)

/-! ## Calls

The calls as data, so that a sequence of them can be run and reasoned about. -/

inductive Call where
  | peek
  | bump
  | atEnd
  | skipToEnd
  | skipBlanks
  | leftMarks
  | rightMarks
  | word
  | reference
  | digits
  | attrTest
  | eat (mark : Char)
  deriving DecidableEq, Repr

inductive Answer where
  | char (c : Option Char)
  | bool (b : Bool)
  | text (text : Text)
  | word (word : Word)
  | attrTest (test : Option (Text × Text))
  | nothing
  deriving DecidableEq, Repr

def call (ahead : Cursor) : Call → Answer × Cursor
  | .peek => (.char ahead.peek, ahead)
  | .bump => (.char ahead.bump.1, ahead.bump.2)
  | .atEnd => (.bool ahead.atEnd, ahead)
  | .skipToEnd => (.nothing, [])
  | .skipBlanks => (.nothing, ahead.skipBlanks)
  | .leftMarks => (.text ahead.leftMarks.1, ahead.leftMarks.2)
  | .rightMarks => (.text ahead.rightMarks.1, ahead.rightMarks.2)
  | .word => (.word ahead.word.1, ahead.word.2)
  | .reference => (.text ahead.reference.1, ahead.reference.2)
  | .digits => (.text ahead.digits.1, ahead.digits.2)
  | .attrTest =>
    match ahead.attrTest? with
    | some (test, behind) => (.attrTest (some test), behind)
    | none => (.attrTest none, ahead)
  | .eat mark =>
    match eat? mark ahead with
    | some behind => (.bool true, behind)
    | none => (.bool false, ahead)

def callAll (ahead : Cursor) : List Call → List (Answer × Cursor)
  | [] => []
  | next :: later =>
    let (answer, behind) := ahead.call next
    (answer, behind) :: callAll behind later

end Cursor
end WorldLocks
