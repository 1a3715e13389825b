import WorldLocks.Lock.Cursor
import WorldLocks.Lock.Expr

/-!
# Reading locks

Every text is a lock.  Alternatives bind weaker than conditions; `(` and `!` nest, and past
`LockExpr.maxNesting` of them the rest of the text is given up.  A `)` that closes no group is
skipped, and the first thing that is no operator where one is expected ends the lock.

The reader recurses on the nesting that is still allowed.  Chains of operators are loops whose
number of turns is bounded by the length of the text, since each turn passes over an operator.
-/

set_option autoImplicit false

namespace WorldLocks.LockExpr

open Cursor

abbrev Reader := Text → LockExpr × Text

/-- Passes over what may stand before an operator: blanks and, outside all groups, stray closing
marks. -/
def beforeOperator (inGroup : Bool) (ahead : Text) : Text :=
  ahead.dropWhile fun c => Text.isBlank c || (!inGroup && c == ')')

/-- The terms of a chain.  After each term the chain goes on if the operator is next. -/
def readTerms (operator : Char) (inGroup : Bool) (readTerm : Reader) :
    Nat → Text → List LockExpr × Text
  | bound, ahead =>
    let (first, behind) := readTerm ahead
    let behind := beforeOperator inGroup behind
    match bound, eat? operator behind with
    | bound + 1, some next =>
      let (others, behind) := readTerms operator inGroup readTerm bound next
      (first :: others, behind)
    | _, _ => ([first], behind)

def readChain (operator : Char) (combine : List LockExpr → LockExpr) (inGroup : Bool)
    (readTerm : Reader) : Reader := fun ahead =>
  let (terms, behind) := readTerms operator inGroup readTerm ahead.length ahead
  (chain combine terms, behind)

def readAlternatives (inGroup : Bool) (readAtom : Reader) : Reader :=
  readChain '|' .or inGroup (readChain '&' .and inGroup readAtom)

/-- The name of an object, without the blanks around it. -/
def readName (ahead : Text) : Text × Text :=
  let (name, behind) := reference (skipBlanks ahead)
  (Text.trimEnd name, behind)

/-- What follows an `@`: a name, or in parentheses a name with or without an attribute test. -/
def readIndirect : Reader := fun ahead =>
  let ahead := skipBlanks ahead
  match eat? '(' ahead with
  | none =>
    let (name, behind) := readName ahead
    (.indirect name, behind)
  | some ahead =>
    let (target, behind) := readName ahead
    let (lock, behind) := match eat? '=' behind with
      | none => (LockExpr.indirectLock target, behind)
      | some ahead =>
        let ahead := skipBlanks ahead
        match attrTest? ahead with
        | some ((name, pattern), behind) =>
          (.indirectAttr target (some (Text.trim name, Text.trim pattern)), behind)
        | none => (.indirectAttr target none, ahead)
    (lock, eat ')' (skipBlanks behind))

/-- A number, an attribute test or the name of an object, with or without a mark before it. -/
def readPrimary : Reader := fun ahead =>
  let (kind, ahead) := match eat? '=' ahead, eat? '+' ahead with
    | some behind, _ => (RefKind.is, behind)
    | none, some behind => (.carries, behind)
    | none, none => (.any, ahead)
  let ahead := skipBlanks ahead
  if ahead.peek.any Text.isDigit then
    let (digits, behind) := digits ahead
    (.number (Text.leadingInt digits), behind)
  else match attrTest? ahead with
    | some ((name, pattern), behind) => (.attrTest (Text.trim name) (Text.trim pattern), behind)
    | none =>
      let (name, behind) := readName ahead
      (.ref kind name, behind)

/-- One operand.  The first argument is how many more groups and negations may be opened. -/
def readAtom : Nat → (inGroup : Bool) → Reader
  | nesting, inGroup, ahead =>
    match skipBlanks ahead, nesting with
    | '(' :: _, 0 => (.tooDeep, [])
    | '!' :: _, 0 => (.tooDeep, [])
    | '(' :: ahead, nesting + 1 =>
      let (inner, behind) := readAlternatives true (readAtom nesting true) ahead
      (inner, eat ')' (skipBlanks behind))
    | '!' :: ahead, nesting + 1 =>
      let (inner, behind) := readAtom nesting inGroup ahead
      (.not inner, behind)
    | '@' :: ahead, _ => readIndirect ahead
    | ahead, _ => readPrimary ahead

def parse (text : Text) : LockExpr :=
  (readAlternatives false (readAtom maxNesting false) text).1

end WorldLocks.LockExpr
