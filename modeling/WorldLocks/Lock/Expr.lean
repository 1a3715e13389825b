import WorldLocks.Text.Number

/-!
# Lock expressions

The tree of a lock: Boolean operators over tests of the one who wants to pass.  Its canonical text
writes every chain of operators in parentheses, so that it reads back as the same tree.
-/

set_option autoImplicit false

namespace WorldLocks

/-- How the one who wants to pass is compared with an object. -/
inductive RefKind where
  | is
  | carries
  /-- It is the object, carries it, or is in the zone that the object stands for. -/
  | any
  deriving DecidableEq, Repr

inductive LockExpr where
  /-- Two or more alternatives, in the order written. -/
  | or (terms : List LockExpr)
  | and (terms : List LockExpr)
  | not (inner : LockExpr)
  | number (value : Int)
  /-- An attribute of the one who wants to pass matches a pattern. -/
  | attrTest (name pattern : Text)
  /-- The one who wants to pass is compared with a named object. -/
  | ref (kind : RefKind) (name : Text)
  /-- The named object's own lock passes, and may be seen. -/
  | indirect (name : Text)
  | indirectLock (name : Text)
  /-- An attribute of the named object matches a pattern; without a test nothing passes. -/
  | indirectAttr (target : Text) (test : Option (Text × Text))
  /-- Groups and negations nested too deeply to be read, which never pass. -/
  | tooDeep
  deriving BEq, Repr

namespace LockExpr

def maxNesting : Nat := 64

/-- A chain of terms under an operator; one term alone stands for itself. -/
def chain (operator : List LockExpr → LockExpr) : List LockExpr → LockExpr
  | [term] => term
  | terms => operator terms

def testText (name pattern : Text) : Text := name ++ ':' :: pattern

def refMark : RefKind → Text
  | .is => ['=']
  | .carries => ['+']
  | .any => []

mutual

def render : LockExpr → Text
  | .or terms => '(' :: renderTerms '|' terms ++ [')']
  | .and terms => '(' :: renderTerms '&' terms ++ [')']
  | .not inner => '!' :: render inner
  | .number value => Text.ofInt value
  | .attrTest name pattern => testText name pattern
  | .ref kind name => refMark kind ++ name
  | .indirect name => '@' :: name
  | .indirectLock name => ['@', '('] ++ name ++ [')']
  | .indirectAttr target (some (name, pattern)) =>
    ['@', '('] ++ target ++ '=' :: testText name pattern ++ [')']
  | .indirectAttr target none => ['@', '('] ++ target ++ ['=', ')']
  | .tooDeep => ['0']

def renderTerms (operator : Char) : List LockExpr → Text
  | [] => []
  | [term] => render term
  | term :: next :: later => render term ++ operator :: renderTerms operator (next :: later)

end

end LockExpr
end WorldLocks
