import WorldLocks.Text.Number

/-!
# Patterns

An attribute test compares a value with a pattern.  A pattern that starts with `>` or `<` is a
bound; every other pattern is a glob, in which `*` stands for any run of characters and `?` for one
character.

The glob matcher scans the value once.  It remembers the last star it passed and, on a mismatch,
lets that star take one character more.
-/

set_option autoImplicit false

namespace WorldLocks.Pattern

open Text

/-! ## Bounds -/

/-- How a bound compares with a value: as integers when the bound starts with a digit or a minus
sign, and as texts otherwise. -/
def compareBound (bound value : Text) : Ordering :=
  let numeric := match bound with
    | c :: _ => isDigit c || c == '-'
    | [] => false
  if numeric then compare (leadingInt bound) (leadingInt value) else order bound value

/-! ## Globs -/

/-- Whether a glob can match a value that is used up: stars and question marks alone are left. -/
def matchesNothing (glob : Text) : Bool := glob.all fun c => c == '*' || c == '?'

/-- Where a scan stands: the glob and the value that are left, and, once a star has been passed, the
glob after the last star together with the value as it stood there. -/
structure Scan where
  glob : Text
  value : Text
  retry : Option (Text × Text)

def Scan.goBack (scan : Scan) : Option Scan :=
  match scan.retry with
  | some (after, _ :: later) => some ⟨after, later, some (after, later)⟩
  | _ => none

def Scan.step (scan : Scan) (c : Char) (value : Text) : Option Scan :=
  match scan.glob with
  | [] => scan.goBack
  | '*' :: after => some ⟨after, c :: value, some (after, c :: value)⟩
  | g :: after => if g = '?' ∨ g = c then some ⟨after, value, scan.retry⟩ else scan.goBack

/-- Takes up to `bound` steps.  A value that is used up decides the scan without going back. -/
def Scan.run : Nat → Scan → Bool
  | bound, scan =>
    match scan.value, bound with
    | [], _ => matchesNothing scan.glob
    | _ :: _, 0 => false
    | c :: value, bound + 1 =>
      match scan.step c value with
      | some next => next.run bound
      | none => false

/-- The number of steps that a scan can take: a mismatch gives up a character of the value, a star
is passed once, and no more steps than the glob is long lie between two of these events. -/
def scanBound (glob value : Text) : Nat := (glob.length + value.length + 1) * (glob.length + 1)

/-- Whether a glob matches a value as they stand, upper and lower case being different. -/
def matchesGlob (glob value : Text) : Bool := Scan.run (scanBound glob value) ⟨glob, value, none⟩

def hasDoubleStar : Text → Bool
  | '*' :: '*' :: _ => true
  | _ :: rest => hasDoubleStar rest
  | [] => false

/-! ## Patterns -/

/-- Whether a value satisfies a pattern: lies strictly above a `>` bound, strictly below a `<`
bound, or matches a glob when the case of ASCII letters is ignored.  A glob with two stars side by
side matches nothing. -/
def accepts (pattern value : Text) : Bool :=
  match pattern with
  | '>' :: bound => compareBound bound value == .lt
  | '<' :: bound => compareBound bound value == .gt
  | glob => !hasDoubleStar glob && matchesGlob (glob.map Char.toUpper) (value.map Char.toUpper)

end WorldLocks.Pattern
