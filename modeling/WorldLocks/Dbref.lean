import WorldLocks.Text.Number

/-!
# Object references

An object is referred to by its number in the table of objects.  Negative numbers never name an
object; three of them have a meaning of their own.  A reference is written as `#` and its number.
-/

set_option autoImplicit false

namespace WorldLocks

/-- A reference to an object by number. -/
structure Dbref where
  number : Int
  deriving DecidableEq, Repr

namespace Dbref

/-- The first object of the table.  It carries the global zone and is never destroyed. -/
def system : Dbref := ⟨0⟩

/-- The first player, the only one who may see passwords. -/
def root : Dbref := ⟨1⟩

def nothing : Dbref := ⟨-1⟩

def ambiguous : Dbref := ⟨-2⟩

def home : Dbref := ⟨-3⟩

def ofIndex (index : Nat) : Dbref := ⟨index⟩

/-- The slot that a reference points at, unless it is negative. -/
def index? (ref : Dbref) : Option Nat :=
  match ref.number with
  | .ofNat index => some index
  | .negSucc _ => none

def literal (ref : Dbref) : Text := '#' :: Text.ofInt ref.number

/-- Literals in order, with a blank between neighbours. -/
def literals (refs : List Dbref) : Text := Text.join [' '] (refs.map literal)

@[simp] theorem index?_ofIndex (index : Nat) : (ofIndex index).index? = some index := rfl

theorem index?_eq_some {ref : Dbref} {index : Nat} :
    ref.index? = some index ↔ ref = ofIndex index := by
  obtain ⟨number⟩ := ref
  cases number with
  | ofNat slot =>
    simp only [index?, ofIndex, Option.some.injEq, Dbref.mk.injEq, Int.ofNat_eq_natCast]
    omega
  | negSucc slot => simp [index?, ofIndex]

inductive ReadError where
  | missingHash (text : Text)
  | badNumber (digits : Text) (cause : NumberError)
  deriving DecidableEq, Repr

def ReadError.message : ReadError → Text
  | missingHash text => "Expected object reference to start with '#', got ".toList ++ text
  | badNumber digits cause =>
    "Could not parse object number: ".toList ++ digits ++ ": ".toList ++ cause.message

def maxNumber : Nat := 2147483647

def read : Text → Except ReadError Dbref
  | '#' :: digits =>
    match Text.readInt maxNumber digits with
    | .ok number => .ok ⟨number⟩
    | .error cause => .error (.badNumber digits cause)
  | text => .error (.missingHash text)

/-- The reference that a text is the literal of, if it is one. -/
def read? (text : Text) : Option Dbref := (read text).toOption

end Dbref
end WorldLocks
