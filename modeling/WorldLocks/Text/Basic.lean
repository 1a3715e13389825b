/-!
# Texts

Lock text, names and attribute values are lists of Unicode characters.  Sizes that a caller can
see (buffer lengths, consumed counts) are counted in UTF-8 bytes, so a text has two measures: its
number of characters and its number of bytes.  A cut by bytes always falls between characters.
-/

set_option autoImplicit false

namespace WorldLocks

abbrev Text := List Char

namespace Text

/-! ## Size in bytes -/

def bytes : Text → Nat
  | [] => 0
  | c :: rest => c.utf8Size + bytes rest

/-- The longest prefix of whole characters that takes at most `room` bytes. -/
def takeBytes : Nat → Text → Text
  | _, [] => []
  | room, c :: rest => if c.utf8Size ≤ room then c :: takeBytes (room - c.utf8Size) rest else []

/-- What is left after `count` bytes.  A character that the count ends inside is skipped whole,
and a count past the end leaves nothing. -/
def dropBytes : Nat → Text → Text
  | _, [] => []
  | 0, text => text
  | count, c :: rest => dropBytes (count - c.utf8Size) rest

@[simp] theorem bytes_nil : bytes [] = 0 := rfl

@[simp] theorem bytes_cons (c : Char) (rest : Text) :
    bytes (c :: rest) = c.utf8Size + bytes rest := rfl

@[simp] theorem bytes_append (first second : Text) :
    bytes (first ++ second) = bytes first + bytes second := by
  induction first with
  | nil => simp
  | cons c rest ih => simp [ih, Nat.add_assoc]

theorem bytes_takeBytes_le (room : Nat) (text : Text) : bytes (takeBytes room text) ≤ room := by
  induction text generalizing room with
  | nil => simp [takeBytes]
  | cons c rest ih =>
    by_cases fits : c.utf8Size ≤ room
    · have := ih (room - c.utf8Size)
      simp only [takeBytes, fits, if_true, bytes_cons]
      omega
    · simp [takeBytes, fits]

theorem takeBytes_prefix (room : Nat) (text : Text) : takeBytes room text <+: text := by
  induction text generalizing room with
  | nil => exact List.nil_prefix
  | cons c rest ih =>
    by_cases fits : c.utf8Size ≤ room
    · simpa [takeBytes, fits] using ih (room - c.utf8Size)
    · simp [takeBytes, fits]

theorem takeBytes_of_bytes_le {room : Nat} {text : Text} (fits : bytes text ≤ room) :
    takeBytes room text = text := by
  induction text generalizing room with
  | nil => rfl
  | cons c rest ih =>
    have head : c.utf8Size ≤ room := by simp at fits; omega
    have tail : bytes rest ≤ room - c.utf8Size := by simp at fits; omega
    simp [takeBytes, head, ih tail]

/-! ## Order and case -/

/-- Texts are ordered by code point, character after character, which is also the order of their
UTF-8 bytes.  A proper prefix comes first. -/
def order : Text → Text → Ordering
  | [], [] => .eq
  | [], _ :: _ => .lt
  | _ :: _, [] => .gt
  | a :: as, b :: bs => (compare a.toNat b.toNat).then (order as bs)

/-- Two texts are equal when the case of ASCII letters is ignored. -/
def sameIgnoringCase (first second : Text) : Bool :=
  first.map Char.toLower == second.map Char.toLower

/-! ## Pieces -/

/-- The text before the first `mark` and the text after it, if `mark` occurs. -/
def splitOnce (mark : Char) : Text → Option (Text × Text)
  | [] => none
  | c :: rest =>
    if c = mark then some ([], rest)
    else (splitOnce mark rest).map fun (before, after) => (c :: before, after)

/-- The parts in order, with `separator` between neighbours. -/
def join (separator : Text) (parts : List Text) : Text := List.intercalate separator parts

def isDigit (c : Char) : Bool := '0' ≤ c && c ≤ '9'

end Text
end WorldLocks
