import WorldLocks.Text.Blank

/-!
# Numbers in texts

Integers are written in decimal, with a minus sign when they are negative.  They are read in two
ways: a strict reader takes a whole text or says what is wrong with it, and a lenient reader takes
the integer that a text starts with and clamps it to 64 bits.
-/

set_option autoImplicit false

namespace WorldLocks

/-- Why a text is not an integer of the wanted range. -/
inductive NumberError where
  | empty
  /-- A sign stands alone, or a character is neither a digit nor a leading sign. -/
  | invalidDigit
  | tooLarge
  | tooSmall
  deriving DecidableEq, Repr

namespace NumberError

def message : NumberError → Text
  | empty => "cannot parse integer from empty string".toList
  | invalidDigit => "invalid digit found in string".toList
  | tooLarge => "number too large to fit in target type".toList
  | tooSmall => "number too small to fit in target type".toList

end NumberError

namespace Text

def ofNat (n : Nat) : Text := Nat.toDigits 10 n

/-- A decimal integer, with a leading minus sign when it is negative. -/
def ofInt : Int → Text
  | .ofNat n => ofNat n
  | .negSucc n => '-' :: ofNat (n + 1)

def digitsValue (digits : Text) : Nat := Nat.ofDigitChars 10 digits 0

/-- Reads digits onto `total` from the left.  The first character that is no digit, or whose digit
takes the total past `limit`, decides the error. -/
def readDigits (limit : Nat) (overflow : NumberError) : Nat → Text → Except NumberError Nat
  | total, [] => .ok total
  | total, c :: rest =>
    if isDigit c then
      let next := total * 10 + (c.toNat - '0'.toNat)
      if next ≤ limit then readDigits limit overflow next rest else .error overflow
    else .error .invalidDigit

/-- Reads a whole text as a natural number up to `limit`; one leading plus sign is allowed. -/
def readNat (limit : Nat) : Text → Except NumberError Nat
  | [] => .error .empty
  | ['+'] => .error .invalidDigit
  | '+' :: digits => readDigits limit .tooLarge 0 digits
  | digits => readDigits limit .tooLarge 0 digits

/-- Reads a whole text as an integer from `-limit - 1` to `limit`; one leading sign is allowed. -/
def readInt (limit : Nat) : Text → Except NumberError Int
  | [] => .error .empty
  | ['-'] => .error .invalidDigit
  | '-' :: digits => (readDigits (limit + 1) .tooSmall 0 digits).map fun n => -(n : Int)
  | text => (readNat limit text).map fun n => (n : Int)

def maxWord64 : Nat := 9223372036854775807

/-- Writes one digit more behind a number.  A number that would become larger than the largest
64-bit integer becomes that one. -/
def appendDigit (total : Nat) (digit : Char) : Nat :=
  min (min (total * 10) maxWord64 + (digit.toNat - '0'.toNat)) maxWord64

/-- The number that the digits at the start of a text make up.  Without digits it is zero. -/
def leadingNat (text : Text) : Nat := (text.takeWhile isDigit).foldl appendDigit 0

/-- The integer at the start of a text: blanks, one optional sign, then digits.  The digits are
clamped to the largest 64-bit integer before the sign is applied. -/
def leadingInt (text : Text) : Int :=
  match trimStart text with
  | '-' :: digits => -(leadingNat digits : Int)
  | '+' :: digits => leadingNat digits
  | digits => leadingNat digits

end Text
end WorldLocks
