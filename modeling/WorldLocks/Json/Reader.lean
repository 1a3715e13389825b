import WorldLocks.Json.Basic

/-!
# Reading JSON

A strict reader of whole texts.  Values are read by recursion with a bound that the length of the
text gives: every step into a value, an item or a member is followed by at least one character.
-/

set_option autoImplicit false

namespace WorldLocks.Json

/-- What a reader finds at the start of a text, and what is behind it. -/
abbrev Reader (α : Type) := Text → Option (α × Text)

def skipSpaces (ahead : Text) : Text :=
  ahead.dropWhile fun c => c == ' ' || c == '\t' || c == '\n' || c == '\r'

def readWord (word : Text) (value : Json) : Reader Json := fun ahead =>
  if word.isPrefixOf ahead then some (value, ahead.drop word.length) else none

/-! ## Texts -/

def hexDigit? (c : Char) : Option Nat :=
  if Text.isDigit c then some (c.toNat - '0'.toNat)
  else if 'a' ≤ c ∧ c ≤ 'f' then some (c.toNat - 'a'.toNat + 10)
  else if 'A' ≤ c ∧ c ≤ 'F' then some (c.toNat - 'A'.toNat + 10)
  else none

def hexValue? (digits : Text) : Option Nat :=
  digits.foldlM (fun total c => (hexDigit? c).map (total * 16 + ·)) 0

def isHighUnit (unit : Nat) : Bool := 0xd800 ≤ unit && unit < 0xdc00

def isLowUnit (unit : Nat) : Bool := 0xdc00 ≤ unit && unit < 0xe000

/-- The character that a code unit stands for, given the first half of a pair if one stands before
it; or else the first half of a pair that the next unit has to complete. -/
def decodeUnit (high : Option Nat) (unit : Nat) : Option (Char ⊕ Nat) :=
  match high with
  | some first =>
    if isLowUnit unit then
      some (.inl (Char.ofNat (0x10000 + (first - 0xd800) * 0x400 + (unit - 0xdc00))))
    else none
  | none =>
    if isHighUnit unit then some (.inr unit)
    else if isLowUnit unit then none
    else some (.inl (Char.ofNat unit))

def escaped? (letter : Char) : Option Char :=
  match letter with
  | '"' => some '"'
  | '\\' => some '\\'
  | '/' => some '/'
  | 'b' => some '\x08'
  | 'f' => some '\x0c'
  | 'n' => some '\n'
  | 'r' => some '\r'
  | 't' => some '\t'
  | _ => none

/-- Reads up to the closing quotation mark.  `done` holds the characters read so far, latest first,
and `high` the first half of a pair that is still to be completed. -/
def readTextFrom (done : Text) (high : Option Nat) : Reader Text
  | [] => none
  | '"' :: behind => if high.isNone then some (done.reverse, behind) else none
  | '\\' :: 'u' :: a :: b :: c :: d :: behind =>
    match (hexValue? [a, b, c, d]).bind (decodeUnit high) with
    | some (.inl char) => readTextFrom (char :: done) none behind
    | some (.inr first) => readTextFrom done (some first) behind
    | none => none
  | '\\' :: letter :: behind =>
    match high, escaped? letter with
    | none, some char => readTextFrom (char :: done) none behind
    | _, _ => none
  | char :: behind =>
    if high.isNone && char != '\\' && 0x20 ≤ char.toNat then readTextFrom (char :: done) none behind
    else none

/-! ## Numbers -/

def readDigits : Reader Text := fun ahead =>
  let digits := ahead.takeWhile Text.isDigit
  if digits.isEmpty then none else some (digits, ahead.dropWhile Text.isDigit)

/-- Reads the digits before the point, which start with a zero only if they are a single one. -/
def readWhole : Reader Text
  | '0' :: behind => some (['0'], behind)
  | ahead => readDigits ahead

def readFraction : Reader Text
  | '.' :: ahead => (readDigits ahead).map fun (digits, behind) => ('.' :: digits, behind)
  | ahead => some ([], ahead)

def readExponent : Reader Text := fun ahead =>
  match ahead with
  | mark :: signed =>
    if mark = 'e' ∨ mark = 'E' then
      let (sign, digits) := match signed with
        | '+' :: digits => (['+'], digits)
        | '-' :: digits => (['-'], digits)
        | digits => ([], digits)
      (readDigits digits).map fun (digits, behind) => (mark :: sign ++ digits, behind)
    else some ([], ahead)
  | [] => some ([], [])

def readNumber : Reader Json := fun ahead => do
  let (sign, ahead) := match ahead with
    | '-' :: ahead => (['-'], ahead)
    | ahead => ([], ahead)
  let (whole, behind) ← readWhole ahead
  let (fraction, behind) ← readFraction behind
  let (exponent, behind) ← readExponent behind
  let value := Text.digitsValue whole
  let json :=
    if !fraction.isEmpty || !exponent.isEmpty || (!sign.isEmpty && value == 0) then
      decimal (sign ++ whole ++ fraction ++ exponent)
    else if sign.isEmpty then integer value
    else integer (-(value : Int))
  pure (json, behind)

/-! ## Values -/

mutual

def readValue : Nat → Reader Json
  | 0, _ => none
  | bound + 1, ahead =>
    match skipSpaces ahead with
    | '\x7b' :: ahead =>
      match skipSpaces ahead with
      | '\x7d' :: behind => some (object [], behind)
      | ahead => (readMembers bound ahead).map fun (members, behind) => (object members, behind)
    | '[' :: ahead =>
      match skipSpaces ahead with
      | ']' :: behind => some (array [], behind)
      | ahead => (readItems bound ahead).map fun (items, behind) => (array items, behind)
    | '"' :: ahead => (readTextFrom [] none ahead).map fun (value, behind) => (text value, behind)
    | 'n' :: ahead => readWord "null".toList null ('n' :: ahead)
    | 't' :: ahead => readWord "true".toList (bool true) ('t' :: ahead)
    | 'f' :: ahead => readWord "false".toList (bool false) ('f' :: ahead)
    | ahead => readNumber ahead

/-- Reads the items of an array that has some, and the closing bracket. -/
def readItems : Nat → Reader (List Json)
  | 0, _ => none
  | bound + 1, ahead => do
    let (item, behind) ← readValue bound ahead
    match skipSpaces behind with
    | ',' :: ahead =>
      let (later, behind) ← readItems bound ahead
      pure (item :: later, behind)
    | ']' :: behind => pure ([item], behind)
    | _ => none

/-- Reads the members of an object that has some, and the closing brace. -/
def readMembers : Nat → Reader (List (Text × Json))
  | 0, _ => none
  | bound + 1, ahead => do
    match skipSpaces ahead with
    | '"' :: ahead =>
      let (name, behind) ← readTextFrom [] none ahead
      match skipSpaces behind with
      | ':' :: ahead =>
        let (value, behind) ← readValue bound ahead
        match skipSpaces behind with
        | ',' :: ahead =>
          let (later, behind) ← readMembers bound ahead
          pure ((name, value) :: later, behind)
        | '\x7d' :: behind => pure ([(name, value)], behind)
        | _ => none
      | _ => none
    | _ => none

end

def read (ahead : Text) : Option Json :=
  match readValue (2 * ahead.length + 2) ahead with
  | some (json, behind) => if (skipSpaces behind).isEmpty then some json else none
  | none => none

example : read " [1, -2, -0, 1e2, \"\\u00e9\\ud83d\\ude00\"] ".toList =
    some (array [integer 1, integer (-2), decimal "-0".toList, decimal "1e2".toList,
      text "é😀".toList]) := by cbv

end WorldLocks.Json
