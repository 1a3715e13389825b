import WorldLocks.Json.Basic

/-!
# Writing JSON

Values are written without any blanks.  In a text the quotation mark, the backslash and the control
characters are escaped, five of the latter by a letter, and everything else stands for itself.
-/

set_option autoImplicit false

namespace WorldLocks.Json

/-- A control character by its number, in four hexadecimal digits. -/
def numbered (c : Char) : Text :=
  let digits := Nat.toDigits 16 c.toNat
  ['\\', 'u'] ++ List.replicate (4 - digits.length) '0' ++ digits

def writeChar (c : Char) : Text :=
  if c = '"' ∨ c = '\\' then ['\\', c]
  else if c = '\n' then ['\\', 'n']
  else if c = '\r' then ['\\', 'r']
  else if c = '\t' then ['\\', 't']
  else if c = '\x08' then ['\\', 'b']
  else if c = '\x0c' then ['\\', 'f']
  else if c.toNat < 0x20 then numbered c
  else [c]

def writeText (text : Text) : Text := '"' :: text.flatMap writeChar ++ ['"']

mutual

def write : Json → Text
  | null => "null".toList
  | bool true => "true".toList
  | bool false => "false".toList
  | integer value => Text.ofInt value
  | decimal written => written
  | text value => writeText value
  | array items => '[' :: writeItems items ++ [']']
  | object members => '\x7b' :: writeMembers members ++ ['\x7d']

def writeItems : List Json → Text
  | [] => []
  | [item] => write item
  | item :: next :: later => write item ++ ',' :: writeItems (next :: later)

def writeMembers : List (Text × Json) → Text
  | [] => []
  | [(name, value)] => writeText name ++ ':' :: write value
  | (name, value) :: next :: later =>
    writeText name ++ ':' :: write value ++ ',' :: writeMembers (next :: later)

end

end WorldLocks.Json
