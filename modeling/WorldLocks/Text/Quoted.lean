import WorldLocks.Text.HiddenTable

/-!
# Quoted texts

The form in which messages show a text that a player typed: between double quotes, with a
backslash before a quote and a backslash, short names for four controls, and the code point in
hexadecimal for every other character that does not show by itself.
-/

set_option autoImplicit false

namespace WorldLocks.Text

/-- A code point in hexadecimal between braces, after a backslash and `u`. -/
def codePoint (c : Char) : Text :=
  ['\\', 'u', '\x7b'] ++ Nat.toDigits 16 c.toNat ++ ['\x7d']

def quotedChar (c : Char) : Text :=
  if c = '\x00' then ['\\', '0']
  else if c = '\t' then ['\\', 't']
  else if c = '\r' then ['\\', 'r']
  else if c = '\n' then ['\\', 'n']
  else if c = '\\' ∨ c = '"' then ['\\', c]
  else if isHidden c then codePoint c
  else [c]

def quoted (text : Text) : Text := '"' :: text.flatMap quotedChar ++ ['"']

/-- Quoted texts in brackets, with a comma and a space between them. -/
def quotedList (texts : List Text) : Text :=
  '[' :: join ", ".toList (texts.map quoted) ++ [']']

example : quoted "a\"b\u0301\n".toList = "\"a\\\"b\\u\x7b301\x7d\\n\"".toList := by decide +kernel

end WorldLocks.Text
