import WorldLocks.Text.CaseTable

/-!
# Lowercase

The full Unicode lowercase form of a text.  All characters but two are mapped one by one: `İ`
becomes two characters, and a capital sigma becomes a final sigma when it ends a word, that is
when a cased character stands before it and none stands after it, case-ignorable characters
aside.
-/

set_option autoImplicit false

namespace WorldLocks.Text

def casedNext (text : Text) : Bool :=
  match text.dropWhile (inRuns ignorableRuns) with
  | c :: _ => inRuns casedRuns c
  | [] => false

def lowerChar (c : Char) : Text :=
  if c.toNat < 0x80 then [c.toLower]
  else if c = 'İ' then ['i', '\u0307']
  else match lowerRuns.find? (·.covers c.toNat) with
    | some run => [Char.ofNat (c.toNat + run.shift).toNat]
    | none => [c]

/-- The lowercase form of what follows `before`, which holds the characters passed so far with the
nearest one first. -/
def lowerAfter (before : Text) : Text → Text
  | [] => []
  | c :: rest =>
    let lowered :=
      if c = 'Σ' then (if casedNext before && !casedNext rest then ['ς'] else ['σ'])
      else lowerChar c
    lowered ++ lowerAfter (c :: before) rest

def lowercase (text : Text) : Text := lowerAfter [] text

example : lowercase "ΟΔΟΣ ΣΑΣ".toList = "οδος σας".toList := by decide +kernel

example : lowercase "İX".toList = "i\u0307x".toList := by decide +kernel

/-- A letter without case does not make a word end. -/
example : lowercase ['\u0295', 'Σ'] = ['\u0295', 'σ'] := by decide +kernel

end WorldLocks.Text
