import WorldLocks.Text.Basic

/-!
# Blanks

A blank is a character with the Unicode property White_Space.  Names and lock tokens are trimmed
of blanks, and option lists are split at them.
-/

set_option autoImplicit false

namespace WorldLocks.Text

/-- The runs of code points that have the property White_Space. -/
def blankRuns : List (Nat × Nat) :=
  [(0x9, 0xd), (0x20, 0x20), (0x85, 0x85), (0xa0, 0xa0), (0x1680, 0x1680), (0x2000, 0x200a),
   (0x2028, 0x2029), (0x202f, 0x202f), (0x205f, 0x205f), (0x3000, 0x3000)]

/-- Whether one of the runs, each given by its first and last code point, holds the character. -/
def inRuns (runs : List (Nat × Nat)) (c : Char) : Bool :=
  runs.any fun (first, last) => first ≤ c.toNat && c.toNat ≤ last

def isBlank (c : Char) : Bool := inRuns blankRuns c

def trimStart (text : Text) : Text := text.dropWhile isBlank

def trimEnd (text : Text) : Text := (text.reverse.dropWhile isBlank).reverse

def trim (text : Text) : Text := trimEnd (trimStart text)

/-- The maximal runs of characters that are not blank, in order. -/
def words (text : Text) : List Text := (text.splitOnP isBlank).filter (· ≠ [])

end WorldLocks.Text
