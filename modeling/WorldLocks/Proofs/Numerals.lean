import WorldLocks.Pattern
import WorldLocks.Proofs.Numbers
import WorldLocks.Proofs.Trimming

/-! Integers at the start of a text.  An integer is read as it is written and clamped to 64 bits,
except that the sign is applied to a number that has been clamped already.  So the least 64-bit
integer is never read: it and all below it are read as the integer above it. -/

set_option autoImplicit false

namespace WorldLocks

namespace Text

inductive Sign where
  | none
  | plus
  | minus
  deriving DecidableEq, Repr

def Sign.mark : Sign → Text
  | none => []
  | plus => ['+']
  | minus => ['-']

def Sign.apply : Sign → Nat → Int
  | none, magnitude | plus, magnitude => magnitude
  | minus, magnitude => -(magnitude : Int)

/-- An integer at the start of a text, with blanks before it, and behind it nothing that could be
one more of its digits. -/
structure Numeral where
  blanks : Text
  sign : Sign
  digits : Text
  rest : Text
  blank : Blank blanks
  present : digits ≠ []
  all : ∀ c ∈ digits, isDigit c = true
  stops : ∀ c ∈ rest.head?, isDigit c = false

namespace Numeral

def text (numeral : Numeral) : Text :=
  numeral.blanks ++ (numeral.sign.mark ++ (numeral.digits ++ numeral.rest))

/-- The integer that is written. -/
def value (numeral : Numeral) : Int := numeral.sign.apply (digitsValue numeral.digits)

end Numeral

/-! ## Clamping -/

/-- The least 64-bit integer. -/
def minWord64 : Int := -(maxWord64 : Int) - 1

/-- The 64-bit integer that is nearest to an integer. -/
def clampWord64 (value : Int) : Int := max minWord64 (min maxWord64 value)

/-- A number that is clamped before it gets its sign is only the least 64-bit integer off. -/
theorem apply_min (sign : Sign) (magnitude : Nat) :
    sign.apply (min magnitude maxWord64) =
      max (minWord64 + 1) (clampWord64 (sign.apply magnitude)) := by
  unfold clampWord64 minWord64
  cases sign <;> simp only [Sign.apply] <;> omega

/-! ## Reading -/

namespace Numeral

variable (numeral bound : Numeral)

theorem head?_digits (c : Char) (head : c ∈ (numeral.digits ++ numeral.rest).head?) :
    isDigit c = true := by
  obtain ⟨first, later, split⟩ := List.exists_cons_of_ne_nil numeral.present
  obtain rfl : first = c := by simpa [split] using head
  exact numeral.all first (split ▸ List.mem_cons_self)

theorem trimStart_text :
    trimStart numeral.text = numeral.sign.mark ++ (numeral.digits ++ numeral.rest) := by
  unfold text
  rw [trimStart_blank_append numeral.blank]
  apply trimStart_of_head
  intro c head
  cases sign : numeral.sign with
  | none =>
      exact isBlank_of_isDigit (numeral.head?_digits c (by simpa [sign, Sign.mark] using head))
  | plus =>
      obtain rfl : '+' = c := by simpa [sign, Sign.mark] using head
      decide
  | minus =>
      obtain rfl : '-' = c := by simpa [sign, Sign.mark] using head
      decide

/-- What is read is what is written, clamped to 64 bits and kept off the least integer there. -/
theorem leadingInt_text :
    leadingInt numeral.text = max (minWord64 + 1) (clampWord64 numeral.value) := by
  have starts := numeral.trimStart_text
  rw [value, ← apply_min, ← leadingNat_append numeral.all numeral.stops]
  cases sign : numeral.sign with
  | none =>
      rw [sign, Sign.mark, List.nil_append] at starts
      rw [leadingInt_of_digits (starts.symm ▸ numeral.head?_digits), starts]
      rfl
  | plus =>
      unfold leadingInt
      rw [starts, sign]
      rfl
  | minus =>
      unfold leadingInt
      rw [starts, sign]
      rfl

/-! ## Bounds -/

variable {bound : Numeral}

/-- A bound that starts with a digit or a minus sign is compared as an integer. -/
theorem compareBound_text (bare : bound.blanks = []) (unsigned : bound.sign ≠ .plus) :
    Pattern.compareBound bound.text numeral.text =
      compare (leadingInt bound.text) (leadingInt numeral.text) := by
  have starts : ∃ c later, bound.text = c :: later ∧ (isDigit c || c == '-') = true := by
    unfold text
    rw [bare, List.nil_append]
    cases sign : bound.sign with
    | plus => exact absurd sign unsigned
    | minus => exact ⟨'-', bound.digits ++ bound.rest, rfl, rfl⟩
    | none =>
        obtain ⟨c, later, split⟩ := List.exists_cons_of_ne_nil bound.present
        have digit : isDigit c = true := bound.head?_digits c (by simp [split])
        exact ⟨c, later ++ bound.rest, by rw [split]; rfl, by rw [digit]; rfl⟩
  obtain ⟨c, later, split, numeric⟩ := starts
  unfold Pattern.compareBound
  rw [split]
  exact if_pos numeric

/-- An integer at the start of a text is read and clamped to 64 bits, but the least integer there
and all below it are read as the one above it.  So a numeric bound compares the clamped integers,
except that it does not tell these two apart. -/
theorem reads_clamped (numeral : Numeral) :
    (minWord64 < numeral.value → leadingInt numeral.text = clampWord64 numeral.value) ∧
      (numeral.value ≤ minWord64 → leadingInt numeral.text = minWord64 + 1) ∧
      ∀ bound : Numeral, bound.blanks = [] → bound.sign ≠ .plus →
        (Pattern.accepts ('>' :: bound.text) numeral.text = true ↔
          clampWord64 bound.value < clampWord64 numeral.value ∧
            ¬ (bound.value ≤ minWord64 ∧ numeral.value = minWord64 + 1)) ∧
        (Pattern.accepts ('<' :: bound.text) numeral.text = true ↔
          clampWord64 numeral.value < clampWord64 bound.value ∧
            ¬ (numeral.value ≤ minWord64 ∧ bound.value = minWord64 + 1)) := by
  have room : minWord64 + 1 < (maxWord64 : Int) := by decide
  refine ⟨fun above => ?_, fun below => ?_, fun bound bare unsigned => ⟨?_, ?_⟩⟩
  · rw [leadingInt_text, clampWord64]
    omega
  · rw [leadingInt_text, clampWord64]
    omega
  · have asked : Pattern.accepts ('>' :: bound.text) numeral.text = true ↔
        leadingInt bound.text < leadingInt numeral.text := by
      rw [← Int.compare_eq_lt, ← compareBound_text numeral bare unsigned]
      exact beq_iff_eq
    rw [asked, leadingInt_text, leadingInt_text, clampWord64, clampWord64]
    omega
  · have asked : Pattern.accepts ('<' :: bound.text) numeral.text = true ↔
        leadingInt numeral.text < leadingInt bound.text := by
      rw [← Int.compare_eq_gt, ← compareBound_text numeral bare unsigned]
      exact beq_iff_eq
    rw [asked, leadingInt_text, leadingInt_text, clampWord64, clampWord64]
    omega

/-- The least 64-bit integer in the middle of a text. -/
def least : Numeral where
  blanks := [' ']
  sign := .minus
  digits := "9223372036854775808".toList
  rest := ['x']
  blank := by decide
  present := by simp
  all := by simp [isDigit]
  stops := by simp [isDigit]

/-- The integer above it, as it may stand in a bound. -/
def aboveLeast : Numeral where
  blanks := []
  sign := .minus
  digits := "9223372036854775807".toList
  rest := []
  blank := blank_nil
  present := by simp
  all := by simp [isDigit]
  stops := by simp

/-- The least integer lies below the one above it, but a bound does not tell them apart. -/
theorem reads_clamped_least :
    (least.value ≤ minWord64 ∧ leadingInt least.text = minWord64 + 1) ∧
      (aboveLeast.blanks = [] ∧ aboveLeast.sign ≠ .plus) ∧
      clampWord64 least.value < clampWord64 aboveLeast.value ∧
      ¬ Pattern.accepts ('<' :: aboveLeast.text) least.text = true := by
  have below : least.value ≤ minWord64 := by decide +kernel
  have above : aboveLeast.value = minWord64 + 1 := by decide +kernel
  have unsigned : aboveLeast.sign ≠ .plus := by simp [aboveLeast]
  obtain ⟨-, read, bounds⟩ := reads_clamped least
  refine ⟨⟨below, read below⟩, ⟨rfl, unsigned⟩, by decide +kernel, fun accepted => ?_⟩
  exact ((bounds aboveLeast rfl unsigned).2.mp accepted).2 ⟨below, above⟩

end Numeral

end Text
end WorldLocks
