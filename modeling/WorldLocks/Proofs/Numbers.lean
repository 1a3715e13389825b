import Mathlib.Data.List.TakeWhile
import WorldLocks.Dbref

/-! Written numbers read back.  Every number up to the largest one that a reference may have is read
from its literal, and a literal is made of characters that mean nothing else in a lock. -/

set_option autoImplicit false

namespace WorldLocks
namespace Text

theorem isDigit_iff {c : Char} : isDigit c = true ↔ c.isDigit = true := by
  simp only [isDigit, Char.isDigit, Bool.and_eq_true, decide_eq_true_eq]
  rfl

theorem isDigit_of_mem_ofNat {n : Nat} {c : Char} (member : c ∈ ofNat n) : isDigit c = true :=
  isDigit_iff.mpr (Nat.isDigit_of_mem_toDigits (by omega) (by omega) member)

theorem ofNat_ne_nil (n : Nat) : ofNat n ≠ [] := Nat.toDigits_ne_nil

theorem trimStart_of_no_blanks {text : Text} (solid : ∀ c ∈ text, isBlank c = false) :
    trimStart text = text := by
  unfold trimStart
  cases text with
  | nil => rfl
  | cons c rest => simp [solid c (by simp)]

theorem trimEnd_of_no_blanks {text : Text} (solid : ∀ c ∈ text, isBlank c = false) :
    trimEnd text = text := by
  have stays : text.reverse.dropWhile isBlank = text.reverse :=
    trimStart_of_no_blanks fun c member => solid c (List.mem_reverse.mp member)
  rw [trimEnd, stays, List.reverse_reverse]

theorem trim_of_no_blanks {text : Text} (solid : ∀ c ∈ text, isBlank c = false) :
    trim text = text := by
  rw [trim, trimStart_of_no_blanks solid, trimEnd_of_no_blanks solid]

theorem isBlank_of_isDigit {c : Char} (digit : isDigit c = true) : isBlank c = false := by
  have bounds : 48 ≤ c.toNat ∧ c.toNat ≤ 57 := by
    simpa [isDigit, Char.le_def, UInt32.le_iff_toNat_le] using digit
  simp [isBlank, inRuns, blankRuns]
  omega

theorem le_ofDigitChars (digits : Text) (total : Nat) :
    total ≤ Nat.ofDigitChars 10 digits total := by
  induction digits generalizing total with
  | nil => simp
  | cons c rest ih =>
      rw [Nat.ofDigitChars_cons]
      have later := ih (10 * total + (c.toNat - '0'.toNat))
      omega

theorem readDigits_of_le {limit : Nat} {overflow : NumberError} {digits : Text} {total : Nat}
    (all : ∀ c ∈ digits, isDigit c = true) (fits : Nat.ofDigitChars 10 digits total ≤ limit) :
    readDigits limit overflow total digits = .ok (Nat.ofDigitChars 10 digits total) := by
  induction digits generalizing total with
  | nil => simp [readDigits]
  | cons c rest ih =>
      rw [Nat.ofDigitChars_cons] at fits ⊢
      have grows := le_ofDigitChars rest (10 * total + (c.toNat - '0'.toNat))
      have digit := all c (by simp)
      rw [readDigits, if_pos digit]
      dsimp only
      rw [if_pos (by omega), Nat.mul_comm total 10]
      exact ih (fun c member => all c (by simp [member])) fits

theorem readInt_ofNat {limit n : Nat} (fits : n ≤ limit) :
    readInt limit (ofNat n) = .ok (n : Int) := by
  have all : ∀ c ∈ ofNat n, isDigit c = true := fun _ member => isDigit_of_mem_ofNat member
  have value : Nat.ofDigitChars 10 (ofNat n) 0 = n := Nat.ofDigitChars_ten_toDigits
  have digits : readDigits limit .tooLarge 0 (ofNat n) = .ok n := by
    rw [readDigits_of_le all (value.symm ▸ fits), value]
  cases written : ofNat n with
  | nil => exact absurd written (ofNat_ne_nil n)
  | cons c rest =>
      rw [written] at digits all
      have digit := all c (by simp)
      have notMinus : c ≠ '-' := by
        rintro rfl
        cases digit
      have notPlus : c ≠ '+' := by
        rintro rfl
        cases digit
      simp [readInt, readNat, notMinus, notPlus, digits, Functor.map, Except.map]

theorem appendDigit_le (total : Nat) (digit : Char) : appendDigit total digit ≤ maxWord64 :=
  Nat.min_le_right _ _

/-- Digits that are written behind a number one by one clamp it as if it were clamped at the end:
it never falls behind a limit that it has reached. -/
theorem foldl_appendDigit {total : Nat} (fits : total ≤ maxWord64) (digits : Text) :
    digits.foldl appendDigit total = min (Nat.ofDigitChars 10 digits total) maxWord64 := by
  induction digits generalizing total with
  | nil => exact (Nat.min_eq_left fits).symm
  | cons c rest ih =>
      rw [List.foldl_cons, ih (appendDigit_le total c), Nat.ofDigitChars_cons]
      by_cases within : 10 * total + (c.toNat - '0'.toNat) ≤ maxWord64
      · have kept : appendDigit total c = 10 * total + (c.toNat - '0'.toNat) := by
          unfold appendDigit
          omega
        rw [kept]
      · have reached : appendDigit total c = maxWord64 := by
          unfold appendDigit
          omega
        have here := le_ofDigitChars rest (appendDigit total c)
        have there := le_ofDigitChars rest (10 * total + (c.toNat - '0'.toNat))
        omega

/-- Digits that nothing follows but what is no digit are all read. -/
theorem leadingNat_append {digits stop : Text} (all : ∀ c ∈ digits, isDigit c = true)
    (stops : ∀ c ∈ stop.head?, isDigit c = false) :
    leadingNat (digits ++ stop) = min (digitsValue digits) maxWord64 := by
  have taken : (digits ++ stop).takeWhile isDigit = digits := by
    rw [List.takeWhile_append_of_pos all]
    cases stop with
    | nil => simp
    | cons c rest => simp [stops c (by simp)]
  rw [leadingNat, taken, foldl_appendDigit (Nat.zero_le _)]
  rfl

theorem leadingNat_le (text : Text) : leadingNat text ≤ maxWord64 := by
  rw [leadingNat, foldl_appendDigit (Nat.zero_le _)]
  exact Nat.min_le_right _ _

/-- Without a sign, the integer at the start of a text is what its digits make up. -/
theorem leadingInt_of_digits {text : Text}
    (digits : ∀ c ∈ (trimStart text).head?, isDigit c = true) :
    leadingInt text = leadingNat (trimStart text) := by
  unfold leadingInt
  split
  next signed => exact absurd (digits '-' (by simp [signed])) (by decide)
  next signed => exact absurd (digits '+' (by simp [signed])) (by decide)
  next => rfl

theorem leadingInt_ofNat {n : Nat} (fits : n ≤ maxWord64) : leadingInt (ofNat n) = n := by
  have all : ∀ c ∈ ofNat n, isDigit c = true := fun _ member => isDigit_of_mem_ofNat member
  have value : digitsValue (ofNat n) = n := Nat.ofDigitChars_ten_toDigits
  have read : leadingNat (ofNat n ++ []) = min (digitsValue (ofNat n)) maxWord64 :=
    leadingNat_append all (by simp)
  have stays : trimStart (ofNat n) = ofNat n :=
    trimStart_of_no_blanks fun c member => isBlank_of_isDigit (all c member)
  rw [List.append_nil, value, Nat.min_eq_left fits] at read
  rw [leadingInt_of_digits (stays.symm ▸ fun c head => all c (List.mem_of_mem_head? head)), stays,
    read]

end Text

namespace Dbref

theorem literal_ofIndex (index : Nat) : (ofIndex index).literal = '#' :: Text.ofNat index := rfl

theorem isBlank_of_mem_literal {index : Nat} {c : Char}
    (member : c ∈ (ofIndex index).literal) : Text.isBlank c = false := by
  rw [literal_ofIndex] at member
  rcases List.mem_cons.mp member with rfl | digit
  · decide
  · exact Text.isBlank_of_isDigit (Text.isDigit_of_mem_ofNat digit)

@[simp] theorem trim_literal (index : Nat) :
    Text.trim (ofIndex index).literal = (ofIndex index).literal :=
  Text.trim_of_no_blanks fun _ member => isBlank_of_mem_literal member

/-- The literal of an object whose number is not too large means that object. -/
theorem read?_literal {index : Nat} (fits : index ≤ maxNumber) :
    read? (ofIndex index).literal = some (ofIndex index) := by
  rw [literal_ofIndex, read?, read, Text.readInt_ofNat fits]
  rfl

end Dbref
end WorldLocks
