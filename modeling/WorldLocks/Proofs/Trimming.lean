import Mathlib.Data.List.DropRight
import WorldLocks.Proofs.Cursor

/-! Texts without the blanks around them.  Blanks that are added around a text are trimmed away
again, and trimming keeps the first character that is not blank. -/

set_option autoImplicit false

namespace WorldLocks
namespace Text

variable {text blanks before after : Text}

/-- A text that is nothing but blanks. -/
def Blank (text : Text) : Prop := ∀ c ∈ text, isBlank c = true

/-- A text without blanks around it. -/
def Trimmed (text : Text) : Prop := trim text = text

instance (text : Text) : Decidable (Blank text) := List.decidableBAll (isBlank · = true) text

instance (text : Text) : Decidable (Trimmed text) := inferInstanceAs (Decidable (_ = _))

theorem blank_nil : Blank [] := by simp [Blank]

theorem trimEnd_eq_rdropWhile (text : Text) : trimEnd text = text.rdropWhile isBlank := rfl

theorem trimStart_of_blank (blank : Blank text) : trimStart text = [] :=
  List.dropWhile_eq_nil_iff.mpr blank

theorem trimStart_blank_append (blank : Blank blanks) (text : Text) :
    trimStart (blanks ++ text) = trimStart text :=
  List.dropWhile_append_of_pos blank

theorem trimEnd_append_blank (blank : Blank blanks) (text : Text) :
    trimEnd (text ++ blanks) = trimEnd text := by
  have reversed : ∀ c ∈ blanks.reverse, isBlank c = true :=
    fun c member => blank c (List.mem_reverse.mp member)
  rw [trimEnd, List.reverse_append, List.dropWhile_append_of_pos reversed, trimEnd]

theorem trim_append_blank (blank : Blank blanks) (text : Text) :
    trim (text ++ blanks) = trim text := by
  unfold trim trimStart
  rw [List.dropWhile_append]
  split
  · next none =>
    rw [List.isEmpty_iff.mp none]
    exact congrArg trimEnd (trimStart_of_blank blank)
  · exact trimEnd_append_blank blank _

/-- Blanks around a text make no difference to what is left of it. -/
theorem trim_padded (first : Blank before) (last : Blank after) (text : Text) :
    trim (before ++ (text ++ after)) = trim text := by
  unfold trim
  rw [trimStart_blank_append first]
  exact trim_append_blank last text

theorem head?_trimStart_not_blank {c : Char} (first : c ∈ (trimStart text).head?) :
    isBlank c = false := Cursor.head?_dropWhile first

theorem head?_trimStart (text : Text) : (trimStart text).head? = (trim text).head? := by
  unfold trim
  cases left : trimStart text with
  | nil => rfl
  | cons c rest =>
      have solid : isBlank c = false := @head?_trimStart_not_blank text c (by simp [left])
      have kept : trimEnd (c :: rest) ≠ [] := by
        rw [trimEnd_eq_rdropWhile, Ne, List.rdropWhile_eq_nil_iff]
        intro all
        simp [all c (by simp)] at solid
      obtain ⟨cut, split⟩ := List.rdropWhile_prefix isBlank (c :: rest)
      rw [trimEnd_eq_rdropWhile] at kept ⊢
      cases trimmed : (c :: rest).rdropWhile isBlank with
      | nil => exact absurd trimmed kept
      | cons d others =>
          rw [trimmed] at split
          simpa using (List.cons.inj split).1.symm

theorem trim_prefix_trimStart (text : Text) : trim text <+: trimStart text :=
  List.rdropWhile_prefix isBlank _

theorem mem_of_mem_trim {c : Char} (member : c ∈ trim text) : c ∈ text :=
  (List.dropWhile_sublist _).subset ((trim_prefix_trimStart text).subset member)

theorem mem_dropWhile_blank {c : Char} (member : c ∈ text) (solid : isBlank c = false) :
    c ∈ text.dropWhile isBlank := by
  have split : text.takeWhile isBlank ++ text.dropWhile isBlank = text :=
    List.takeWhile_append_dropWhile
  rw [← split, List.mem_append] at member
  rcases member with early | late
  · rw [List.mem_takeWhile_imp early] at solid
    cases solid
  · exact late

theorem mem_trim {c : Char} (member : c ∈ text) (solid : isBlank c = false) : c ∈ trim text := by
  have behind : c ∈ trimStart text := mem_dropWhile_blank member solid
  exact List.mem_reverse.mpr (mem_dropWhile_blank (List.mem_reverse.mpr behind) solid)

theorem length_trim_le (text : Text) : (trim text).length ≤ text.length :=
  (trim_prefix_trimStart text).length_le.trans (List.dropWhile_sublist _).length_le

theorem trimStart_of_head (solid : ∀ c ∈ text.head?, isBlank c = false) :
    trimStart text = text := by
  cases text with
  | nil => rfl
  | cons c rest => simp [trimStart, solid c (by simp)]

theorem trimmed_trim (text : Text) : Trimmed (trim text) := by
  have stays : trimStart (trim text) = trim text :=
    trimStart_of_head fun c first => head?_trimStart_not_blank (head?_trimStart text ▸ first)
  unfold Trimmed
  rw [trim, stays]
  exact List.rdropWhile_idempotent isBlank _

theorem Trimmed.head {c : Char} (trimmed : Trimmed text) (first : c ∈ text.head?) :
    isBlank c = false := by
  rw [← trimmed, ← head?_trimStart] at first
  exact head?_trimStart_not_blank first

/-- A text is trimmed if neither its first nor its last character is blank. -/
theorem trimmed_iff : Trimmed text ↔
    (∀ c ∈ text.head?, isBlank c = false) ∧ ∀ c ∈ text.getLast?, isBlank c = false := by
  refine ⟨fun trimmed => ⟨fun _ => trimmed.head, fun c last => ?_⟩, fun ⟨first, last⟩ => ?_⟩
  · obtain ⟨present, rfl⟩ := List.mem_getLast?_eq_getLast last
    have stays : (trimStart text).rdropWhile isBlank = text := trimmed
    rw [trimStart_of_head fun _ => trimmed.head, List.rdropWhile_eq_self_iff] at stays
    simpa using stays present
  · have stays : text.rdropWhile isBlank = text :=
      List.rdropWhile_eq_self_iff.mpr fun present => by
        simpa using last _ (List.getLast_mem_getLast? present)
    unfold Trimmed trim
    rw [trimStart_of_head first]
    exact stays

/-- What stands behind a text stops the blanks before it from being passed over, unless they are
all there is. -/
theorem trimStart_append {stop : Text} (solid : ∀ c ∈ stop.head?, isBlank c = false) (text : Text) :
    trimStart (text ++ stop) = trimStart text ++ stop := by
  unfold trimStart
  rw [List.dropWhile_append]
  split
  · next none =>
    rw [List.isEmpty_iff.mp none]
    exact trimStart_of_head solid
  · rfl

end Text
end WorldLocks
