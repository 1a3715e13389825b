import WorldLocks.Proofs.Parts.Basic

/-! Renaming the objects of a lock.  When every word that names an object is replaced by another
plain word, the new text is cut at the same places: the parts of the renamed lock are the renamed
parts. -/

set_option autoImplicit false

namespace WorldLocks

open Cursor LockPart

/-- A word that is cut as one object wherever an object can be named. -/
structure IsObjectWord (word : Text) : Prop where
  ne_nil : word ≠ []
  unmarked : ∀ c ∈ word, isLeftMark c = false ∧ isRightMark c = false ∧ c ≠ '['

namespace IsObjectWord

variable {word : Text}

theorem alone (plain : IsObjectWord word) : LockPart.alone word = [object word] :=
  alone_of_not_mem fun member => (plain.unmarked _ member).2.2 rfl

end IsObjectWord

namespace Phase

/-- Whether an object can be named next. -/
def Opens (phase : Phase) : Prop := phase = start ∨ phase = behind

theorem scan_subject {added : Text}
    (unmarked : ∀ c ∈ added, isLeftMark c = false ∧ isRightMark c = false ∧ c ≠ '[')
    (word : Text) : scan (subject word false) added = ([], subject (word ++ added) false) := by
  induction added generalizing word with
  | nil => simp
  | cons c added ih =>
      obtain ⟨-, right, bracket⟩ := unmarked c (by simp)
      have later := ih (fun c member => unmarked c (by simp [member])) (word ++ [c])
      have inside : callAfter false c = false := by simp [callAfter, bracket]
      simp [scan, next, subjectNext, ends, right, inside, later]

theorem Opens.scan_word {phase : Phase} (opens : phase.Opens) {word : Text}
    (plain : IsObjectWord word) : scan phase word = ([], subject word false) := by
  obtain ⟨present, unmarked⟩ := plain
  cases word with
  | nil => exact absurd rfl present
  | cons c rest =>
      obtain ⟨left, right, bracket⟩ := unmarked c (by simp)
      have first : phase.next c = ([], subject [c] false) := by
        rcases opens with rfl | rfl <;>
          simp [next, startNext, subjectNext, ends, callAfter, left, right, bracket]
      have inside : ∀ d ∈ rest, isLeftMark d = false ∧ isRightMark d = false ∧ d ≠ '[' :=
        fun d member => unmarked d (by simp [member])
      have later := scan_subject inside [c]
      simp [scan, first, later]

/-- The phase from which the scan of a renamed lock has to go on: inside a subject it has to read
the first word of the subject again. -/
def Begins (origin : Phase) : Phase → Prop
  | subject word inCall => origin.Opens ∧ scan origin word = ([], subject word inCall)
  | phase => origin = phase

variable {names : Text → Text} {origin phase : Phase}

theorem begins_subjectNext (opens : origin.Opens) {word : Text} {inCall : Bool} {c : Char}
    (reads : scan origin (word ++ [c]) = subjectNext word inCall c)
    (plain : ∀ word', object word' ∈ (subjectNext word inCall c).1 → IsObjectWord (names word')) :
    ∃ later : Phase, later.Begins (subjectNext word inCall c).2 ∧
      scan origin (textOf ((subjectNext word inCall c).1.map (rename names))) =
        ((subjectNext word inCall c).1.map (rename names), later) := by
  unfold subjectNext at reads plain ⊢
  split at reads
  · next ended =>
    rw [if_pos ended] at plain ⊢
    have marked : ends false c := by simp_all [ends]
    split at reads
    · next colon =>
      rw [if_pos colon]
      exact ⟨pattern false, rfl, by simpa [rename, LockPart.text] using reads⟩
    · next colon =>
      rw [if_neg colon] at plain ⊢
      split at reads
      · next dot =>
        rw [if_pos dot] at plain ⊢
        have renamed := plain word (by simp)
        refine ⟨attr false, rfl, ?_⟩
        subst dot
        simp [rename, LockPart.text, scan_append, opens.scan_word renamed, scan, next, subjectNext,
          marked]
      · next dot =>
        rw [if_neg dot] at plain ⊢
        refine ⟨behind, rfl, ?_⟩
        by_cases call : '[' ∈ word
        · simpa [alone_of_mem call, rename, LockPart.text] using reads
        · have renamed := plain word (by simp [alone_of_not_mem call])
          simp [alone_of_not_mem call, rename, LockPart.text, scan_append, opens.scan_word renamed,
            scan, next, subjectNext, marked, colon, dot, renamed.alone]
  · next inside =>
    rw [if_neg inside]
    exact ⟨origin, ⟨opens, reads⟩, rfl⟩

/-- The parts that one character completes, renamed, are completed by their text. -/
theorem begins_next (begins : origin.Begins phase) {c : Char}
    (plain : ∀ word, object word ∈ (phase.next c).1 → IsObjectWord (names word)) :
    ∃ later : Phase, later.Begins (phase.next c).2 ∧
      scan origin (textOf ((phase.next c).1.map (rename names))) =
        ((phase.next c).1.map (rename names), later) := by
  cases phase with
  | start =>
      obtain rfl := begins
      by_cases left : isLeftMark c
      · refine ⟨start, ?_, ?_⟩ <;>
          simp [next, startNext, left, Begins, rename, LockPart.text, scan]
      · simp only [next, startNext, left] at plain ⊢
        exact begins_subjectNext (.inl rfl) (by simp [scan, next, startNext, left]) plain
  | subject word inCall =>
      obtain ⟨opens, reads⟩ := begins
      exact begins_subjectNext opens (by simp [scan_append, reads, scan, next]) plain
  | attr inCall =>
      obtain rfl := begins
      refine ⟨(next (attr inCall) c).2, ?_, ?_⟩ <;> simp only [next] <;> split_ifs <;>
        simp_all [Begins, rename, LockPart.text, scan, next]
  | pattern inCall =>
      obtain rfl := begins
      refine ⟨(next (pattern inCall) c).2, ?_, ?_⟩ <;> simp only [next] <;> split_ifs <;>
        simp_all [Begins, rename, LockPart.text, scan, next]
  | behind =>
      obtain rfl := begins
      by_cases right : isRightMark c
      · refine ⟨behind, ?_, ?_⟩ <;> simp [next, right, Begins, rename, LockPart.text, scan]
      · by_cases left : isLeftMark c
        · refine ⟨start, ?_, ?_⟩ <;>
            simp [next, startNext, right, left, Begins, rename, LockPart.text, scan]
        · simp only [next, startNext, right, left] at plain ⊢
          exact begins_subjectNext (.inr rfl) (by simp [scan, next, startNext, right, left]) plain

theorem begins_finish (begins : origin.Begins phase)
    (plain : ∀ word, object word ∈ phase.finish → IsObjectWord (names word)) :
    cut origin (textOf (phase.finish.map (rename names))) = phase.finish.map (rename names) := by
  have word : ∀ word, origin.Opens → ('[' ∈ word → cut origin word = copy word) →
      (∀ word', object word' ∈ alone word → IsObjectWord (names word')) →
      cut origin (textOf ((alone word).map (rename names))) = (alone word).map (rename names) := by
    intro word opens reads plain
    by_cases call : '[' ∈ word
    · simpa [alone_of_mem call] using reads call
    · have renamed := plain word (by simp [alone_of_not_mem call])
      simp [alone_of_not_mem call, rename, LockPart.text, cut, opens.scan_word renamed, finish,
        renamed.alone]
  cases phase with
  | start =>
      obtain rfl := begins
      exact word [] (.inl rfl) (by simp) plain
  | subject first inCall =>
      obtain ⟨opens, reads⟩ := begins
      refine word first opens (fun call => ?_) plain
      simp [cut, reads, finish, alone_of_mem call]
  | attr inCall =>
      obtain rfl := begins
      rfl
  | pattern inCall =>
      obtain rfl := begins
      rfl
  | behind =>
      obtain rfl := begins
      rfl

theorem cut_rename (begins : origin.Begins phase) {text : Text}
    (plain : ∀ word, object word ∈ cut phase text → IsObjectWord (names word)) :
    cut origin (textOf ((cut phase text).map (rename names))) =
      (cut phase text).map (rename names) := by
  induction text generalizing origin phase with
  | nil => exact begins_finish begins plain
  | cons c rest ih =>
      rw [cut_cons] at plain ⊢
      obtain ⟨later, laterBegins, scanned⟩ := begins_next begins
        fun word member => plain word (List.mem_append_left _ member)
      have others := ih laterBegins fun word member => plain word (List.mem_append_right _ member)
      rw [List.map_append, textOf_append, cut_append, scanned, others]

end Phase

open Phase

theorem lockParts_rename {names : Text → Text} {text : Text}
    (plain : ∀ word, object word ∈ lockParts text → IsObjectWord (names word)) :
    lockParts (textOf ((lockParts text).map (rename names))) =
      (lockParts text).map (rename names) := by
  by_cases present : text = []
  · subst present
    rfl
  · rw [lockParts_eq_cut present] at plain ⊢
    have renamed := @cut_rename _ start start rfl _ plain
    rw [lockParts_eq_cut, renamed]
    intro nothing
    rw [nothing] at renamed
    -- The empty lock would have to name an object by the empty word.
    have empty : object [] ∈ (cut start text).map (rename names) := by
      rw [← renamed]
      simp [finish, alone]
    obtain ⟨part, member, same⟩ := List.mem_map.mp empty
    cases part with
    | object word =>
        have nil : names word = [] := by simpa [rename] using same
        exact (plain word member).ne_nil nil
    | copied c => simp [rename] at same
    | noPattern => simp [rename] at same

end WorldLocks
