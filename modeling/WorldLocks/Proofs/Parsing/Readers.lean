import WorldLocks.Lock.Parser
import WorldLocks.Proofs.Numbers
import WorldLocks.Proofs.Trimming

/-! What each reader of a lock makes of a text whose next tokens are known.  A token ends at the
first character that cannot be part of it, so every reading says what has to stand behind. -/

set_option autoImplicit false

namespace WorldLocks

open Cursor

/-! ## Classes of characters -/

namespace Cursor

variable {c : Char}

theorem isRightMark_of_isBlank (blank : Text.isBlank c = true) : isRightMark c = false := by
  refine Bool.eq_false_iff.mpr fun marked => ?_
  simp only [isRightMark, Bool.or_eq_true, beq_iff_eq] at marked
  rcases marked with ((((rfl | rfl) | rfl) | rfl) | rfl) | rfl <;> revert blank <;> decide

theorem isRightMark_of_isDigit (digit : Text.isDigit c = true) : isRightMark c = false := by
  refine Bool.eq_false_iff.mpr fun marked => ?_
  simp only [isRightMark, Bool.or_eq_true, beq_iff_eq] at marked
  rcases marked with ((((rfl | rfl) | rfl) | rfl) | rfl) | rfl <;> revert digit <;> decide

theorem isLeftMark_of_isDigit (digit : Text.isDigit c = true) : isLeftMark c = false := by
  refine Bool.eq_false_iff.mpr fun marked => ?_
  simp only [isLeftMark, Bool.or_eq_true, beq_iff_eq] at marked
  rcases marked with (((rfl | rfl) | rfl) | rfl) | rfl <;> revert digit <;> decide

theorem isLeftMark_of_endsPattern (ends : endsPattern c = true) : isLeftMark c = false := by
  simp only [endsPattern, Bool.or_eq_true, beq_iff_eq] at ends
  rcases ends with (rfl | rfl) | rfl <;> decide

theorem isBlank_of_isRightMark (marked : isRightMark c = true) : Text.isBlank c = false :=
  Bool.eq_false_iff.mpr fun blank => by simp [isRightMark_of_isBlank blank] at marked

theorem isRightMark_of_endsPattern (ends : endsPattern c = true) : isRightMark c = true := by
  simp only [endsPattern, Bool.or_eq_true, beq_iff_eq] at ends
  rcases ends with (rfl | rfl) | rfl <;> decide

theorem endsPattern_of_isBlank (blank : Text.isBlank c = true) : endsPattern c = false :=
  Bool.eq_false_iff.mpr fun ends => by
    have marked := isRightMark_of_endsPattern ends
    rw [isRightMark_of_isBlank blank] at marked
    cases marked

/-- Nothing follows a term but the end of the text, an operator or a closing mark. -/
def Ended (rest : Text) : Prop := ∀ c ∈ rest.head?, endsPattern c = true

theorem ended_nil : Ended [] := by simp [Ended]

/-! ## Tokens -/

variable {test : Char → Bool} {text stop name pattern ahead : Text}

theorem run_append (all : ∀ c ∈ text, test c = true) (stops : ∀ c ∈ stop.head?, test c = false) :
    run test (text ++ stop) = (text, stop) := by
  unfold run
  rw [List.takeWhile_append_of_pos all, List.dropWhile_append_of_pos all]
  cases stop with
  | nil => simp
  | cons c rest => simp [stops c (by simp)]

theorem attrTest?_colon (named : ∀ c ∈ name, (c == '.' || !isRightMark c) = true)
    (behind : Cursor) :
    attrTest? (name ++ ':' :: behind) =
      some ((name, (run (fun c => !endsPattern c) behind).1),
        (run (fun c => !endsPattern c) behind).2) := by
  have first : run (fun c => c == '.' || !isRightMark c) (name ++ ':' :: behind) =
      (name, ':' :: behind) := run_append named (by simp [isRightMark])
  unfold attrTest?
  rw [first]
  rfl

theorem attrTest?_append (named : ∀ c ∈ name, (c == '.' || !isRightMark c) = true)
    (matched : ∀ c ∈ pattern, endsPattern c = false) (ended : Ended stop) :
    attrTest? (name ++ ':' :: (pattern ++ stop)) = some ((name, pattern), stop) := by
  have reads : run (fun c => !endsPattern c) (pattern ++ stop) = (pattern, stop) :=
    run_append (fun c member => by simp [matched c member]) (fun c head => by simp [ended c head])
  rw [attrTest?_colon named, reads]

theorem attrTest?_eq_none (named : ∀ c ∈ name, (c == '.' || !isRightMark c) = true)
    (ended : Ended stop) : attrTest? (name ++ stop) = none := by
  have stops : ∀ c ∈ stop.head?, (c == '.' || !isRightMark c) = false := by
    intro c head
    have ends := ended c head
    simp only [endsPattern, Bool.or_eq_true, beq_iff_eq] at ends
    rcases ends with (rfl | rfl) | rfl <;> decide
  have first := run_append named stops
  have colonless : eat? ':' stop = none := by
    cases stop with
    | nil => rfl
    | cons c rest =>
        refine if_neg ?_
        rintro rfl
        exact absurd (ended ':' (by simp)) (by decide)
  unfold attrTest?
  rw [first]
  dsimp only
  rw [colonless]

theorem skipBlanks_skipBlanks (ahead : Text) : skipBlanks (skipBlanks ahead) = skipBlanks ahead :=
  List.dropWhile_idempotent _ _

theorem skipBlanks_of_ended (ended : Ended ahead) : skipBlanks ahead = ahead :=
  Text.trimStart_of_head fun c head =>
    isBlank_of_isRightMark (isRightMark_of_endsPattern (ended c head))

end Cursor

namespace LockExpr

variable {text stop ahead behind rest inside : Text} {tree : LockExpr}

theorem readName_append (named : ∀ c ∈ text, isRightMark c = false)
    (stops : ∀ c ∈ stop.head?, isRightMark c = true) :
    readName (text ++ stop) = (Text.trim text, stop) := by
  have solid : ∀ c ∈ stop.head?, Text.isBlank c = false :=
    fun c head => isBlank_of_isRightMark (stops c head)
  have reads : reference (Text.trimStart text ++ stop) = (Text.trimStart text, stop) :=
    run_append
      (fun c member => by simp [named c ((List.dropWhile_sublist _).subset member)])
      (fun c head => by simp [stops c head])
  unfold readName skipBlanks
  rw [Text.trimStart_append solid, reads]
  rfl

/-! ## Operands -/

/-- What is behind the mark of an operand, if there was one. -/
def readSubject (kind : RefKind) : Reader := fun ahead =>
  let ahead := skipBlanks ahead
  if ahead.peek.any Text.isDigit then
    let (digits, behind) := digits ahead
    (.number (Text.leadingInt digits), behind)
  else match attrTest? ahead with
    | some ((name, pattern), behind) => (.attrTest (Text.trim name) (Text.trim pattern), behind)
    | none =>
      let (name, behind) := readName ahead
      (.ref kind name, behind)

theorem readSubject_blank_append {blanks : Text} (blank : Text.Blank blanks) (kind : RefKind)
    (ahead : Text) : readSubject kind (blanks ++ ahead) = readSubject kind ahead := by
  unfold readSubject skipBlanks
  rw [Text.trimStart_blank_append blank]

theorem readSubject_digits {digits : Text} (kind : RefKind) (present : digits ≠ [])
    (all : ∀ c ∈ digits, Text.isDigit c = true)
    (stops : ∀ c ∈ stop.head?, Text.isDigit c = false) :
    readSubject kind (digits ++ stop) = (.number (Text.leadingInt digits), stop) := by
  obtain ⟨first, later, rfl⟩ := List.exists_cons_of_ne_nil present
  have digit := all first List.mem_cons_self
  have stays : skipBlanks (first :: later ++ stop) = first :: later ++ stop :=
    Text.trimStart_of_head (by simpa using Text.isBlank_of_isDigit digit)
  have next : (peek (first :: later ++ stop)).any Text.isDigit = true := by simpa [peek] using digit
  have read : Cursor.digits (first :: later ++ stop) = (first :: later, stop) :=
    run_append all stops
  unfold readSubject
  dsimp only
  rw [stays, if_pos next, read]

/-! ### Indirections -/

variable {target name pattern condition : Text}

theorem readIndirect_name (bare : eat? '(' (skipBlanks ahead) = none) :
    readIndirect ahead = (.indirect (readName ahead).1, (readName ahead).2) := by
  unfold readIndirect
  dsimp only
  rw [bare]
  unfold readName
  rw [skipBlanks_skipBlanks]

theorem readIndirect_lock (opens : skipBlanks ahead = '(' :: inside)
    (names : readName inside = (target, ')' :: behind)) :
    readIndirect ahead = (.indirectLock target, behind) := by
  unfold readIndirect
  simp only [opens, eat?, if_true, names]
  rfl

theorem readIndirect_noTest (opens : skipBlanks ahead = '(' :: inside)
    (names : readName inside = (target, '=' :: condition))
    (closes : skipBlanks condition = ')' :: behind) :
    readIndirect ahead = (.indirectAttr target none, behind) := by
  have testless : attrTest? (')' :: behind) = none := rfl
  unfold readIndirect
  simp only [opens, eat?, if_true, names, closes, testless]
  rfl

theorem readIndirect_test (opens : skipBlanks ahead = '(' :: inside)
    (names : readName inside = (target, '=' :: condition))
    (tests : attrTest? (skipBlanks condition) = some ((name, pattern), ')' :: behind)) :
    readIndirect ahead =
      (.indirectAttr target (some (Text.trim name, Text.trim pattern)), behind) := by
  unfold readIndirect
  simp only [opens, eat?, if_true, names, tests]
  rfl

/-! ### Marks -/

theorem readAtom_group {limit : Nat} (opens : skipBlanks ahead = '(' :: inside) (inGroup : Bool) :
    readAtom (limit + 1) inGroup ahead =
      ((readAlternatives true (readAtom limit true) inside).1,
        eat ')' (skipBlanks (readAlternatives true (readAtom limit true) inside).2)) := by
  conv_lhs => unfold readAtom
  rw [opens]
  rfl

theorem readAtom_exhausted
    (nests : skipBlanks ahead = '(' :: inside ∨ skipBlanks ahead = '!' :: inside)
    (inGroup : Bool) : readAtom 0 inGroup ahead = (.tooDeep, []) := by
  unfold readAtom
  rcases nests with nests | nests <;> rw [nests] <;> rfl

theorem readAtom_not {limit : Nat} (negates : skipBlanks ahead = '!' :: inside) (inGroup : Bool) :
    readAtom (limit + 1) inGroup ahead =
      (.not (readAtom limit inGroup inside).1, (readAtom limit inGroup inside).2) := by
  conv_lhs => unfold readAtom
  rw [negates]
  rfl

theorem readAtom_indirect (asks : skipBlanks ahead = '@' :: inside) (limit : Nat) (inGroup : Bool) :
    readAtom limit inGroup ahead = readIndirect inside := by
  unfold readAtom
  rw [asks]
  cases limit <;> rfl

theorem readAtom_primary (limit : Nat) (inGroup : Bool)
    (bare : ∀ c ∈ (skipBlanks ahead).head?, c ≠ '(' ∧ c ≠ '!' ∧ c ≠ '@') :
    readAtom limit inGroup ahead = readPrimary (skipBlanks ahead) := by
  unfold readAtom
  split
  next opens => simp [opens] at bare
  next negates => simp [negates] at bare
  next opens => simp [opens] at bare
  next negates => simp [negates] at bare
  next asks => simp [asks] at bare
  next => rfl

theorem readAtom_is (marked : skipBlanks ahead = '=' :: inside) (limit : Nat) (inGroup : Bool) :
    readAtom limit inGroup ahead = readSubject .is inside := by
  rw [readAtom_primary limit inGroup (by simp [marked]), marked]
  rfl

theorem readAtom_carries (marked : skipBlanks ahead = '+' :: inside) (limit : Nat)
    (inGroup : Bool) : readAtom limit inGroup ahead = readSubject .carries inside := by
  rw [readAtom_primary limit inGroup (by simp [marked]), marked]
  rfl

theorem readPrimary_bare (bare : ∀ c ∈ ahead.head?, c ≠ '=' ∧ c ≠ '+') :
    readPrimary ahead = readSubject .any ahead := by
  cases ahead with
  | nil => rfl
  | cons c rest =>
      obtain ⟨notIs, notCarries⟩ := bare c (by simp)
      unfold readPrimary
      simp only [eat?, notIs, notCarries, if_false]
      rfl

theorem readAtom_bare (limit : Nat) (inGroup : Bool)
    (bare : ∀ c ∈ (skipBlanks ahead).head?, isLeftMark c = false) :
    readAtom limit inGroup ahead = readSubject .any ahead := by
  have differs : ∀ c ∈ (skipBlanks ahead).head?,
      c ≠ '!' ∧ c ≠ '(' ∧ c ≠ '@' ∧ c ≠ '=' ∧ c ≠ '+' := by
    intro c head
    simpa [isLeftMark, and_assoc] using bare c head
  rw [readAtom_primary, readPrimary_bare]
  · unfold readSubject
    rw [skipBlanks_skipBlanks]
  · intro c head
    obtain ⟨-, -, -, notIs, notCarries⟩ := differs c head
    exact ⟨notIs, notCarries⟩
  · intro c head
    obtain ⟨notNot, notGroup, notAsk, -, -⟩ := differs c head
    exact ⟨notGroup, notNot, notAsk⟩

/-- What decides how an operand is read is the character behind the blanks. -/
theorem head_cases (ahead : Text) :
    (∃ c inside, skipBlanks ahead = c :: inside ∧ isLeftMark c = true) ∨
      ∀ c ∈ (skipBlanks ahead).head?, isLeftMark c = false := by
  cases left : skipBlanks ahead with
  | nil => exact .inr (by simp)
  | cons c inside =>
      cases marked : isLeftMark c with
      | true => exact .inl ⟨c, inside, rfl, marked⟩
      | false => exact .inr (by simpa using marked)

theorem eq_of_isLeftMark {c : Char} (marked : isLeftMark c = true) :
    c = '!' ∨ c = '(' ∨ c = '@' ∨ c = '=' ∨ c = '+' := by
  simpa [isLeftMark, or_assoc] using marked

/-! ## Chains -/

/-- A reader makes a tree of what is ahead and leaves nothing but blanks before the rest. -/
def ReadsAs (reader : Reader) (tree : LockExpr) (ahead rest : Text) : Prop :=
  ∃ behind, reader ahead = (tree, behind) ∧ skipBlanks behind = rest

theorem beforeOperator_eq {inGroup : Bool} (leaves : skipBlanks behind = rest)
    (last : inGroup = false → rest = []) : beforeOperator inGroup behind = rest := by
  cases inGroup with
  | true =>
      rw [← leaves]
      simp [beforeOperator, skipBlanks, Text.trimStart]
  | false =>
      have blank : ∀ c ∈ behind, Text.isBlank c = true :=
        List.dropWhile_eq_nil_iff.mp (leaves.trans (last rfl))
      rw [last rfl]
      exact List.dropWhile_eq_nil_iff.mpr fun c member => by simp [blank c member]

theorem readTerms_last {reader : Reader} {operator : Char} {inGroup : Bool}
    (reads : ReadsAs reader tree ahead rest) (last : inGroup = false → rest = [])
    (alone : rest.head? ≠ some operator) (bound : Nat) :
    readTerms operator inGroup reader bound ahead = ([tree], rest) := by
  obtain ⟨behind, reads, leaves⟩ := reads
  have ends : eat? operator rest = none := by
    cases rest with
    | nil => rfl
    | cons c later => exact if_neg fun same => alone (congrArg some same)
  unfold readTerms
  rw [reads]
  dsimp only
  rw [beforeOperator_eq leaves last, ends]
  cases bound <;> rfl

theorem readTerms_more {reader : Reader} {operator : Char} {next : Text}
    (reads : ReadsAs reader tree ahead (operator :: next)) (bound : Nat) :
    readTerms operator true reader (bound + 1) ahead =
      (tree :: (readTerms operator true reader bound next).1,
        (readTerms operator true reader bound next).2) := by
  obtain ⟨behind, reads, leaves⟩ := reads
  have goesOn : eat? operator (operator :: next) = some next := eat?_eq_some.mpr rfl
  conv_lhs => unfold readTerms
  rw [reads]
  dsimp only
  rw [beforeOperator_eq leaves (by simp), goesOn]

/-- One term alone passes through a chain unchanged. -/
theorem ReadsAs.readChain {reader : Reader} {operator : Char} {inGroup : Bool}
    (reads : ReadsAs reader tree ahead rest) (combine : List LockExpr → LockExpr)
    (last : inGroup = false → rest = []) (alone : rest.head? ≠ some operator) :
    ReadsAs (readChain operator combine inGroup reader) tree ahead rest := by
  refine ⟨rest, ?_, ?_⟩
  · unfold LockExpr.readChain
    rw [readTerms_last reads last alone]
    rfl
  · obtain ⟨behind, -, leaves⟩ := reads
    exact leaves ▸ skipBlanks_skipBlanks behind

end LockExpr
end WorldLocks
