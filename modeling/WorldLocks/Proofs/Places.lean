import WorldLocks.Lock.Place
import WorldLocks.Proofs.Cursor

/-! Offsets never lose their place.  Whatever a text holds, an offset that moves along it by calls
of a cursor always stands between two characters, so that the text can be cut there, and the calls
answer as those of a cursor do that only knows what is ahead. -/

set_option autoImplicit false

namespace WorldLocks

/-! ## Cuts between characters -/

namespace Text

theorem fromByte?_cons (offset : Nat) (c : Char) (rest : Text) :
    fromByte? (c.utf8Size + offset) (c :: rest) = fromByte? offset rest := by
  have some : c.utf8Size + offset = c.utf8Size + offset - 1 + 1 := by
    have size := c.utf8Size_pos
    omega
  rw [some, fromByte?, ← some, if_pos (Nat.le_add_right _ _), Nat.add_sub_cancel_left]

theorem upToByte?_cons (offset : Nat) (c : Char) (rest : Text) :
    upToByte? (c.utf8Size + offset) (c :: rest) = (upToByte? offset rest).map (c :: ·) := by
  have some : c.utf8Size + offset = c.utf8Size + offset - 1 + 1 := by
    have size := c.utf8Size_pos
    omega
  rw [some, upToByte?, ← some, if_pos (Nat.le_add_right _ _), Nat.add_sub_cancel_left]

theorem fromByte?_append (before behind : Text) :
    fromByte? before.bytes (before ++ behind) = some behind := by
  induction before with
  | nil => simp [fromByte?]
  | cons c before ih => rw [bytes_cons, List.cons_append, fromByte?_cons, ih]

theorem upToByte?_append (before behind : Text) :
    upToByte? before.bytes (before ++ behind) = some before := by
  induction before with
  | nil => simp [upToByte?]
  | cons c before ih => rw [bytes_cons, List.cons_append, upToByte?_cons, ih]; rfl

theorem slice?_append (before inside behind : Text) :
    slice? before.bytes (before ++ inside).bytes (before ++ (inside ++ behind)) = some inside := by
  unfold slice?
  rw [fromByte?_append, bytes_append, Option.bind_eq_bind, Option.bind_some,
    if_pos (Nat.le_add_right _ _), Nat.add_sub_cancel_left, upToByte?_append]

theorem find?_indices (test : Char → Bool) (offset : Nat) (text : Text) :
    ((indices offset text).find? fun (_, c) => test c).elim (offset + bytes text) Prod.fst =
      offset + bytes (text.takeWhile fun c => !test c) := by
  induction text generalizing offset with
  | nil => rfl
  | cons c rest ih =>
      cases found : test c with
      | true => simp [indices, found]
      | false =>
          have later := ih (offset + c.utf8Size)
          simpa [indices, found, Nat.add_assoc] using later

/-- The offset that is found for a character is the size of what stands before it. -/
theorem offsetOf_eq (test : Char → Bool) (text : Text) :
    offsetOf test text = bytes (text.takeWhile fun c => !test c) := by
  have found := find?_indices test 0 text
  rwa [Nat.zero_add, Nat.zero_add] at found

end Text

/-! ## Places between characters -/

namespace Place

open Cursor

/-- The place behind one text and before another. -/
def between (before ahead : Text) : Place := ⟨before ++ ahead, before.bytes⟩

variable {before ahead : Text} {c : Char}

theorem rest_between (before ahead : Text) : (between before ahead).rest = some ahead :=
  Text.fromByte?_append before ahead

theorem peek_between (before ahead : Text) : (between before ahead).peek = some ahead.head? := by
  unfold peek
  rw [rest_between]
  rfl

theorem forward_between (before passed behind : Text) :
    (between before (passed ++ behind)).forward passed.bytes =
      between (before ++ passed) behind := by
  simp [between, forward]

theorem bump_nil (before : Text) : (between before []).bump = some (none, between before []) := by
  unfold bump
  rw [peek_between]
  rfl

theorem bump_cons (before : Text) (c : Char) (behind : Text) :
    (between before (c :: behind)).bump = some (some c, between (before ++ [c]) behind) := by
  unfold bump
  rw [peek_between]
  exact congrArg (fun place => some (some c, place)) (forward_between before [c] behind)

theorem eat_cons (before : Text) (mark : Char) (behind : Text) :
    (between before (mark :: behind)).eat mark =
      some (true, between (before ++ [mark]) behind) := by
  unfold eat
  rw [peek_between, Option.bind_eq_bind, Option.bind_some, List.head?_cons, if_pos rfl]
  exact congrArg (fun place => some (true, place)) (forward_between before [mark] behind)

theorem eat_none {mark : Char} (other : eat? mark ahead = none) (before : Text) :
    (between before ahead).eat mark = some (false, between before ahead) := by
  have differs : ahead.head? ≠ some mark := by
    cases ahead with
    | nil => simp
    | cons c rest =>
        intro same
        obtain rfl : c = mark := Option.some.inj same
        simp [eat?] at other
  unfold eat
  rw [peek_between, Option.bind_eq_bind, Option.bind_some, if_neg differs]
  rfl

theorem atEnd_between (before ahead : Text) : (between before ahead).atEnd = ahead.isEmpty := by
  unfold atEnd between
  cases ahead with
  | nil => simp
  | cons c rest =>
      have size := c.utf8Size_pos
      simp
      omega

theorem skipToEnd_between (before ahead : Text) :
    (between before ahead).skipToEnd = between (before ++ ahead) [] := by
  simp [skipToEnd, between]

/-! ### Runs of characters -/

theorem takeWhile_between (test : Char → Bool) (before ahead : Text) :
    (between before ahead).takeWhile test =
      some ((run test ahead).1, between (before ++ (run test ahead).1) (run test ahead).2) := by
  have split : ahead.takeWhile test ++ ahead.dropWhile test = ahead :=
    List.takeWhile_append_dropWhile
  have length : Text.offsetOf (fun c => !test c) ahead = Text.bytes (ahead.takeWhile test) := by
    simp [Text.offsetOf_eq]
  have taken := Text.upToByte?_append (ahead.takeWhile test) (ahead.dropWhile test)
  have onward := forward_between before (ahead.takeWhile test) (ahead.dropWhile test)
  rw [split] at taken onward
  unfold Place.takeWhile run
  simp only [rest_between, Option.bind_eq_bind, Option.bind_some, length, taken, onward]
  rfl

/-! ### Words -/

theorem toWordEnd_mark (marked : isRightMark c = true) (rounds : Nat) (isCall : Bool)
    (before behind : Text) :
    toWordEnd (rounds + 1) isCall (between before (c :: behind)) =
      some (isCall, between before (c :: behind)) := by
  rw [toWordEnd, peek_between, List.head?_cons]
  simp only [Option.bind_eq_bind, Option.bind_some, if_pos marked]
  rfl

theorem toWordEnd_plain (unmarked : isRightMark c = false) (plain : c ≠ '[') (rounds : Nat)
    (isCall : Bool) (before behind : Text) :
    toWordEnd (rounds + 1) isCall (between before (c :: behind)) =
      toWordEnd rounds isCall (between (before ++ [c]) behind) := by
  rw [toWordEnd, peek_between, List.head?_cons]
  simp only [Option.bind_eq_bind, Option.bind_some, unmarked, if_neg plain, bump_cons]
  rfl

theorem toWordEnd_call (rounds : Nat) (isCall : Bool) (before behind : Text) :
    toWordEnd (rounds + 1) isCall (between before ('[' :: behind)) =
      toWordEnd rounds true (between (before ++ '[' :: (run (· != ']') behind).1)
        (run (· != ']') behind).2) := by
  have unmarked : isRightMark '[' = false := by decide
  rw [toWordEnd, peek_between, List.head?_cons]
  simp only [Option.bind_eq_bind, Option.bind_some, unmarked, takeWhile_between]
  rfl

/-- What has been passed of a word stays, and so does whether there has been a `[`. -/
theorem toWordEnd_between {rounds : Nat} (enough : ahead.length < rounds) (isCall : Bool)
    (before : Text) :
    toWordEnd rounds isCall (between before ahead) =
      some (isCall || (wordFrom false ahead).1.contains '[',
        between (before ++ (wordFrom false ahead).1) (wordFrom false ahead).2) := by
  induction rounds generalizing isCall before ahead with
  | zero => cases enough
  | succ rounds ih =>
      cases ahead with
      | nil =>
          rw [toWordEnd, peek_between]
          simp [wordFrom]
      | cons c rest =>
          have fewer : rest.length < rounds := Nat.lt_of_succ_lt_succ enough
          cases marked : isRightMark c with
          | true =>
              rw [toWordEnd_mark marked]
              simp [wordFrom, marked]
          | false =>
              by_cases opens : c = '['
              · subst opens
                have inside := (run_suffix (· != ']') rest).length_le
                rw [toWordEnd_call, ih (Nat.lt_of_le_of_lt inside fewer)]
                simp [wordFrom, marked, wordFrom_true]
              · rw [toWordEnd_plain marked opens, ih fewer]
                have outside : (c == '[') = false := beq_false_of_ne opens
                simp [wordFrom, marked, outside, Ne.symm opens]

theorem word_between (before ahead : Text) :
    (between before ahead).word =
      some (((Cursor.word ahead).1, (Cursor.word ahead).1.isCall),
        between (before ++ (Cursor.word ahead).1.text) (Cursor.word ahead).2) := by
  have cut := Text.slice?_append before (wordFrom false ahead).1 (wordFrom false ahead).2
  rw [wordFrom_split] at cut
  have whole : (between before ahead).text = before ++ ahead := rfl
  have enough : ahead.length < (between before ahead).text.length + 1 := by
    rw [whole, List.length_append]
    omega
  unfold Place.word
  simp only [toWordEnd_between enough, Option.bind_eq_bind, Option.bind_some]
  have ends : (between (before ++ (wordFrom false ahead).1) (wordFrom false ahead).2).offset =
      Text.bytes (before ++ (wordFrom false ahead).1) := rfl
  have starts : (between before ahead).offset = Text.bytes before := rfl
  rw [ends, starts, whole, cut]
  rfl

/-! ### Attribute tests -/

/-- The name of a test is cut off before the character that ends it, and the pattern behind that
character, if it is a colon. -/
theorem attrTest_between (before ahead : Text) :
    (between before ahead).attrTest =
      match attrTest? ahead with
      | some ((name, pattern), behind) =>
        some (some (name, pattern), between (before ++ (name ++ ':' :: pattern)) behind)
      | none => some (none, between before ahead) := by
  have ends : (fun c => !(c != '.' && isRightMark c)) = fun c => c == '.' || !isRightMark c := by
    funext c
    rw [Bool.not_and, bne, Bool.not_not]
  obtain ⟨split, -, -⟩ := run_spec (fun c => c == '.' || !isRightMark c) ahead
  have length : Text.offsetOf (fun c => c != '.' && isRightMark c) ahead =
      Text.bytes (run (fun c => c == '.' || !isRightMark c) ahead).1 := by
    rw [Text.offsetOf_eq, ends]
    rfl
  unfold Place.attrTest attrTest?
  generalize run (fun c => c == '.' || !isRightMark c) ahead = first at split length ⊢
  obtain ⟨name, behind⟩ := first
  subst split
  simp only [rest_between, Option.bind_eq_bind, Option.bind_some, length, Text.fromByte?_append,
    Text.upToByte?_append]
  cases behind with
  | nil => rfl
  | cons c later =>
      by_cases colon : c = ':'
      · subst colon
        have onward : (between before (name ++ ':' :: later)).forward (Text.bytes name + 1) =
            between (before ++ (name ++ [':'])) later := by
          have passed := forward_between before (name ++ [':']) later
          rwa [List.append_assoc, Text.bytes_append] at passed
        rw [onward, takeWhile_between]
        simp [eat?]
      · simp [eat?, colon]

/-! ## Runs of calls -/

/-- What a call passes over, by what it answers.  A token is the text that is passed over to read
it, and a test is read with the colon between its name and its pattern.  Blanks, the rest of a text
and a given mark are passed over without being part of an answer. -/
inductive PassesOver : Call → Answer → (passed behind : Text) → Prop where
  | peek (behind : Text) : PassesOver .peek (.char behind.head?) [] behind
  | bump (c : Char) (behind : Text) : PassesOver .bump (.char (some c)) [c] behind
  | bumpNothing : PassesOver .bump (.char none) [] []
  | atEnd (behind : Text) : PassesOver .atEnd (.bool behind.isEmpty) [] behind
  | skipToEnd (passed : Text) : PassesOver .skipToEnd .nothing passed []
  | skipBlanks {passed : Text} (blank : ∀ c ∈ passed, Text.isBlank c = true) (behind : Text) :
      PassesOver .skipBlanks .nothing passed behind
  | leftMarks (marks behind : Text) : PassesOver .leftMarks (.text marks) marks behind
  | rightMarks (marks behind : Text) : PassesOver .rightMarks (.text marks) marks behind
  | word (word : Word) (behind : Text) : PassesOver .word (.word word) word.text behind
  | reference (name behind : Text) : PassesOver .reference (.text name) name behind
  | digits (digits behind : Text) : PassesOver .digits (.text digits) digits behind
  | attrTest (name pattern behind : Text) :
      PassesOver .attrTest (.attrTest (some (name, pattern))) (name ++ ':' :: pattern) behind
  | noAttrTest (behind : Text) : PassesOver .attrTest (.attrTest none) [] behind
  | eat (mark : Char) (behind : Text) : PassesOver (.eat mark) (.bool true) [mark] behind
  | eatNothing (mark : Char) (behind : Text) : PassesOver (.eat mark) (.bool false) [] behind

/-- A call at a place between characters ends at one, and answers as it does for what is ahead. -/
structure Step (before ahead : Text) (next : Call) (answer : Answer) (passed behind : Text) :
    Prop where
  split : passed ++ behind = ahead
  takes : PassesOver next answer passed behind
  placed : (between before ahead).call next = some (answer, between (before ++ passed) behind)
  answers : Cursor.call ahead next = (answer, behind)

theorem Step.stay {next : Call} {answer : Answer} (takes : PassesOver next answer [] ahead)
    (placed : (between before ahead).call next = some (answer, between before ahead))
    (answers : Cursor.call ahead next = (answer, ahead)) :
    Step before ahead next answer [] ahead :=
  ⟨rfl, takes, by rw [List.append_nil]; exact placed, answers⟩

theorem call_between (before ahead : Text) (next : Call) :
    ∃ answer passed behind, Step before ahead next answer passed behind := by
  have split (test : Char → Bool) : (run test ahead).1 ++ (run test ahead).2 = ahead :=
    (run_spec test ahead).1
  cases next with
  | peek =>
      refine ⟨_, _, _, .stay (.peek ahead) ?_ rfl⟩
      simp only [Place.call, peek_between]
      rfl
  | bump =>
      cases ahead with
      | nil =>
          refine ⟨_, _, _, .stay .bumpNothing ?_ rfl⟩
          simp only [Place.call, bump_nil]
          rfl
      | cons c behind =>
          refine ⟨_, _, _, rfl, .bump c behind, ?_, rfl⟩
          simp only [Place.call, bump_cons]
          rfl
  | atEnd =>
      refine ⟨_, _, _, .stay (.atEnd ahead) ?_ rfl⟩
      simp only [Place.call, atEnd_between]
      rfl
  | skipToEnd =>
      refine ⟨_, _, _, List.append_nil ahead, .skipToEnd ahead, ?_, rfl⟩
      simp only [Place.call, skipToEnd_between]
      rfl
  | skipBlanks =>
      refine ⟨_, _, _, split Text.isBlank, .skipBlanks (run_spec Text.isBlank ahead).2.1 _, ?_, rfl⟩
      simp only [Place.call, Place.skipBlanks, takeWhile_between]
      rfl
  | leftMarks =>
      refine ⟨_, _, _, split isLeftMark, .leftMarks _ _, ?_, rfl⟩
      simp only [Place.call, Place.leftMarks, takeWhile_between]
      rfl
  | rightMarks =>
      refine ⟨_, _, _, split isRightMark, .rightMarks _ _, ?_, rfl⟩
      simp only [Place.call, Place.rightMarks, takeWhile_between]
      rfl
  | word =>
      refine ⟨_, _, _, wordFrom_split false ahead, .word _ _, ?_, rfl⟩
      simp only [Place.call, word_between]
      rfl
  | reference =>
      refine ⟨_, _, _, split fun c => !isRightMark c, .reference _ _, ?_, rfl⟩
      simp only [Place.call, Place.reference, takeWhile_between]
      rfl
  | digits =>
      refine ⟨_, _, _, split Text.isDigit, .digits _ _, ?_, rfl⟩
      simp only [Place.call, Place.digits, takeWhile_between]
      rfl
  | attrTest =>
      have placed := attrTest_between before ahead
      cases reads : attrTest? ahead with
      | none =>
          rw [reads] at placed
          refine ⟨_, _, _, .stay (.noAttrTest ahead) ?_ (by rw [Cursor.call, reads])⟩
          simp only [Place.call, placed]
          rfl
      | some found =>
          obtain ⟨⟨name, pattern⟩, behind⟩ := found
          rw [reads] at placed
          obtain ⟨rfl, -, -⟩ := attrTest?_eq_some reads
          refine ⟨_, _, _, List.append_assoc .., .attrTest name pattern behind, ?_,
            by rw [Cursor.call, reads]⟩
          simp only [Place.call, placed]
          rfl
  | eat mark =>
      cases eats : eat? mark ahead with
      | none =>
          refine ⟨_, _, _, .stay (.eatNothing mark ahead) ?_ (by rw [Cursor.call, eats])⟩
          simp only [Place.call, eat_none eats]
          rfl
      | some behind =>
          obtain rfl := eat?_eq_some.mp eats
          refine ⟨_, _, _, rfl, .eat mark behind, ?_, by rw [Cursor.call, eats]⟩
          simp only [Place.call, eat_cons]
          rfl

/-- A run of calls from between two texts.  Each call goes on from what those before it have passed
over. -/
inductive Runs : (before ahead : Text) → List Call → List (Answer × Place) → Prop where
  | done (before ahead : Text) : Runs before ahead [] []
  | call {before passed behind : Text} {next : Call} {answer : Answer} {later : List Call}
      {steps : List (Answer × Place)} (takes : PassesOver next answer passed behind)
      (onward : Runs (before ++ passed) behind later steps) :
      Runs before (passed ++ behind) (next :: later)
        ((answer, between (before ++ passed) behind) :: steps)

/-- Every sequence of calls has a run, and the calls answer as they do for what is ahead. -/
theorem callAll_between (before ahead : Text) (calls : List Call) :
    ∃ steps, (between before ahead).callAll calls = some steps ∧ Runs before ahead calls steps ∧
      steps.map (fun (answer, place) => (answer, place.rest)) =
        (Cursor.callAll ahead calls).map fun (answer, behind) => (answer, some behind) := by
  induction calls generalizing before ahead with
  | nil => exact ⟨[], rfl, .done before ahead, rfl⟩
  | cons next later ih =>
      obtain ⟨answer, passed, behind, rfl, takes, placed, answers⟩ := call_between before ahead next
      obtain ⟨steps, called, runs, same⟩ := ih (before ++ passed) behind
      refine ⟨(answer, between (before ++ passed) behind) :: steps, ?_, .call takes runs, ?_⟩
      · simp [Place.callAll, placed, called]
      · simp [Cursor.callAll, answers, rest_between, same]

section Runs

variable {calls : List Call} {steps : List (Answer × Place)}

/-- A run stays in its text, does not go back, and is between characters after each call. -/
theorem Runs.onward (runs : Runs before ahead calls steps) :
    ∀ step ∈ steps, ∃ passed behind, passed ++ behind = ahead ∧
      step.2 = between (before ++ passed) behind := by
  induction runs with
  | done => simp
  | @call before passed behind _ _ _ _ _ onward ih =>
      rintro step (_ | ⟨_, member⟩)
      · exact ⟨passed, behind, rfl, rfl⟩
      · obtain ⟨more, rest, rfl, placed⟩ := ih step member
        exact ⟨passed ++ more, rest, List.append_assoc .., by rw [placed, List.append_assoc]⟩

theorem Runs.monotone (runs : Runs before ahead calls steps) :
    (steps.map fun step => step.2.offset).Pairwise (· ≤ ·) := by
  induction runs with
  | done => exact .nil
  | @call before passed behind _ _ _ _ _ onward ih =>
      refine .cons ?_ ih
      intro offset member
      obtain ⟨step, taken, rfl⟩ := List.mem_map.mp member
      obtain ⟨more, rest, -, placed⟩ := onward.onward step taken
      rw [placed]
      simp [between]

end Runs

end Place
end WorldLocks
