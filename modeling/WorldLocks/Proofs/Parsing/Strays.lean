import WorldLocks.Proofs.Parsing.Readers
import WorldLocks.Proofs.Parsing.Tests

/-! Stray closing marks, in texts of digits, blanks, operators and brackets.  A closing mark without
an opening one before it is passed over like a blank where an operator is expected.  Where an
operand is expected it stands for an operand that says nothing, so that a further operand behind it
ends the lock. -/

set_option autoImplicit false

namespace WorldLocks
namespace LockExpr

open Cursor

/-! ## Strays -/

/-- Digits, blanks, operators and brackets. -/
def isBare (c : Char) : Bool :=
  Text.isDigit c || c == ' ' || c == '&' || c == '|' || c == '!' || c == '(' || c == ')'

def Bare (text : Text) : Prop := ∀ c ∈ text, isBare c = true

instance (text : Text) : Decidable (Bare text) := List.decidableBAll (isBare · = true) text

def startsOperand (c : Char) : Bool := Text.isDigit c || c == '!' || c == '('

/-- Whether an operand comes next behind blanks and closing marks. -/
def operandNext (ahead : Text) : Bool := (beforeOperator false ahead).head?.any startsOperand

/-- A text with a blank in the place of every closing mark that no opening mark is left for.  The
first argument is how many opening marks are. -/
def blankStrays : (opened : Nat) → Text → Text
  | _, [] => []
  | opened, '(' :: rest => '(' :: blankStrays (opened + 1) rest
  | 0, ')' :: rest => ' ' :: blankStrays 0 rest
  | opened + 1, ')' :: rest => ')' :: blankStrays opened rest
  | opened, c :: rest => c :: blankStrays opened rest

/-- A text up to the first stray closing mark that stands in the place of an operand and has an
operand behind it.  The second argument is whether an operand is expected. -/
def upToBlocked : (opened : Nat) → (awaits : Bool) → Text → Text
  | _, _, [] => []
  | opened, _, '(' :: rest => '(' :: upToBlocked (opened + 1) true rest
  | 0, awaits, ')' :: rest =>
    if awaits && operandNext rest then [] else ')' :: upToBlocked 0 awaits rest
  | opened + 1, _, ')' :: rest => ')' :: upToBlocked opened false rest
  | opened, awaits, c :: rest =>
    c :: upToBlocked opened (if c = ' ' then awaits else c = '&' ∨ c = '|' ∨ c = '!') rest

/-- What is left of a text, with its strays blanked. -/
def settled (opened : Nat) (awaits : Bool) (text : Text) : Text :=
  blankStrays opened (upToBlocked opened awaits text)

variable {opened : Nat} {awaits : Bool} {c : Char} {rest text : Text}

@[simp] theorem settled_nil : settled opened awaits [] = [] := rfl

@[simp] theorem settled_open :
    settled opened awaits ('(' :: rest) = '(' :: settled (opened + 1) true rest := rfl

@[simp] theorem settled_close :
    settled (opened + 1) awaits (')' :: rest) = ')' :: settled opened false rest := rfl

theorem settled_blocked (blocked : operandNext rest = true) :
    settled 0 true (')' :: rest) = [] := by
  simp [settled, upToBlocked, blocked, blankStrays]

theorem settled_stray (free : (awaits && operandNext rest) = false) :
    settled 0 awaits (')' :: rest) = ' ' :: settled 0 awaits rest := by
  simp [settled, upToBlocked, free, blankStrays]

theorem settled_cons (notOpen : c ≠ '(') (notClose : c ≠ ')') :
    settled opened awaits (c :: rest) =
      c :: settled opened (if c = ' ' then awaits else c = '&' ∨ c = '|' ∨ c = '!') rest := by
  simp [settled, upToBlocked, blankStrays, notClose]

@[simp] theorem settled_blank :
    settled opened awaits (' ' :: rest) = ' ' :: settled opened awaits rest :=
  settled_cons (by decide) (by decide)

theorem settled_operator (operator : c = '&' ∨ c = '|' ∨ c = '!') :
    settled opened awaits (c :: rest) = c :: settled opened true rest := by
  rcases operator with rfl | rfl | rfl <;> exact settled_cons (by decide) (by decide)

theorem settled_digits {digits : Text} (present : digits ≠ [])
    (all : ∀ c ∈ digits, Text.isDigit c = true) :
    settled opened awaits (digits ++ rest) = digits ++ settled opened false rest := by
  induction digits generalizing awaits with
  | nil => exact absurd rfl present
  | cons c digits ih =>
      obtain ⟨digit, later⟩ := List.forall_mem_cons.mp all
      have plain : c ≠ '(' ∧ c ≠ ')' ∧ c ≠ ' ' ∧ c ≠ '&' ∧ c ≠ '|' ∧ c ≠ '!' := by
        refine ⟨?_, ?_, ?_, ?_, ?_, ?_⟩ <;> rintro rfl <;> revert digit <;> decide
      obtain ⟨notOpen, notClose, notBlank, notAnd, notOr, notNot⟩ := plain
      rw [List.cons_append, settled_cons notOpen notClose]
      cases digits with
      | nil => simp [notBlank, notAnd, notOr, notNot]
      | cons d digits =>
          rw [ih (List.cons_ne_nil d digits) later]
          rfl

/-- What is not a closing mark stays in its place. -/
theorem exists_settled_cons (stays : c ≠ ')') (opened : Nat) (awaits : Bool) (rest : Text) :
    ∃ later, settled opened awaits (c :: rest) = c :: later := by
  by_cases opens : c = '('
  · exact ⟨_, opens ▸ settled_open⟩
  · exact ⟨_, settled_cons opens stays⟩

/-! ## Blanks -/

theorem cases_of_isBare (bare : isBare c = true) :
    c = ' ' ∨ c = ')' ∨ (c = '&' ∨ c = '|') ∨ startsOperand c = true := by
  simp only [isBare, startsOperand, Bool.or_eq_true, beq_iff_eq] at bare ⊢
  tauto

theorem isBlank_of_startsOperand (starts : startsOperand c = true) : Text.isBlank c = false := by
  simp only [startsOperand, Bool.or_eq_true, beq_iff_eq] at starts
  rcases starts with (digit | rfl) | rfl
  · exact Text.isBlank_of_isDigit digit
  · decide
  · decide

theorem endsPattern_of_startsOperand (starts : startsOperand c = true) : endsPattern c = false := by
  refine Bool.eq_false_iff.mpr fun ends => ?_
  simp only [endsPattern, Bool.or_eq_true, beq_iff_eq] at ends
  rcases ends with (rfl | rfl) | rfl <;> revert starts <;> decide

theorem isBlank_of_isBare (bare : isBare c = true) (filled : c ≠ ' ') : Text.isBlank c = false := by
  rcases cases_of_isBare bare with blank | rfl | (rfl | rfl) | starts
  · exact absurd blank filled
  · decide
  · decide
  · decide
  · exact isBlank_of_startsOperand starts

theorem beforeOperator_cons {inGroup : Bool} (solid : Text.isBlank c = false)
    (stops : c = ')' → inGroup = true) : beforeOperator inGroup (c :: rest) = c :: rest := by
  unfold beforeOperator
  rw [List.dropWhile_cons_of_neg]
  cases inGroup <;> simp_all

/-- What stands before an operator is passed over alike. -/
theorem beforeOperator_settled (bare : Bare text) :
    beforeOperator (decide (0 < opened)) (settled opened false text) =
      settled opened false (beforeOperator (decide (0 < opened)) text) := by
  induction text with
  | nil => rfl
  | cons c rest ih =>
      obtain ⟨here, later⟩ := List.forall_mem_cons.mp bare
      by_cases blank : c = ' '
      · rw [blank, settled_blank]
        exact ih later
      · have solid := isBlank_of_isBare here blank
        by_cases stray : c = ')' ∧ opened = 0
        · obtain ⟨rfl, rfl⟩ := stray
          rw [settled_stray rfl]
          exact ih later
        · have stops : c = ')' → decide (0 < opened) = true := by
            intro closes
            have inside : opened ≠ 0 := fun outside => stray ⟨closes, outside⟩
            simpa using Nat.pos_of_ne_zero inside
          rw [beforeOperator_cons solid stops]
          by_cases closes : c = ')'
          · obtain ⟨inside, rfl⟩ : ∃ inside, opened = inside + 1 :=
              Nat.exists_eq_succ_of_ne_zero fun outside => stray ⟨closes, outside⟩
            rw [closes, settled_close]
            exact beforeOperator_cons (by decide) fun _ => by simp
          · obtain ⟨behind, stays⟩ := exists_settled_cons closes opened false rest
            rw [stays, beforeOperator_cons solid fun closing => absurd closing closes]

theorem beforeOperator_beforeOperator (inGroup : Bool) (text : Text) :
    beforeOperator inGroup (beforeOperator inGroup text) = beforeOperator inGroup text :=
  List.dropWhile_idempotent _ _

theorem beforeOperator_true (text : Text) : beforeOperator true text = skipBlanks text := by
  simp [beforeOperator, skipBlanks, Text.trimStart]

theorem Bare.suffix {behind : Text} (bare : Bare text) (suffix : behind <:+ text) : Bare behind :=
  fun c member => bare c (suffix.subset member)

/-- Where an operand is expected and none comes, strays are passed over like blanks. -/
theorem skipBlanks_settled_free (bare : Bare text) (free : operandNext text = false) :
    skipBlanks (settled 0 true text) = settled 0 false (beforeOperator false text) := by
  induction text with
  | nil => rfl
  | cons c rest ih =>
      obtain ⟨here, later⟩ := List.forall_mem_cons.mp bare
      rcases cases_of_isBare here with rfl | rfl | operator | starts
      · rw [settled_blank]
        exact ih later free
      · have stays : operandNext rest = false := free
        rw [settled_stray (by simp [stays])]
        exact ih later stays
      · have solid : Text.isBlank c = false := by rcases operator with rfl | rfl <;> decide
        have apart : c ≠ ')' := by rcases operator with rfl | rfl <;> decide
        have marks : c = '&' ∨ c = '|' ∨ c = '!' := operator.imp_right .inl
        rw [beforeOperator_cons solid (fun closes => absurd closes apart), settled_operator marks,
          settled_operator marks]
        exact Text.trimStart_of_head (by simpa using solid)
      · have next : operandNext (c :: rest) = true := by
          unfold operandNext
          rw [beforeOperator_cons (isBlank_of_startsOperand starts)]
          · simpa using starts
          · rintro rfl
            revert starts
            decide
        rw [next] at free
        cases free

theorem skipBlanks_settled (bare : Bare text) :
    skipBlanks (settled opened awaits text) =
      skipBlanks (settled opened awaits (skipBlanks text)) := by
  induction text with
  | nil => rfl
  | cons c rest ih =>
      obtain ⟨here, later⟩ := List.forall_mem_cons.mp bare
      by_cases blank : c = ' '
      · rw [blank, settled_blank]
        exact ih later
      · have solid := isBlank_of_isBare here blank
        rw [show skipBlanks (c :: rest) = c :: rest from
          Text.trimStart_of_head (by simpa using solid)]

/-! ## Operands that say nothing -/

theorem readAtom_skipBlanks (nesting : Nat) (inGroup : Bool) (ahead : Text) :
    readAtom nesting inGroup (skipBlanks ahead) = readAtom nesting inGroup ahead := by
  unfold readAtom
  rw [skipBlanks_skipBlanks]

/-- Where nothing can be read there is an empty name. -/
theorem readAtom_nameless {ahead : Text} (ended : Ended (skipBlanks ahead)) (nesting : Nat)
    (inGroup : Bool) :
    readAtom nesting inGroup ahead = (.ref .any [], skipBlanks ahead) := by
  have marks : ∀ c ∈ (skipBlanks ahead).head?, isRightMark c = true :=
    fun c head => isRightMark_of_endsPattern (ended c head)
  have noDigit : (peek (skipBlanks ahead)).any Text.isDigit = false := by
    refine Bool.eq_false_iff.mpr fun present => ?_
    obtain ⟨c, head, digit⟩ := (Option.any_eq_true _ _).mp present
    have marked := marks c head
    rw [isRightMark_of_isDigit digit] at marked
    cases marked
  have noTest : attrTest? ([] ++ skipBlanks ahead) = none := attrTest?_eq_none (by simp) ended
  have noName : readName ([] ++ skipBlanks ahead) = ([], skipBlanks ahead) :=
    readName_append (by simp) marks
  rw [List.nil_append] at noTest noName
  rw [readAtom_bare nesting inGroup fun c head => isLeftMark_of_endsPattern (ended c head)]
  unfold readSubject
  simp only [noDigit, noTest, noName, Bool.false_eq_true, if_false]

/-! ## Reading both texts -/

/-- Whether a lock goes no further where a reader has stopped. -/
def Over (opened : Nat) (rest : Text) : Prop :=
  ∀ c ∈ (beforeOperator (decide (0 < opened)) rest).head?, endsPattern c = false

/-- How what a reader leaves of two texts goes together: the other one is settled, operators being
next, or both are over. -/
def Exits (opened : Nat) (rest other : Text) : Prop :=
  beforeOperator (decide (0 < opened)) other =
      settled opened false (beforeOperator (decide (0 < opened)) rest) ∨
    Over opened rest ∧ Over opened other

/-- Whether a reader makes the same of a text before and after it is settled. -/
def Settles (opened : Nat) (reader : Reader) : Prop :=
  ∀ text, Bare text → (reader (settled opened true text)).1 = (reader text).1 ∧
    Exits opened (reader text).2 (reader (settled opened true text)).2

theorem Exits.of_settled (bare : Bare rest) : Exits opened rest (settled opened false rest) :=
  .inl (beforeOperator_settled bare)

theorem Over.nil : Over opened [] := by simp [Over, beforeOperator]

theorem Exits.nil : Exits opened [] [] := .inl rfl

theorem Over.beforeOperator (stopped : Over opened rest) :
    Over opened (beforeOperator (decide (0 < opened)) rest) := by
  unfold Over
  rw [beforeOperator_beforeOperator]
  exact stopped

theorem Exits.beforeOperator {other : Text} (exits : Exits opened rest other) :
    Exits opened (beforeOperator (decide (0 < opened)) rest)
      (LockExpr.beforeOperator (decide (0 < opened)) other) := by
  rcases exits with alive | ⟨stopped, stoppedOther⟩
  · left
    rw [beforeOperator_beforeOperator, beforeOperator_beforeOperator, alive]
  · exact .inr ⟨stopped.beforeOperator, stoppedOther.beforeOperator⟩

theorem over_of_startsOperand (starts : startsOperand c = true) : Over opened (c :: rest) := by
  have apart : c ≠ ')' := by
    rintro rfl
    revert starts
    decide
  unfold Over
  rw [beforeOperator_cons (isBlank_of_startsOperand starts) fun closes => absurd closes apart]
  simpa using endsPattern_of_startsOperand starts

/-! ### Operands -/

theorem isDigit_settled (stops : ∀ c ∈ rest.head?, Text.isDigit c = false) :
    ∀ c ∈ (settled opened false rest).head?, Text.isDigit c = false := by
  cases rest with
  | nil => simp
  | cons c rest =>
      by_cases closes : c = ')'
      · subst closes
        cases opened with
        | zero =>
            rw [settled_stray rfl]
            simpa using (by decide : Text.isDigit ' ' = false)
        | succ opened =>
            rw [settled_close]
            simpa using (by decide : Text.isDigit ')' = false)
      · obtain ⟨later, stays⟩ := exists_settled_cons closes opened false rest
        rw [stays]
        exact stops

theorem readAtom_digits (digit : Text.isDigit c = true) (bare : Bare (c :: rest)) (nesting : Nat)
    (inGroup : Bool) :
    (readAtom nesting inGroup (settled opened awaits (c :: rest))).1 =
        (readAtom nesting inGroup (c :: rest)).1 ∧
      Exits opened (readAtom nesting inGroup (c :: rest)).2
        (readAtom nesting inGroup (settled opened awaits (c :: rest))).2 := by
  obtain ⟨split, all, stops⟩ := run_spec Text.isDigit (c :: rest)
  have present : (run Text.isDigit (c :: rest)).1 ≠ [] := by simp [run, digit]
  generalize (run Text.isDigit (c :: rest)).1 = digits at split all present
  generalize (run Text.isDigit (c :: rest)).2 = behind at split stops
  rw [← split] at bare ⊢
  have bareBehind : Bare behind := bare.suffix (List.suffix_append _ _)
  have reads (stop : Text) (stops : ∀ c ∈ stop.head?, Text.isDigit c = false) :
      readAtom nesting inGroup (digits ++ stop) = (.number (Text.leadingInt digits), stop) := by
    rw [readAtom_bare, readSubject_digits .any present all stops]
    obtain ⟨first, later, rfl⟩ := List.exists_cons_of_ne_nil present
    have digit := all first List.mem_cons_self
    rw [show skipBlanks (first :: later ++ stop) = first :: later ++ stop from
      Text.trimStart_of_head (by simpa using Text.isBlank_of_isDigit digit)]
    simpa using isLeftMark_of_isDigit digit
  rw [settled_digits present all, reads behind stops, reads _ (isDigit_settled stops)]
  exact ⟨rfl, .of_settled bareBehind⟩

/-! ### Chains -/

section Chains

variable {reader : Reader} {operator : Char} {inGroup : Bool} {ahead next : Text}

theorem readTerms_ends
    (ends : eat? operator (beforeOperator inGroup (reader ahead).2) = none) (bound : Nat) :
    readTerms operator inGroup reader bound ahead =
      ([(reader ahead).1], beforeOperator inGroup (reader ahead).2) := by
  unfold readTerms
  dsimp only
  rw [ends]
  cases bound <;> rfl

theorem readTerms_goesOn
    (goesOn : eat? operator (beforeOperator inGroup (reader ahead).2) = some next) (bound : Nat) :
    readTerms operator inGroup reader (bound + 1) ahead =
      ((reader ahead).1 :: (readTerms operator inGroup reader bound next).1,
        (readTerms operator inGroup reader bound next).2) := by
  conv_lhs => unfold readTerms
  dsimp only
  rw [goesOn]

/-- An operator that a chain goes on with lies within the text that the chain is read from. -/
theorem length_lt_of_goesOn (reads : Reads reader)
    (goesOn : eat? operator (beforeOperator inGroup (reader ahead).2) = some next) :
    next.length < ahead.length := by
  have within := (beforeOperator_suffix inGroup _).trans (reads ahead).suffix
  rw [eat?_eq_some.mp goesOn] at within
  exact within.length_le

/-- A chain ends where its last term ends, and its operator does not come next. -/
theorem readTerms_stops (reads : Reads reader) {bound : Nat} (enough : ahead.length ≤ bound) :
    ∃ last, (readTerms operator inGroup reader bound ahead).2 =
        beforeOperator inGroup (reader last).2 ∧
      eat? operator (beforeOperator inGroup (reader last).2) = none := by
  induction length : ahead.length using Nat.strongRecOn generalizing ahead bound with
  | ind _ ih =>
      subst length
      cases goesOn : eat? operator (beforeOperator inGroup (reader ahead).2) with
      | none => exact ⟨ahead, congrArg Prod.snd (readTerms_ends goesOn bound), goesOn⟩
      | some next =>
          have shorter := length_lt_of_goesOn reads goesOn
          obtain ⟨fewer, rfl⟩ : ∃ fewer, bound = fewer + 1 :=
            Nat.exists_eq_succ_of_ne_zero (by omega)
          rw [readTerms_goesOn goesOn]
          exact ih next.length shorter (by omega) rfl

theorem eat?_settled (marks : operator = '&' ∨ operator = '|') :
    eat? operator (settled opened false rest) =
      (eat? operator rest).map (settled opened true) := by
  have apart : ' ' ≠ operator ∧ ')' ≠ operator := by rcases marks with rfl | rfl <;> decide
  cases rest with
  | nil => rfl
  | cons c rest =>
      by_cases here : c = operator
      · rw [here, settled_operator (marks.imp_right .inl)]
        simp [eat?]
      · by_cases closes : c = ')'
        · subst closes
          cases opened with
          | zero =>
              rw [settled_stray rfl]
              simp [eat?, apart]
          | succ opened => simp [eat?, apart]
        · obtain ⟨later, stays⟩ := exists_settled_cons closes opened false rest
          rw [stays]
          simp [eat?, here]

theorem Over.eat?_eq_none (stopped : Over opened rest) (marks : operator = '&' ∨ operator = '|') :
    eat? operator (LockExpr.beforeOperator (decide (0 < opened)) rest) = none := by
  have ends : endsPattern operator = true := by rcases marks with rfl | rfl <;> decide
  cases goesOn : eat? operator (LockExpr.beforeOperator (decide (0 < opened)) rest) with
  | none => rfl
  | some next =>
      unfold Over at stopped
      rw [eat?_eq_some.mp goesOn] at stopped
      have goes := stopped operator rfl
      rw [ends] at goes
      cases goes

/-- Both texts are read as chains of the same terms. -/
theorem readTerms_settles (settles : Settles opened reader) (reads : Reads reader)
    (marks : operator = '&' ∨ operator = '|') {bound other : Nat} (bare : Bare text)
    (enough : text.length ≤ bound) (enoughOther : (settled opened true text).length ≤ other) :
    (readTerms operator (decide (0 < opened)) reader other (settled opened true text)).1 =
        (readTerms operator (decide (0 < opened)) reader bound text).1 ∧
      Exits opened (readTerms operator (decide (0 < opened)) reader bound text).2
        (readTerms operator (decide (0 < opened)) reader other (settled opened true text)).2 := by
  induction length : text.length using Nat.strongRecOn generalizing text bound other with
  | ind _ ih =>
      subst length
      obtain ⟨same, exits⟩ := settles text bare
      have left := exits.beforeOperator
      have eats : eat? operator (LockExpr.beforeOperator (decide (0 < opened))
            (reader (settled opened true text)).2) =
          (eat? operator (LockExpr.beforeOperator (decide (0 < opened)) (reader text).2)).map
            (settled opened true) := by
        rcases exits with alive | ⟨stopped, stoppedOther⟩
        · rw [alive, eat?_settled marks]
        · rw [stopped.eat?_eq_none marks, stoppedOther.eat?_eq_none marks]
          rfl
      cases goesOn : eat? operator
        (LockExpr.beforeOperator (decide (0 < opened)) (reader text).2) with
      | none =>
          rw [goesOn] at eats
          rw [readTerms_ends goesOn, readTerms_ends eats]
          exact ⟨congrArg (fun tree => [tree]) same, left⟩
      | some next =>
          rw [goesOn] at eats
          have shorter := length_lt_of_goesOn reads goesOn
          have shorterOther := length_lt_of_goesOn reads eats
          obtain ⟨fewer, rfl⟩ : ∃ fewer, bound = fewer + 1 :=
            Nat.exists_eq_succ_of_ne_zero (by omega)
          obtain ⟨fewerOther, rfl⟩ : ∃ fewer, other = fewer + 1 :=
            Nat.exists_eq_succ_of_ne_zero (by omega)
          have bareNext : Bare next :=
            bare.suffix ((suffix_of_eat? goesOn).trans
              ((beforeOperator_suffix _ _).trans (reads text).suffix))
          obtain ⟨later, exits⟩ := ih next.length shorter bareNext
            (show next.length ≤ fewer by omega)
            (show (settled opened true next).length ≤ fewerOther by omega) rfl
          rw [readTerms_goesOn goesOn, readTerms_goesOn eats]
          exact ⟨congrArg₂ List.cons same later, exits⟩

theorem Settles.readChain (settles : Settles opened reader) (reads : Reads reader)
    (marks : operator = '&' ∨ operator = '|') (combine : List LockExpr → LockExpr) :
    Settles opened (readChain operator combine (decide (0 < opened)) reader) := by
  intro text bare
  obtain ⟨same, exits⟩ := readTerms_settles settles reads marks bare le_rfl le_rfl
  exact ⟨congrArg (chain combine) same, exits⟩

theorem Settles.readAlternatives (settles : Settles opened reader) (reads : Reads reader) :
    Settles opened (readAlternatives (decide (0 < opened)) reader) :=
  (settles.readChain reads (.inl rfl) .and).readChain
    (readChain_reads reads '&' (fun _ => by simp [tests]) _) (.inr rfl) .or

/-- Alternatives end where no operator comes next. -/
theorem readAlternatives_stops (inGroup : Bool) (reads : Reads reader) (text : Text) :
    beforeOperator inGroup (readAlternatives inGroup reader text).2 =
        (readAlternatives inGroup reader text).2 ∧
      ∀ operator, operator = '&' ∨ operator = '|' →
        eat? operator (readAlternatives inGroup reader text).2 = none := by
  have conditions : Reads (readChain '&' .and inGroup reader) :=
    readChain_reads reads '&' (fun _ => by simp [tests]) inGroup
  obtain ⟨last, ends, noOr⟩ := readTerms_stops conditions (le_refl text.length)
  obtain ⟨lastTerm, endsTerm, noAnd⟩ := readTerms_stops reads (le_refl last.length)
  change (readAlternatives inGroup reader text).2 = _ at ends
  change (readChain '&' .and inGroup reader last).2 = _ at endsTerm
  rw [endsTerm, beforeOperator_beforeOperator] at ends noOr
  rw [ends, beforeOperator_beforeOperator]
  refine ⟨rfl, fun operator marks => ?_⟩
  rcases marks with rfl | rfl
  · exact noAnd
  · exact noOr

end Chains

/-! ### Groups -/

theorem eat_of_ne (apart : c ≠ ')') : eat ')' (c :: rest) = c :: rest := by
  simp [eat, eat?, apart]

theorem head_solid (stops : skipBlanks rest = rest) : ∀ c ∈ rest.head?, Text.isBlank c = false := by
  intro c head
  rw [← stops] at head
  exact head?_dropWhile head

theorem over_eat (stops : skipBlanks rest = rest)
    (ends : ∀ c ∈ rest.head?, endsPattern c = false) : Over opened (eat ')' rest) := by
  have solid := head_solid stops
  cases rest with
  | nil => exact .nil
  | cons c rest =>
      have apart : c ≠ ')' := by
        rintro rfl
        exact absurd (ends ')' rfl) (by decide)
      unfold Over
      rw [eat_of_ne apart, beforeOperator_cons (solid c rfl) fun closes => absurd closes apart]
      exact ends

/-- A closing mark ends a group, and what cannot end it ends the lock. -/
theorem Exits.close {other : Text} (exits : Exits (opened + 1) rest other) (bare : Bare rest)
    (stops : skipBlanks rest = rest) (stopsOther : skipBlanks other = other)
    (noOperator : ∀ operator, operator = '&' ∨ operator = '|' → eat? operator rest = none) :
    Exits opened (eat ')' rest) (eat ')' other) := by
  have inside : decide (0 < opened + 1) = true := by simp
  unfold Exits Over at exits
  rw [inside, beforeOperator_true, beforeOperator_true, stops, stopsOther] at exits
  rcases exits with rfl | ⟨stopped, stoppedOther⟩
  · cases rest with
    | nil => exact .nil
    | cons c rest =>
        obtain ⟨here, later⟩ := List.forall_mem_cons.mp bare
        rcases cases_of_isBare here with rfl | rfl | operator | starts
        · exact absurd (head_solid stops ' ' rfl) (by decide)
        · exact .of_settled later
        · have goesOn := noOperator c operator
          simp [eat?] at goesOn
        · have apart : c ≠ ')' := by
            rintro rfl
            revert starts
            decide
          obtain ⟨behind, stays⟩ := exists_settled_cons apart (opened + 1) false rest
          rw [stays, eat_of_ne apart, eat_of_ne apart]
          exact .inr ⟨over_of_startsOperand starts, over_of_startsOperand starts⟩
  · exact .inr ⟨over_eat stops stopped, over_eat stopsOther stoppedOther⟩

/-! ### Atoms -/

section Atoms

variable {nesting : Nat} {inGroup : Bool}

/-- Whether an atom is read alike from a text before and after it is settled. -/
def SettlesAt (opened nesting : Nat) (inGroup : Bool) (text : Text) : Prop :=
  (readAtom nesting inGroup (settled opened true text)).1 = (readAtom nesting inGroup text).1 ∧
    Exits opened (readAtom nesting inGroup text).2
      (readAtom nesting inGroup (settled opened true text)).2

theorem endsPattern_eq {c : Char} : endsPattern c = true ↔ (c = '&' ∨ c = '|') ∨ c = ')' := by
  simp [endsPattern]

/-- Where neither an operand nor a stray comes next, it does not matter whether an operand is
expected. -/
theorem exists_settled_of_ends (ends : endsPattern c = true) (stays : ¬ (c = ')' ∧ opened = 0))
    (rest : Text) : ∃ later, ∀ awaits, settled opened awaits (c :: rest) = c :: later := by
  rcases endsPattern_eq.mp ends with operator | rfl
  · exact ⟨_, fun awaits => settled_operator (operator.imp_right .inl)⟩
  · obtain ⟨inside, rfl⟩ : ∃ inside, opened = inside + 1 :=
      Nat.exists_eq_succ_of_ne_zero fun outside => stays ⟨rfl, outside⟩
    exact ⟨_, fun awaits => settled_close⟩

theorem ended_settled_free (bare : Bare rest) (free : operandNext rest = false) :
    Ended (settled 0 false (beforeOperator false rest)) := by
  have bareNext := bare.suffix (beforeOperator_suffix false rest)
  have stops : ∀ c ∈ (beforeOperator false rest).head?, (Text.isBlank c || c == ')') = false :=
    fun c head => by simpa using head?_dropWhile head
  unfold operandNext at free
  cases next : beforeOperator false rest with
  | nil => exact ended_nil
  | cons c later =>
      rw [next] at bareNext stops free
      have solid := stops c rfl
      rcases cases_of_isBare (bareNext c List.mem_cons_self) with rfl | rfl | operator | starts
      · exact absurd solid (by decide)
      · exact absurd solid (by decide)
      · rw [settled_operator (operator.imp_right .inl)]
        intro d head
        obtain rfl : c = d := Option.some.inj head
        exact endsPattern_eq.mpr (.inl operator)
      · simp [starts] at free

/-- Where no operand comes next, both texts have an empty name in its place. -/
theorem settlesAt_nameless (ended : Ended text) (bare : Bare text) :
    SettlesAt opened nesting inGroup text := by
  have nameless (ahead : Text) (ended : Ended (skipBlanks ahead)) :
      readAtom nesting inGroup ahead = (.ref .any [], skipBlanks ahead) :=
    readAtom_nameless ended nesting inGroup
  have here := skipBlanks_of_ended ended
  unfold SettlesAt
  rw [nameless text (by rwa [here]), here]
  cases text with
  | nil =>
      rw [settled_nil, nameless [] ended_nil]
      exact ⟨rfl, .nil⟩
  | cons c rest =>
      have bareRest : Bare rest := bare.suffix (List.suffix_cons c rest)
      by_cases stray : c = ')' ∧ opened = 0
      · obtain ⟨rfl, rfl⟩ := stray
        cases blocked : operandNext rest with
        | true =>
            rw [settled_blocked blocked, nameless [] ended_nil]
            refine ⟨rfl, .inr ⟨fun c head => ?_, .nil⟩⟩
            have next : c ∈ (beforeOperator false rest).head? := head
            rw [operandNext, next] at blocked
            exact endsPattern_of_startsOperand blocked
        | false =>
            have left : skipBlanks (settled 0 true (')' :: rest)) =
                settled 0 false (beforeOperator false rest) := by
              rw [settled_stray (by simp [blocked])]
              exact skipBlanks_settled_free bareRest blocked
            have endedOther := ended_settled_free bareRest blocked
            rw [nameless _ (by rwa [left]), left]
            have bareNext := bareRest.suffix (beforeOperator_suffix false rest)
            exact ⟨rfl, .inl ((beforeOperator_settled bareNext).trans
              (congrArg (settled 0 false) (beforeOperator_beforeOperator false rest)))⟩
      · obtain ⟨later, both⟩ := exists_settled_of_ends (ended c rfl) stray rest
        have exits : Exits opened (c :: rest) (settled opened false (c :: rest)) :=
          .of_settled bare
        have endedOther : Ended (c :: later) := fun d head => ended d head
        rw [both] at exits ⊢
        have stays := skipBlanks_of_ended endedOther
        rw [nameless _ (by rwa [stays]), stays]
        exact ⟨rfl, exits⟩

/-- What is left to show of an atom is how it reads opening brackets and negations. -/
theorem settles_of_nesting (reads : ∀ c rest, c = '(' ∨ c = '!' → Bare rest →
    SettlesAt opened nesting inGroup (c :: rest)) : Settles opened (readAtom nesting inGroup) := by
  intro text bare
  rw [← readAtom_skipBlanks nesting inGroup (settled opened true text), skipBlanks_settled bare,
    readAtom_skipBlanks, ← readAtom_skipBlanks nesting inGroup text]
  have solid : ∀ c ∈ (skipBlanks text).head?, Text.isBlank c = false :=
    fun c head => head?_dropWhile head
  replace bare := bare.suffix (skipBlanks_suffix text)
  generalize skipBlanks text = text at bare solid
  cases text with
  | nil => exact settlesAt_nameless ended_nil bare
  | cons c rest =>
      obtain ⟨here, later⟩ := List.forall_mem_cons.mp bare
      have ended (ends : endsPattern c = true) : Ended (c :: rest) := by simpa [Ended] using ends
      rcases cases_of_isBare here with rfl | rfl | operator | starts
      · exact absurd (solid ' ' rfl) (by decide)
      · exact settlesAt_nameless (ended rfl) bare
      · exact settlesAt_nameless (ended (endsPattern_eq.mpr (.inl operator))) bare
      · simp only [startsOperand, Bool.or_eq_true, beq_iff_eq] at starts
        rcases starts with (digit | negates) | opens
        · exact readAtom_digits digit bare nesting inGroup
        · exact reads c rest (.inr negates) later
        · exact reads c rest (.inl opens) later

end Atoms

theorem readAtom_settles (nesting opened : Nat) :
    Settles opened (readAtom nesting (decide (0 < opened))) := by
  induction nesting generalizing opened with
  | zero =>
      refine settles_of_nesting fun c rest marks _ => ?_
      have solid : Text.isBlank c = false := by rcases marks with rfl | rfl <;> decide
      have exhausted (later : Text) :
          readAtom 0 (decide (0 < opened)) (c :: later) = (.tooDeep, []) := by
        have stays : skipBlanks (c :: later) = c :: later :=
          Text.trimStart_of_head (by simpa using solid)
        rcases marks with rfl | rfl
        · exact readAtom_exhausted (.inl stays) _
        · exact readAtom_exhausted (.inr stays) _
      have apart : c ≠ ')' := by rcases marks with rfl | rfl <;> decide
      obtain ⟨later, stays⟩ := exists_settled_cons apart opened true rest
      unfold SettlesAt
      rw [stays, exhausted, exhausted]
      exact ⟨rfl, .nil⟩
  | succ nesting ih =>
      refine settles_of_nesting fun c rest marks bare => ?_
      unfold SettlesAt
      rcases marks with rfl | rfl
      · have inside : Settles (opened + 1) (readAlternatives true (readAtom nesting true)) := by
          simpa using (ih (opened + 1)).readAlternatives (readAtom_reads _ _)
        have reads := readAtom_reads nesting true
        obtain ⟨same, exits⟩ := inside rest bare
        obtain ⟨ends, noOperator⟩ := readAlternatives_stops true reads rest
        obtain ⟨endsOther, -⟩ := readAlternatives_stops true reads (settled (opened + 1) true rest)
        rw [beforeOperator_true] at ends endsOther
        have left := (readAlternatives_reads reads true rest).suffix
        rw [settled_open, readAtom_group rfl, readAtom_group rfl, ends, endsOther]
        exact ⟨same, exits.close (bare.suffix left) ends endsOther noOperator⟩
      · obtain ⟨same, exits⟩ := ih opened rest bare
        rw [settled_operator (.inr (.inr rfl)), readAtom_not rfl, readAtom_not rfl]
        exact ⟨congrArg LockExpr.not same, exits⟩

/-! ## Locks -/

/-- A stray closing mark counts as a blank, unless it stands in the place of an operand and has an
operand behind it: there the lock ends. -/
theorem parse_blankStrays (bare : ∀ c ∈ text, isBare c = true) :
    parse (blankStrays 0 (upToBlocked 0 true text)) = parse text ∧
      (upToBlocked 0 true text = text → parse (blankStrays 0 text) = parse text) := by
  have same : parse (settled 0 true text) = parse text :=
    ((readAtom_settles maxNesting 0).readAlternatives (readAtom_reads _ _) text bare).1
  exact ⟨same, fun free => by rwa [settled, free] at same⟩

/-- A closing mark behind a group and one before an operator count as blanks, but one before a
number leaves nothing of it. -/
theorem parse_blankStrays_number :
    parse "(1)) &2".toList = parse "(1)  &2".toList ∧
      parse "1|)&2".toList = parse "1| &2".toList ∧
        parse ")1".toList = parse [] ∧ (parse []).render ≠ (parse " 1".toList).render := by
  have behind : Bare "(1)) &2".toList := by decide
  have before : Bare "1|)&2".toList := by decide
  have blocked : Bare ")1".toList := by decide
  exact ⟨((parse_blankStrays behind).2 (by decide)).symm,
    ((parse_blankStrays before).2 (by decide)).symm, (parse_blankStrays blocked).1.symm,
    by decide +kernel⟩

end LockExpr
end WorldLocks
