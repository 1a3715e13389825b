import WorldLocks.Proofs.Parsing.Readers
import WorldLocks.Proofs.Parsing.Trees

/-! A tree is read back from its text.  The text may have blanks before, between and behind its
tokens.  The induction is on the tree: what reads a node is followed through the node's own tokens,
and what reads the nodes below it leaves the rest of the text where the node's next token starts. -/

set_option autoImplicit false

namespace WorldLocks

open Cursor

/-! ## Spaced tokens -/

/-- A text that consists of tokens, with any blanks before, between and behind them. -/
inductive Spaced : List Text → Text → Prop where
  | ends {blanks : Text} (blank : Text.Blank blanks) : Spaced [] blanks
  | token {blanks token later : Text} {tokens : List Text} (blank : Text.Blank blanks)
      (spaced : Spaced tokens later) : Spaced (token :: tokens) (blanks ++ (token ++ later))

namespace Spaced

variable {later : List Text} {token name text : Text}

theorem compact : ∀ tokens : List Text, Spaced tokens tokens.flatten
  | [] => .ends Text.blank_nil
  | _ :: later => .token Text.blank_nil (compact later)

theorem blank (spaced : Spaced [] text) : Text.Blank text := by
  cases spaced with
  | ends blank => exact blank

/-- A text can be split at any of its tokens. -/
theorem split (first : List Text) (spaced : Spaced (first ++ token :: later) text) :
    ∃ before behind, text = before ++ (token ++ behind) ∧ Spaced first before ∧
      Spaced later behind := by
  induction first generalizing text with
  | nil =>
      cases spaced with
      | token blank spaced => exact ⟨_, _, rfl, .ends blank, spaced⟩
  | cons head first ih =>
      cases spaced with
      | @token blanks _ _ _ blank spaced =>
          obtain ⟨before, behind, rfl, early, late⟩ := ih spaced
          exact ⟨blanks ++ (head ++ before), behind, by simp, .token blank early, late⟩

/-- At a mark, what is behind the text goes with what is behind the mark. -/
theorem split_mark {c : Char} (first : List Text) (spaced : Spaced (first ++ [c] :: later) text)
    (rest : Text) :
    ∃ before behind, text ++ rest = before ++ c :: (behind ++ rest) ∧ Spaced first before ∧
      Spaced later behind := by
  obtain ⟨before, behind, rfl, early, late⟩ := spaced.split first
  exact ⟨before, behind, by simp, early, late⟩

theorem of_empty {tokens : List Text} (spaced : Spaced ([] :: token :: tokens) text) :
    Spaced (token :: tokens) text := by
  cases spaced with
  | token first spaced =>
      cases spaced with
      | token second spaced =>
          rw [List.nil_append, ← List.append_assoc]
          refine .token (fun c member => ?_) spaced
          exact (List.mem_append.mp member).elim (first c) (second c)

/-! ### One token -/

theorem padded (spaced : Spaced [token] text) :
    ∃ before after, text = before ++ (token ++ after) ∧ Text.Blank before ∧ Text.Blank after := by
  obtain ⟨before, after, written, first, last⟩ := split [] spaced
  exact ⟨before, after, written, first.blank, last.blank⟩

theorem trim (spaced : Spaced [token] text) : Text.trim text = Text.trim token := by
  obtain ⟨before, after, rfl, first, last⟩ := spaced.padded
  exact Text.trim_padded first last token

theorem forall_mem {test : Char → Prop} (spaced : Spaced [token] text)
    (inside : ∀ c ∈ token, test c) (around : ∀ c, Text.isBlank c = true → test c) :
    ∀ c ∈ text, test c := by
  obtain ⟨before, after, rfl, first, last⟩ := spaced.padded
  intro c member
  rcases List.mem_append.mp member with early | member
  · exact around c (first c early)
  · rcases List.mem_append.mp member with here | late
    · exact inside c here
    · exact around c (last c late)

/-- A mark at the start is what is ahead once the blanks before it are passed over. -/
theorem skipBlanks_mark {c : Char} (solid : Text.isBlank c = false)
    (spaced : Spaced ([c] :: later) text) (rest : Text) :
    ∃ behind, skipBlanks (text ++ rest) = c :: (behind ++ rest) ∧ Spaced later behind := by
  cases spaced with
  | @token blanks _ behind _ blank spaced =>
      refine ⟨behind, ?_, spaced⟩
      rw [List.append_assoc, skipBlanks, Text.trimStart_blank_append blank]
      exact Text.trimStart_of_head (by simpa using solid)

/-- What is ahead of a name once the blanks before it are passed over starts as the name does, or as
what is behind it. -/
theorem head?_skipBlanks {rest : Text} (spaced : Spaced [name] text) (trimmed : Text.Trimmed name)
    (solid : ∀ c ∈ rest.head?, Text.isBlank c = false) {c : Char}
    (head : c ∈ (skipBlanks (text ++ rest)).head?) : c ∈ name.head? ∨ c ∈ rest.head? := by
  rw [skipBlanks, Text.trimStart_append solid, List.head?_append] at head
  rw [Text.head?_trimStart, spaced.trim, trimmed] at head
  cases name with
  | nil => exact .inr head
  | cons first later => exact .inl head

end Spaced

namespace LockExpr

variable {name pattern text rest : Text} {limit : Nat} {inGroup : Bool}

/-! ## Names and tests -/

theorem IsName.readName (is : IsName name) (spaced : Spaced [name] text)
    (stops : ∀ c ∈ rest.head?, isRightMark c = true) :
    LockExpr.readName (text ++ rest) = (name, rest) := by
  rw [readName_append (spaced.forall_mem is.unmarked fun _ => isRightMark_of_isBlank) stops,
    spaced.trim, is.trimmed]

theorem IsName.ended_stops (ended : Ended rest) : ∀ c ∈ rest.head?, isRightMark c = true :=
  fun c head => isRightMark_of_endsPattern (ended c head)

/-- A test is read with the blanks inside it, which are trimmed away later. -/
theorem attrTest?_spaced (named : IsAttrName name) (matched : IsPattern pattern)
    (spaced : Spaced [name, [':'], pattern] text) (ended : Ended rest) :
    ∃ rawName rawPattern,
      attrTest? (skipBlanks (text ++ rest)) = some ((rawName, rawPattern), rest) ∧
        Text.trim rawName = name ∧ Text.trim rawPattern = pattern := by
  obtain ⟨before, behind, written, spacedName, spacedPattern⟩ := spaced.split_mark [name] rest
  have unmarked := spacedName.forall_mem named.unmarked fun c blank => by
    simp [isRightMark_of_isBlank blank]
  have unended := spacedPattern.forall_mem matched.unended fun _ => endsPattern_of_isBlank
  refine ⟨Text.trimStart before, behind, ?_, ?_, spacedPattern.trim.trans matched.trimmed⟩
  · have starts : skipBlanks (text ++ rest) = Text.trimStart before ++ ':' :: (behind ++ rest) := by
      rw [written]
      exact Text.trimStart_append (by simp [show Text.isBlank ':' = false from by decide]) before
    rw [starts]
    exact attrTest?_append (fun c member => unmarked c ((List.dropWhile_sublist _).subset member))
      unended ended
  · have again : Text.trim (Text.trimStart before) = Text.trim before := by
      unfold Text.trim Text.trimStart
      rw [List.dropWhile_idempotent]
    rw [again, spacedName.trim, named.trimmed]

/-! ## Leaves -/

/-- No digit is next after the blanks, so that no number is read. -/
theorem peek_skipBlanks_spaced (spaced : Spaced [name] text) (trimmed : Text.Trimmed name)
    (undigited : name.begins Text.isDigit = false)
    (stops : ∀ c ∈ rest.head?, isRightMark c = true) :
    (skipBlanks (text ++ rest)).peek.any Text.isDigit = false := by
  have solid : ∀ c ∈ rest.head?, Text.isBlank c = false :=
    fun c head => isBlank_of_isRightMark (stops c head)
  refine Text.begins_eq_false_iff.mpr fun c head => ?_
  rcases spaced.head?_skipBlanks trimmed solid head with named | behind
  · exact Text.begins_eq_false_iff.mp undigited c named
  · refine Bool.eq_false_iff.mpr fun digit => ?_
    have marked := stops c behind
    rw [isRightMark_of_isDigit digit] at marked
    cases marked

theorem ReadsAs.of_eq {reader : Reader} {tree : LockExpr} {ahead behind : Text}
    (reads : reader ahead = (tree, behind)) (leaves : skipBlanks behind = rest) :
    ReadsAs reader tree ahead rest := ⟨behind, reads, leaves⟩

theorem readSubject_number {value : Int} (kind : RefKind) (notNegative : 0 ≤ value)
    (fits : value ≤ Text.maxWord64) (spaced : Spaced [Text.ofInt value] text) (ended : Ended rest) :
    ReadsAs (readSubject kind) (.number value) (text ++ rest) rest := by
  obtain ⟨n, rfl⟩ := Int.eq_ofNat_of_zero_le notNegative
  obtain ⟨before, after, rfl, first, last⟩ := spaced.padded
  have stops : ∀ c ∈ (after ++ rest).head?, Text.isDigit c = false := by
    intro c head
    refine Bool.eq_false_iff.mpr fun digit => ?_
    have solid := Text.isBlank_of_isDigit digit
    have unmarked := isRightMark_of_isDigit digit
    cases after with
    | nil => simp [isRightMark_of_endsPattern (ended c head)] at unmarked
    | cons d later =>
        obtain rfl : d = c := by simpa using head
        simp [last d List.mem_cons_self] at solid
  refine ⟨after ++ rest, ?_, ?_⟩
  · change readSubject kind (before ++ (Text.ofNat n ++ after) ++ rest) = _
    rw [List.append_assoc, List.append_assoc, readSubject_blank_append first,
      readSubject_digits kind (Text.ofNat_ne_nil n) (fun _ => Text.isDigit_of_mem_ofNat) stops,
      Text.leadingInt_ofNat (Int.ofNat_le.mp fits)]
  · rw [skipBlanks, Text.trimStart_blank_append last]
    exact skipBlanks_of_ended ended

theorem trimmed_ofInt {value : Int} (notNegative : 0 ≤ value) :
    Text.Trimmed (Text.ofInt value) := by
  obtain ⟨n, rfl⟩ := Int.eq_ofNat_of_zero_le notNegative
  exact Text.trim_of_no_blanks fun _ member =>
    Text.isBlank_of_isDigit (Text.isDigit_of_mem_ofNat member)

theorem begins_ofInt {value : Int} (notNegative : 0 ≤ value) :
    (Text.ofInt value).begins isLeftMark = false := by
  obtain ⟨n, rfl⟩ := Int.eq_ofNat_of_zero_le notNegative
  refine Text.begins_eq_false_iff.mpr fun c head => ?_
  exact isLeftMark_of_isDigit (Text.isDigit_of_mem_ofNat (List.mem_of_mem_head? head))

theorem readSubject_test (kind : RefKind) (named : IsAttrName name) (matched : IsPattern pattern)
    (undigited : name.begins Text.isDigit = false)
    (spaced : Spaced [name, [':'], pattern] text) (ended : Ended rest) :
    ReadsAs (readSubject kind) (.attrTest name pattern) (text ++ rest) rest := by
  obtain ⟨rawName, rawPattern, reads, trimName, trimPattern⟩ :=
    attrTest?_spaced named matched spaced ended
  have digitless : (skipBlanks (text ++ rest)).peek.any Text.isDigit = false := by
    obtain ⟨before, behind, written, spacedName, -⟩ := spaced.split_mark [name] rest
    rw [written]
    exact peek_skipBlanks_spaced spacedName named.trimmed undigited (by simp [isRightMark])
  refine ⟨rest, ?_, skipBlanks_of_ended ended⟩
  unfold readSubject
  simp only [digitless, reads, trimName, trimPattern]
  rfl

theorem readSubject_name (kind : RefKind) (named : IsName name)
    (undigited : name.begins Text.isDigit = false) (spaced : Spaced [name] text)
    (ended : Ended rest) : ReadsAs (readSubject kind) (.ref kind name) (text ++ rest) rest := by
  have stops := IsName.ended_stops ended
  have unmarked := spaced.forall_mem named.unmarked fun _ => isRightMark_of_isBlank
  have starts : skipBlanks (text ++ rest) = Text.trimStart text ++ rest :=
    Text.trimStart_append (fun c head => isBlank_of_isRightMark (stops c head)) text
  have digitless := peek_skipBlanks_spaced spaced named.trimmed undigited stops
  have testless : attrTest? (skipBlanks (text ++ rest)) = none := by
    rw [starts]
    refine attrTest?_eq_none (fun c member => ?_) ended
    simp [unmarked c ((List.dropWhile_sublist _).subset member)]
  have reads : LockExpr.readName (skipBlanks (text ++ rest)) = (name, rest) := by
    rw [← named.readName spaced stops]
    unfold LockExpr.readName
    rw [skipBlanks_skipBlanks]
  refine ⟨rest, ?_, skipBlanks_of_ended ended⟩
  unfold readSubject
  simp only [digitless, testless, reads]
  rfl

/-- Without a mark before it, a leaf is read as soon as the blanks are passed over. -/
theorem readAtom_spaced_bare {tree : LockExpr} (spaced : Spaced [name] text)
    (trimmed : Text.Trimmed name) (bare : name.begins isLeftMark = false)
    (unmarked : ∀ c ∈ rest.head?, isLeftMark c = false)
    (stops : ∀ c ∈ rest.head?, isRightMark c = true) {left : Text}
    (reads : ReadsAs (readSubject .any) tree (text ++ rest) left) :
    ReadsAs (readAtom limit inGroup) tree (text ++ rest) left := by
  obtain ⟨behind, read, leaves⟩ := reads
  refine .of_eq ((readAtom_bare limit inGroup fun c head => ?_).trans read) leaves
  rcases spaced.head?_skipBlanks trimmed
    (fun c first => isBlank_of_isRightMark (stops c first)) head with here | behind
  · exact Text.begins_eq_false_iff.mp bare c here
  · exact unmarked c behind

/-! ### Indirections -/

theorem skipBlanks_blank_append (blank : Text.Blank text) (ended : Ended rest) :
    skipBlanks (text ++ rest) = rest := by
  rw [skipBlanks, Text.trimStart_blank_append blank]
  exact skipBlanks_of_ended ended

theorem readIndirect_spaced_name (named : IsName name) (bare : name.head? ≠ some '(')
    (spaced : Spaced [name] text) (ended : Ended rest) :
    ReadsAs readIndirect (.indirect name) (text ++ rest) rest := by
  have stops := IsName.ended_stops ended
  have unopened : eat? '(' (skipBlanks (text ++ rest)) = none := by
    refine Option.eq_none_iff_forall_ne_some.mpr fun inside opens => ?_
    have head : '(' ∈ (skipBlanks (text ++ rest)).head? := by simp [eat?_eq_some.mp opens]
    rcases spaced.head?_skipBlanks named.trimmed
      (fun c first => isBlank_of_isRightMark (stops c first)) head with here | behind
    · exact bare here
    · exact absurd (ended '(' behind) (by decide)
  refine .of_eq ?_ (skipBlanks_of_ended ended)
  rw [readIndirect_name unopened, named.readName spaced stops]

/-- Inside the parentheses of an indirection, the name is read up to the mark behind it. -/
theorem readName_before_mark {mark : Char} {later : List Text} (named : IsName name)
    (marks : isRightMark mark = true) (spaced : Spaced (name :: [mark] :: later) text)
    (rest : Text) :
    ∃ behind, LockExpr.readName (text ++ rest) = (name, mark :: (behind ++ rest)) ∧
      Spaced later behind := by
  obtain ⟨before, behind, written, spacedName, spacedLater⟩ := spaced.split_mark [name] rest
  refine ⟨behind, ?_, spacedLater⟩
  rw [written]
  exact named.readName spacedName (by simpa using marks)

theorem readIndirect_spaced_lock (named : IsName name)
    (spaced : Spaced [['('], name, [')']] text) (ended : Ended rest) :
    ReadsAs readIndirect (.indirectLock name) (text ++ rest) rest := by
  obtain ⟨inside, opens, spaced⟩ := spaced.skipBlanks_mark (by decide) rest
  obtain ⟨behind, names, spaced⟩ := readName_before_mark named (by decide) spaced rest
  exact .of_eq (readIndirect_lock opens names) (skipBlanks_blank_append spaced.blank ended)

theorem readIndirect_spaced_noTest (named : IsName name)
    (spaced : Spaced [['('], name, ['='], [')']] text) (ended : Ended rest) :
    ReadsAs readIndirect (.indirectAttr name none) (text ++ rest) rest := by
  obtain ⟨inside, opens, spaced⟩ := spaced.skipBlanks_mark (by decide) rest
  obtain ⟨condition, names, spaced⟩ := readName_before_mark named (by decide) spaced rest
  obtain ⟨behind, closes, spaced⟩ := spaced.skipBlanks_mark (by decide) rest
  exact .of_eq (readIndirect_noTest opens names closes)
    (skipBlanks_blank_append spaced.blank ended)

theorem readIndirect_spaced_test {target : Text} (targeted : IsName target)
    (named : IsAttrName name) (matched : IsPattern pattern)
    (spaced : Spaced [['('], target, ['='], name, [':'], pattern, [')']] text) (ended : Ended rest) :
    ReadsAs readIndirect (.indirectAttr target (some (name, pattern))) (text ++ rest) rest := by
  obtain ⟨inside, opens, spaced⟩ := spaced.skipBlanks_mark (by decide) rest
  obtain ⟨condition, names, spaced⟩ :=
    readName_before_mark targeted (by decide) spaced rest
  obtain ⟨test, behind, written, spacedTest, closed⟩ :=
    spaced.split_mark [name, [':'], pattern] rest
  have ended' : Ended (')' :: (behind ++ rest)) := by simp [Ended, endsPattern]
  obtain ⟨rawName, rawPattern, tests, rfl, rfl⟩ :=
    attrTest?_spaced named matched spacedTest ended'
  rw [← written] at tests
  exact .of_eq (readIndirect_test opens names tests) (skipBlanks_blank_append closed.blank ended)

/-! ## Groups -/

variable {terms : List LockExpr} {reader : Reader} {more : Text} {operator : Char}

/-- A reader reads each of some terms from its tokens, before the operator between them and before
the mark that closes their group. -/
def ReadsEach (reader : Reader) (operator : Char) (terms : List LockExpr) : Prop :=
  ∀ term ∈ terms, ∀ (text : Text) (c : Char) (later : Text), c = operator ∨ c = ')' →
    Spaced term.tokens text → ReadsAs reader term (text ++ c :: later) (c :: later)

theorem readTerms_spaced (opens : operator ≠ ')') {bound : Nat} (present : terms ≠ [])
    (reads : ReadsEach reader operator terms) (spaced : Spaced (tokensIn operator terms) text)
    (enough : (text ++ ')' :: more).length ≤ bound) :
    readTerms operator true reader bound (text ++ ')' :: more) = (terms, ')' :: more) := by
  induction terms generalizing text bound with
  | nil => exact absurd rfl present
  | cons term later ih =>
      have here := reads term List.mem_cons_self
      cases later with
      | nil =>
          rw [tokensIn] at spaced
          have ends : (')' :: more).head? ≠ some operator := by simpa using opens.symm
          exact readTerms_last (here text ')' more (.inr rfl) spaced) (by simp) ends bound
      | cons next others =>
          rw [tokensIn] at spaced
          obtain ⟨first, second, written, spacedFirst, spacedSecond⟩ :=
            spaced.split_mark _ (')' :: more)
          rw [written] at enough ⊢
          have step := here first operator (second ++ ')' :: more) (.inl rfl) spacedFirst
          -- The operator that is passed over pays for the turn.
          rw [List.length_append, List.length_cons] at enough
          obtain ⟨bound, rfl⟩ : ∃ fewer, bound = fewer + 1 := ⟨bound - 1, by omega⟩
          have shorter : (second ++ ')' :: more).length ≤ bound := by omega
          rw [readTerms_more step, ih (List.cons_ne_nil _ _)
            (fun term member => reads term (List.mem_cons_of_mem _ member)) spacedSecond shorter]

theorem chain_of_two {combine : List LockExpr → LockExpr} (two : 2 ≤ terms.length) :
    chain combine terms = combine terms := by
  match terms, two with
  | _ :: _ :: _, _ => rfl

theorem readChain_spaced (opens : operator ≠ ')') (combine : List LockExpr → LockExpr)
    (two : 2 ≤ terms.length) (reads : ReadsEach reader operator terms)
    (spaced : Spaced (tokensIn operator terms) text) (more : Text) :
    ReadsAs (readChain operator combine true reader) (combine terms) (text ++ ')' :: more)
      (')' :: more) := by
  have present : terms ≠ [] := by
    rintro rfl
    cases two
  refine .of_eq ?_ (skipBlanks_of_ended (by simp [Ended, endsPattern]))
  unfold readChain
  rw [readTerms_spaced opens present reads spaced (Nat.le_refl _)]
  exact congrArg (fun tree => (tree, ')' :: more)) (chain_of_two two)

/-- What reads an atom reads each term before an operator. -/
theorem readsEach_of_ended (ends : endsPattern operator = true)
    (reads : ∀ term ∈ terms, ∀ {text rest : Text}, Spaced term.tokens text → Ended rest →
      ReadsAs reader term (text ++ rest) rest) : ReadsEach reader operator terms := by
  intro term member text c later next spaced
  refine reads term member spaced ?_
  rcases next with rfl | rfl
  · simpa [Ended] using ends
  · simp [Ended, endsPattern]

theorem readAlternatives_or (two : 2 ≤ terms.length) (reads : ReadsEach reader '|' terms)
    (spaced : Spaced (tokensIn '|' terms) text) (more : Text) :
    ReadsAs (readAlternatives true reader) (.or terms) (text ++ ')' :: more) (')' :: more) := by
  refine readChain_spaced (by decide) .or two (fun term member text c later next spaced => ?_)
    spaced more
  refine (reads term member text c later next spaced).readChain .and (by simp) ?_
  rcases next with rfl | rfl <;> simp

theorem readAlternatives_and (two : 2 ≤ terms.length) (reads : ReadsEach reader '&' terms)
    (spaced : Spaced (tokensIn '&' terms) text) (more : Text) :
    ReadsAs (readAlternatives true reader) (.and terms) (text ++ ')' :: more) (')' :: more) :=
  (readChain_spaced (by decide) .and two reads spaced more).readChain .or (by simp) (by simp)

theorem readAtom_spaced_group {tree : LockExpr} {inner : List Text}
    (reads : ∀ {text : Text} (more : Text), Spaced inner text →
      ReadsAs (readAlternatives true (readAtom limit true)) tree (text ++ ')' :: more)
        (')' :: more))
    (spaced : Spaced (['('] :: inner ++ [[')']]) text) (ended : Ended rest) :
    ReadsAs (readAtom (limit + 1) inGroup) tree (text ++ rest) rest := by
  obtain ⟨inside, opens, spaced⟩ := spaced.skipBlanks_mark (by decide) rest
  obtain ⟨terms, behind, written, spaced, closed⟩ := spaced.split_mark _ rest
  obtain ⟨left, read, closes⟩ := reads (behind ++ rest) spaced
  refine .of_eq ?_ (skipBlanks_blank_append closed.blank ended)
  rw [readAtom_group opens, written, read]
  dsimp only
  rw [closes]
  rfl

/-! ## Trees -/

/-- An operand is read back from its tokens, and what is behind them is left. -/
theorem readAtom_spaced {tree : LockExpr} (legible : Legible limit tree)
    (spaced : Spaced tree.tokens text) (ended : Ended rest) :
    ReadsAs (readAtom limit inGroup) tree (text ++ rest) rest := by
  induction tree generalizing limit inGroup text rest with
  | or terms ih =>
      have two : 2 ≤ terms.length := legible.tidy _ (mem_nodes_self _)
      obtain ⟨fewer, rfl⟩ := legible.exists_limit (by simp [nesting])
      have reads : ReadsEach (readAtom fewer true) '|' terms :=
        readsEach_of_ended (by decide) fun term member _ _ =>
          ih term member (legible.part (.or_term member))
      rw [tokens] at spaced
      exact readAtom_spaced_group (fun more spaced => readAlternatives_or two reads spaced more)
        spaced ended
  | and terms ih =>
      have two : 2 ≤ terms.length := legible.tidy _ (mem_nodes_self _)
      obtain ⟨fewer, rfl⟩ := legible.exists_limit (by simp [nesting])
      have reads : ReadsEach (readAtom fewer true) '&' terms :=
        readsEach_of_ended (by decide) fun term member _ _ =>
          ih term member (legible.part (.and_term member))
      rw [tokens] at spaced
      exact readAtom_spaced_group (fun more spaced => readAlternatives_and two reads spaced more)
        spaced ended
  | not inner ih =>
      obtain ⟨fewer, rfl⟩ := legible.exists_limit (by simp [nesting])
      rw [tokens] at spaced
      obtain ⟨inside, negates, spaced⟩ := spaced.skipBlanks_mark (by decide) rest
      obtain ⟨behind, read, leaves⟩ := ih (legible.part (.not_inner inner)) spaced ended
      refine .of_eq ?_ leaves
      rw [readAtom_not negates, read]
  | number value =>
      obtain ⟨notNegative, fits⟩ := legible.tidy _ (mem_nodes_self _)
      rw [tokens] at spaced
      exact readAtom_spaced_bare spaced (trimmed_ofInt notNegative) (begins_ofInt notNegative)
        (fun c head => isLeftMark_of_endsPattern (ended c head)) (IsName.ended_stops ended)
        (readSubject_number .any notNegative fits spaced ended)
  | attrTest name pattern =>
      obtain ⟨named, undigited, matched⟩ := legible.tidy _ (mem_nodes_self _)
      have bare := legible.unmarked name pattern (mem_nodes_self _)
      rw [tokens] at spaced
      have reads := readSubject_test .any named matched undigited spaced ended
      obtain ⟨before, behind, written, spacedName, -⟩ := spaced.split_mark [name] rest
      rw [written] at reads ⊢
      exact readAtom_spaced_bare spacedName named.trimmed bare (by simp [isLeftMark])
        (by simp [isRightMark]) reads
  | ref kind name =>
      obtain ⟨named, undigited, bare⟩ := legible.tidy _ (mem_nodes_self _)
      rw [tokens] at spaced
      cases kind with
      | is =>
          obtain ⟨inside, marked, spaced⟩ := spaced.skipBlanks_mark (by decide) rest
          obtain ⟨behind, read, leaves⟩ := readSubject_name .is named undigited spaced ended
          exact .of_eq ((readAtom_is marked limit inGroup).trans read) leaves
      | carries =>
          obtain ⟨inside, marked, spaced⟩ := spaced.skipBlanks_mark (by decide) rest
          obtain ⟨behind, read, leaves⟩ := readSubject_name .carries named undigited spaced ended
          exact .of_eq ((readAtom_carries marked limit inGroup).trans read) leaves
      | any =>
          have spaced : Spaced [name] text := spaced.of_empty
          exact readAtom_spaced_bare spaced named.trimmed (bare rfl)
            (fun c head => isLeftMark_of_endsPattern (ended c head)) (IsName.ended_stops ended)
            (readSubject_name .any named undigited spaced ended)
  | indirect name =>
      obtain ⟨named, bare⟩ := legible.tidy _ (mem_nodes_self _)
      rw [tokens] at spaced
      obtain ⟨inside, asks, spaced⟩ := spaced.skipBlanks_mark (by decide) rest
      obtain ⟨behind, read, leaves⟩ := readIndirect_spaced_name named bare spaced ended
      exact .of_eq ((readAtom_indirect asks limit inGroup).trans read) leaves
  | indirectLock name =>
      have named := legible.tidy _ (mem_nodes_self _)
      rw [tokens] at spaced
      obtain ⟨inside, asks, spaced⟩ := spaced.skipBlanks_mark (by decide) rest
      obtain ⟨behind, read, leaves⟩ := readIndirect_spaced_lock named spaced ended
      exact .of_eq ((readAtom_indirect asks limit inGroup).trans read) leaves
  | indirectAttr target test =>
      have tidy := legible.tidy _ (mem_nodes_self _)
      cases test with
      | none =>
          rw [tokens] at spaced
          obtain ⟨inside, asks, spaced⟩ := spaced.skipBlanks_mark (by decide) rest
          obtain ⟨behind, read, leaves⟩ := readIndirect_spaced_noTest tidy spaced ended
          exact .of_eq ((readAtom_indirect asks limit inGroup).trans read) leaves
      | some test =>
          obtain ⟨name, pattern⟩ := test
          obtain ⟨targeted, named, matched⟩ := tidy
          rw [tokens] at spaced
          obtain ⟨inside, asks, spaced⟩ := spaced.skipBlanks_mark (by decide) rest
          obtain ⟨behind, read, leaves⟩ :=
            readIndirect_spaced_test targeted named matched spaced ended
          exact .of_eq ((readAtom_indirect asks limit inGroup).trans read) leaves
  | tooDeep => exact absurd (mem_nodes_self _) legible.complete

/-- A tree is read back from its tokens, whatever blanks stand around them. -/
theorem parse_of_spaced {tree : LockExpr} (wellFormed : tree.WellFormed)
    (spaced : Spaced tree.tokens text) : parse text = tree := by
  have atom : ReadsAs (readAtom maxNesting false) tree (text ++ []) [] :=
    readAtom_spaced wellFormed spaced ended_nil
  rw [List.append_nil] at atom
  have conditions : ReadsAs (readChain '&' .and false (readAtom maxNesting false)) tree text [] :=
    atom.readChain .and (fun _ => rfl) (by simp)
  obtain ⟨behind, read, -⟩ :
      ReadsAs (readAlternatives false (readAtom maxNesting false)) tree text [] :=
    conditions.readChain .or (fun _ => rfl) (by simp)
  exact congrArg Prod.fst read

/-- A tree is read back from its canonical text. -/
theorem parse_render {tree : LockExpr} (wellFormed : tree.WellFormed) :
    parse tree.render = tree := by
  rw [← flatten_tokens]
  exact parse_of_spaced wellFormed (.compact _)

/-- The tokens of a tree make up its text, and with any blanks between them the tree is read back. -/
theorem parse_tokens (tree : LockExpr) (wellFormed : tree.WellFormed) :
    tree.tokens.flatten = tree.render ∧
      ∀ text, Spaced tree.tokens text → parse text = tree :=
  ⟨flatten_tokens tree, fun _ spaced => parse_of_spaced wellFormed spaced⟩

/-- `!(+me|sex:)` is read back with blanks around its marks and its empty pattern. -/
theorem parse_tokens_negation :
    let tree := LockExpr.not (.or [.ref .carries ['m', 'e'], .attrTest ['s', 'e', 'x'] []])
    let text := ['!', ' ', '(', '+', ' ', 'm', 'e', '|', ' ', 's', 'e', 'x', ':', ' ', ')']
    tree.WellFormed ∧ Spaced tree.tokens text ∧
      tree.render = ['!', '(', '+', 'm', 'e', '|', 's', 'e', 'x', ':', ')'] ∧ parse text = tree := by
  intro tree text
  have wellFormed : tree.WellFormed :=
    { tidy := by decide +kernel
      complete := by simp [tree, nodes, descendants, nodesIn]
      unmarked := by
        intro name pattern member
        obtain ⟨rfl, -⟩ : name = ['s', 'e', 'x'] ∧ pattern = [] := by
          simpa [tree, nodes, descendants, nodesIn] using member
        decide
      shallow := by decide +kernel }
  have nothing : Text.Blank [] := Text.blank_nil
  have single : Text.Blank [' '] := by decide
  have spaced : Spaced tree.tokens text :=
    .token nothing <| .token single <| .token nothing <| .token single <| .token nothing <|
      .token single <| .token nothing <| .token nothing <| .token single <| .ends nothing
  obtain ⟨written, reads⟩ := parse_tokens tree wellFormed
  exact ⟨wellFormed, spaced, written.symm, reads text spaced⟩

end LockExpr
end WorldLocks
