import WorldLocks.Proofs.Expansion
import WorldLocks.Proofs.Parsing.Readers
import WorldLocks.Proofs.Parsing.Trees
import WorldLocks.Proofs.Parts.Renaming

/-! The parts of a lock that is the text of a tree.  The compiler never builds a tree, but where it
looks a word up, the tree has the name of an object: the scan of the text goes through the tree from
left to right, and behind every node it stands where the next operator or mark is copied. -/

set_option autoImplicit false

namespace WorldLocks

open Cursor LockPart

/-! ## Words -/

namespace Phase

variable {phase : Phase} {word name pattern target attr rest : Text}

/-- A text without marks that would end it and without calls. -/
def IsPlain (text : Text) : Prop := ∀ c ∈ text, isRightMark c = false ∧ c ≠ '['

instance (text : Text) : Decidable (IsPlain text) :=
  List.decidableBAll (fun c => isRightMark c = false ∧ c ≠ '[') text

theorem wordFrom_append (plain : IsPlain word) (stops : Faces true rest) :
    wordFrom false (word ++ rest) = (word, rest) := by
  induction word with
  | nil =>
      cases rest with
      | nil => rfl
      | cons c rest =>
          have marked : isRightMark c = true := stops c (by simp)
          simp [wordFrom, marked]
  | cons c word ih =>
      obtain ⟨unmarked, noCall⟩ := plain c List.mem_cons_self
      have outside : (c == '[') = false := by simpa using noCall
      have later := ih fun d member => plain d (List.mem_cons_of_mem _ member)
      simp [wordFrom, unmarked, outside, later]

theorem word_append (plain : IsPlain word) (stops : Faces true rest) :
    Cursor.word (word ++ rest) = (⟨word⟩, rest) := by
  unfold Cursor.word
  rw [wordFrom_append plain stops]

theorem faces_cons {c : Char} (marked : isRightMark c = true) (rest : Text) :
    Faces true (c :: rest) := by simpa [Faces] using marked

theorem read_test (named : IsPlain name) (matched : IsPlain pattern) (stops : Faces true rest) :
    Subject.read (name ++ ':' :: (pattern ++ rest)) = (.test ⟨name⟩ ⟨pattern⟩, rest) := by
  have first := word_append named (faces_cons (c := ':') (by decide) (pattern ++ rest))
  have second := word_append matched stops
  unfold Subject.read
  simp only [first, second]

theorem read_dotted (targeted : IsPlain target) (named : IsPlain attr) (matched : IsPlain pattern)
    (stops : Faces true rest) :
    Subject.read (target ++ '.' :: (attr ++ ':' :: (pattern ++ rest))) =
      (.dotted ⟨target⟩ ⟨attr⟩ (some ⟨pattern⟩), rest) := by
  have first := word_append targeted
    (faces_cons (c := '.') (by decide) (attr ++ ':' :: (pattern ++ rest)))
  have second := word_append named (faces_cons (c := ':') (by decide) (pattern ++ rest))
  have third := word_append matched stops
  unfold Subject.read
  simp only [first, second, third, eat?, if_true]

theorem Opens.cut_eq_start (opens : phase.Opens) (faces : Faces false rest) (more : rest ≠ []) :
    cut phase rest = cut start rest := by
  rcases opens with rfl | rfl
  · rfl
  · exact cut_behind_of_faces faces more

/-- A word that stands alone names an object. -/
theorem cut_object (opens : phase.Opens) (plain : IsObjectWord word)
    (stops : ∀ c ∈ rest.head?, isRightMark c = true ∧ c ≠ ':' ∧ c ≠ '.') :
    cut phase (word ++ rest) = object word :: cut behind rest := by
  obtain ⟨c, later, rfl⟩ := List.exists_cons_of_ne_nil plain.ne_nil
  obtain ⟨left, right, -⟩ := plain.unmarked c List.mem_cons_self
  have inside : IsPlain (c :: later) := fun d member => (plain.unmarked d member).2
  have read : Subject.read (c :: later ++ rest) = (.plain ⟨c :: later⟩, rest) := by
    unfold Subject.read
    rw [word_append inside fun d head => (stops d head).1]
    cases rest with
    | nil => rfl
    | cons d rest =>
        obtain ⟨-, notColon, notDot⟩ := stops d (by simp)
        dsimp only
        split
        next same => exact absurd (List.cons.inj same).1 notColon
        next same => exact absurd (List.cons.inj same).1 notDot
        next => rfl
  rw [opens.cut_eq_start (by simpa [Faces] using right) (by simp),
    cut_subject_read (by simpa using left), read]
  exact congrArg (· ++ cut behind rest) plain.alone

end Phase

/-! ## Typed trees -/

namespace LockExpr

/-- What names an object in a lock that is typed. -/
structure IsObjectName (name : Text) : Prop where
  word : IsObjectWord name
  trimmed : Text.Trimmed name

/-- What names an attribute in a lock that is typed.  With a dot it is one of a named object. -/
structure IsTestName (name : Text) : Prop where
  trimmed : Text.Trimmed name
  unmarked : ∀ c ∈ name, (c == '.' || !isRightMark c) = true ∧ c ≠ '['
  bare : name.begins isLeftMark = false
  dotted : ∀ target attr, Text.splitOnce '.' name = some (target, attr) →
    IsObjectName target ∧ '.' ∉ attr

structure IsTestPattern (pattern : Text) : Prop where
  trimmed : Text.Trimmed pattern
  plain : Phase.IsPlain pattern

/-- What holds of every node of a lock that is typed: it names objects and attributes by words that
are cut as one word. -/
def Typeable : LockExpr → Prop
  | .or terms | .and terms => 2 ≤ terms.length
  | .not _ => True
  | .number _ | .tooDeep => False
  | .attrTest name pattern =>
    IsTestName name ∧ name.begins Text.isDigit = false ∧ IsTestPattern pattern
  | .ref _ name => IsObjectName name ∧ name.begins Text.isDigit = false
  | .indirect name | .indirectLock name | .indirectAttr name none => IsObjectName name
  | .indirectAttr target (some (name, pattern)) =>
    IsObjectName target ∧ IsTestName name ∧ IsTestPattern pattern

/-- A test without a name stands only where no mark before it swallows its colon: not behind an
operator, and not behind an equals sign. -/
def Named : LockExpr → Prop
  | .or terms | .and terms => ∀ pattern, .attrTest [] pattern ∉ terms.tail
  | .indirectAttr _ (some (name, _)) => name ≠ []
  | .not _ | .number _ | .attrTest .. | .ref .. | .indirect _ | .indirectLock _
  | .indirectAttr _ none | .tooDeep => True

namespace IsTestName

variable {name target attr : Text}

theorem plain_target (named : IsTestName name)
    (split : Text.splitOnce '.' name = some (target, attr)) :
    IsObjectName target ∧ Phase.IsPlain attr := by
  obtain ⟨word, dotless⟩ := named.dotted target attr split
  refine ⟨word, fun c member => ?_⟩
  have inside : c ∈ name := by
    rw [Text.splitOnce_eq_some split]
    simp [member]
  have apart : c ≠ '.' := fun same => dotless (same ▸ member)
  obtain ⟨unmarked, noCall⟩ := named.unmarked c inside
  exact ⟨by simpa [apart] using unmarked, noCall⟩

theorem plain (named : IsTestName name) (whole : Text.splitOnce '.' name = none) :
    Phase.IsPlain name := by
  intro c member
  have apart : c ≠ '.' := fun same => Text.not_mem_of_splitOnce whole (same ▸ member)
  obtain ⟨unmarked, noCall⟩ := named.unmarked c member
  exact ⟨by simpa [apart] using unmarked, noCall⟩

theorem head (named : IsTestName name) : ∀ c ∈ name.head?, isRightMark c = false := by
  intro c head
  cases split : Text.splitOnce '.' name with
  | none => exact (named.plain split c (List.mem_of_mem_head? head)).1
  | some parts =>
      obtain ⟨target, attr⟩ := parts
      obtain ⟨⟨⟨present, unmarked⟩, -⟩, -⟩ := named.plain_target split
      obtain ⟨first, later, rfl⟩ := List.exists_cons_of_ne_nil present
      rw [Text.splitOnce_eq_some split] at head
      obtain rfl : first = c := by simpa using head
      exact (unmarked first List.mem_cons_self).2.1

end IsTestName

/-! ## Parts -/

/-- The parts of a test, which holds the name of an object if its own name has a dot. -/
def testParts (name pattern : Text) : List LockPart :=
  match Text.splitOnce '.' name with
  | some (target, attr) => object target :: copy ('.' :: attr ++ ':' :: pattern)
  | none => copy (name ++ ':' :: pattern)

mutual

/-- The parts of the text of a tree. -/
def parts : LockExpr → List LockPart
  | .or terms => copied '(' :: partsIn '|' terms ++ [copied ')']
  | .and terms => copied '(' :: partsIn '&' terms ++ [copied ')']
  | .not inner => copied '!' :: parts inner
  | .number value => copy (Text.ofInt value)
  | .attrTest name pattern => testParts name pattern
  | .ref kind name => copy (refMark kind) ++ [object name]
  | .indirect name => [copied '@', object name]
  | .indirectLock name => [copied '@', copied '(', object name, copied ')']
  | .indirectAttr target (some (name, pattern)) =>
    [copied '@', copied '(', object target, copied '='] ++ testParts name pattern ++ [copied ')']
  | .indirectAttr target none => [copied '@', copied '(', object target, copied '=', copied ')']
  | .tooDeep => [copied '0']

def partsIn (operator : Char) : List LockExpr → List LockPart
  | [] => []
  | [term] => parts term
  | term :: next :: later => parts term ++ copied operator :: partsIn operator (next :: later)

end

/-! ## The scan of a tree -/

open Phase (cut start behind Faces IsPlain read_test read_dotted cut_object cut_subject_read cut_cons
  cut_behind_of_isRightMark next startNext)

variable {phase : Phase} {name pattern rest : Text}

theorem cut_test (opens : phase.Opens) (begins : phase = start ∨ name ≠ [])
    (named : IsTestName name) (matched : IsPlain pattern) (stops : Faces true rest) :
    cut phase (name ++ ':' :: (pattern ++ rest)) = testParts name pattern ++ cut behind rest := by
  have bare : ∀ c ∈ (name ++ ':' :: (pattern ++ rest)).head?, isLeftMark c = false := by
    cases name with
    | nil => simp [isLeftMark]
    | cons first later => exact Text.begins_eq_false_iff.mp named.bare
  have starts : cut phase (name ++ ':' :: (pattern ++ rest)) =
      cut start (name ++ ':' :: (pattern ++ rest)) := by
    rcases begins with rfl | present
    · rfl
    · refine opens.cut_eq_start (fun c head => ?_) (by simp)
      obtain ⟨first, later, rfl⟩ := List.exists_cons_of_ne_nil present
      exact named.head c (by simpa using head)
  rw [starts, cut_subject_read bare]
  unfold testParts
  cases split : Text.splitOnce '.' name with
  | none =>
      rw [read_test (named.plain split) matched stops]
      rfl
  | some halves =>
      obtain ⟨target, attr⟩ := halves
      obtain ⟨⟨word, -⟩, plain⟩ := named.plain_target split
      have written : name ++ ':' :: (pattern ++ rest) =
          target ++ '.' :: (attr ++ ':' :: (pattern ++ rest)) := by
        rw [Text.splitOnce_eq_some split]
        simp
      rw [written, read_dotted (fun c member => (word.unmarked c member).2) plain matched stops]
      rfl

theorem cut_mark (opens : phase.Opens) {c : Char} (left : isLeftMark c = true)
    (notRight : isRightMark c = false) (rest : Text) :
    cut phase (c :: rest) = copied c :: cut start rest := by
  rcases opens with rfl | rfl <;> simp [cut_cons, next, startNext, left, notRight]

/-- Behind an equals sign an object can be named, whether it belongs to what is before it or not. -/
theorem cut_equals (opens : phase.Opens) (rest : Text) :
    ∃ later : Phase, later.Opens ∧ cut phase ('=' :: rest) = copied '=' :: cut later rest := by
  rcases opens with rfl | rfl
  · exact ⟨start, .inl rfl, by simp [cut_cons, next, startNext, isLeftMark]⟩
  · exact ⟨behind, .inr rfl, by simp [cut_cons, next, isRightMark]⟩

/-- Whether a tree can be written where the scan stands. -/
def Admits (phase : Phase) (tree : LockExpr) : Prop :=
  phase = start ∨ phase = behind ∧ ∀ pattern, tree ≠ .attrTest [] pattern

theorem Admits.opens {tree : LockExpr} (admits : Admits phase tree) : phase.Opens :=
  admits.imp id And.left

theorem faces_of_ended (ended : Ended rest) : Faces true rest :=
  fun c head => isRightMark_of_endsPattern (ended c head)

theorem stops_of_ended (ended : Ended rest) :
    ∀ c ∈ rest.head?, isRightMark c = true ∧ c ≠ ':' ∧ c ≠ '.' := by
  refine fun c head => ⟨isRightMark_of_endsPattern (ended c head), ?_, ?_⟩ <;>
    exact fun same => absurd (ended c head) (by simp [same, endsPattern])

/-- Every node of a tree is typed as it has to be. -/
def AllTypeable (tree : LockExpr) : Prop := ∀ node ∈ tree.nodes, node.Typeable ∧ node.Named

theorem cut_renderTerms {operator : Char} (ends : endsPattern operator = true)
    {terms : List LockExpr} (present : terms ≠ [])
    (scans : ∀ term ∈ terms, ∀ {phase : Phase} {rest : Text}, Admits phase term → Ended rest →
      cut phase (term.render ++ rest) = term.parts ++ cut behind rest)
    (first : ∀ term ∈ terms.head?, Admits phase term)
    (named : ∀ pattern, .attrTest [] pattern ∉ terms.tail) (ended : Ended rest) :
    cut phase (renderTerms operator terms ++ rest) = partsIn operator terms ++ cut behind rest := by
  induction terms generalizing phase with
  | nil => exact absurd rfl present
  | cons term later ih =>
      obtain ⟨here, others⟩ := List.forall_mem_cons.mp scans
      cases later with
      | nil =>
          rw [renderTerms, partsIn]
          exact here (first term (by simp)) ended
      | cons next later =>
          have written : renderTerms operator (term :: next :: later) ++ rest =
              term.render ++ operator :: (renderTerms operator (next :: later) ++ rest) := by
            simp [renderTerms]
          -- An operator was copied, so behind it no test may begin with its colon.
          have second : ∀ first ∈ (next :: later).head?, Admits behind first := by
            refine fun first head => .inr ⟨rfl, fun pattern same => named pattern ?_⟩
            obtain rfl : next = first := by simpa using head
            exact same ▸ List.mem_cons_self
          have behindIt := ih (List.cons_ne_nil _ _) others second
            fun pattern member => named pattern (List.mem_cons_of_mem _ member)
          rw [written, here (first term (by simp)) (by simpa [Ended] using ends),
            cut_behind_of_isRightMark (isRightMark_of_endsPattern ends), behindIt, partsIn]
          simp

theorem cut_group {operator : Char} (opens : phase.Opens) (ends : endsPattern operator = true)
    {terms : List LockExpr} (present : terms ≠ [])
    (scans : ∀ term ∈ terms, ∀ {phase : Phase} {rest : Text}, Admits phase term → Ended rest →
      cut phase (term.render ++ rest) = term.parts ++ cut behind rest)
    (named : ∀ pattern, .attrTest [] pattern ∉ terms.tail) (rest : Text) :
    cut phase ('(' :: (renderTerms operator terms ++ ')' :: rest)) =
      copied '(' :: (partsIn operator terms ++ copied ')' :: cut behind rest) := by
  have closed : Ended (')' :: rest) := by simp [Ended, endsPattern]
  rw [cut_mark opens (by decide) (by decide),
    cut_renderTerms ends present scans (fun _ _ => .inl rfl) named closed,
    cut_behind_of_isRightMark (by decide)]

/-- The text of a tree is scanned as its parts, and the scan goes on behind it. -/
theorem cut_render {tree : LockExpr} (typeable : AllTypeable tree) (admits : Admits phase tree)
    (ended : Ended rest) : cut phase (tree.render ++ rest) = tree.parts ++ cut behind rest := by
  induction tree generalizing phase rest with
  | or terms ih =>
      obtain ⟨two, named⟩ := typeable _ (mem_nodes_self _)
      have scans := fun term member {phase} {rest} => @ih term member phase rest
        fun node inside => typeable node ((Part.or_term member).nodes inside)
      have written : (LockExpr.or terms).render ++ rest =
          '(' :: (renderTerms '|' terms ++ ')' :: rest) := by simp [render]
      have present : terms ≠ [] := List.ne_nil_of_length_pos (Nat.lt_of_succ_lt two)
      rw [written, cut_group admits.opens (by decide) present scans named, parts]
      simp
  | and terms ih =>
      obtain ⟨two, named⟩ := typeable _ (mem_nodes_self _)
      have scans := fun term member {phase} {rest} => @ih term member phase rest
        fun node inside => typeable node ((Part.and_term member).nodes inside)
      have written : (LockExpr.and terms).render ++ rest =
          '(' :: (renderTerms '&' terms ++ ')' :: rest) := by simp [render]
      have present : terms ≠ [] := List.ne_nil_of_length_pos (Nat.lt_of_succ_lt two)
      rw [written, cut_group admits.opens (by decide) present scans named, parts]
      simp
  | not inner ih =>
      have below : AllTypeable inner :=
        fun node inside => typeable node ((Part.not_inner inner).nodes inside)
      rw [render, parts, List.cons_append, List.cons_append,
        cut_mark admits.opens (by decide) (by decide), ih below (.inl rfl) ended]
  | attrTest name pattern =>
      obtain ⟨⟨named, -, matched⟩, -⟩ := typeable _ (mem_nodes_self _)
      have begins : phase = start ∨ name ≠ [] :=
        admits.imp id fun present empty => present.2 pattern (by rw [empty])
      have written : (LockExpr.attrTest name pattern).render ++ rest =
          name ++ ':' :: (pattern ++ rest) := by simp [render, testText]
      rw [written, parts]
      exact cut_test admits.opens begins named matched.plain (faces_of_ended ended)
  | ref kind name =>
      obtain ⟨⟨named, -⟩, -⟩ := typeable _ (mem_nodes_self _)
      have reads {phase : Phase} (opens : phase.Opens) :
          cut phase (name ++ rest) = object name :: cut behind rest :=
        cut_object opens named.word (stops_of_ended ended)
      rw [render, parts]
      cases kind with
      | is =>
          obtain ⟨later, opens, marked⟩ := cut_equals admits.opens (name ++ rest)
          exact marked.trans (congrArg (copied '=' :: ·) (reads opens))
      | carries =>
          exact (cut_mark admits.opens (by decide) (by decide) (name ++ rest)).trans
            (congrArg (copied '+' :: ·) (reads (.inl rfl)))
      | any => exact reads admits.opens
  | indirect name =>
      obtain ⟨named, -⟩ := typeable _ (mem_nodes_self _)
      rw [render, parts, List.cons_append, cut_mark admits.opens (by decide) (by decide),
        cut_object (.inl rfl) named.word (stops_of_ended ended)]
      rfl
  | indirectLock name =>
      obtain ⟨named, -⟩ := typeable _ (mem_nodes_self _)
      have written : (LockExpr.indirectLock name).render ++ rest =
          '@' :: '(' :: (name ++ ')' :: rest) := by simp [render]
      rw [written, cut_mark admits.opens (by decide) (by decide),
        cut_mark (.inl rfl) (by decide) (by decide),
        cut_object (.inl rfl) named.word (by simp [isRightMark]),
        cut_behind_of_isRightMark (by decide), parts]
      rfl
  | indirectAttr target test =>
      cases test with
      | none =>
          obtain ⟨named, -⟩ := typeable _ (mem_nodes_self _)
          have written : (LockExpr.indirectAttr target none).render ++ rest =
              '@' :: '(' :: (target ++ '=' :: ')' :: rest) := by simp [render]
          rw [written, cut_mark admits.opens (by decide) (by decide),
            cut_mark (.inl rfl) (by decide) (by decide),
            cut_object (.inl rfl) named.word (by simp [isRightMark]),
            cut_behind_of_isRightMark (by decide), cut_behind_of_isRightMark (by decide), parts]
          rfl
      | some test =>
          obtain ⟨name, pattern⟩ := test
          obtain ⟨⟨targeted, named, matched⟩, present⟩ := typeable _ (mem_nodes_self _)
          have written : (LockExpr.indirectAttr target (some (name, pattern))).render ++ rest =
              '@' :: '(' :: (target ++ '=' :: (name ++ ':' :: (pattern ++ ')' :: rest))) := by
            simp [render, testText]
          have closed : Faces true (')' :: rest) := Phase.faces_cons (by decide) rest
          rw [written, cut_mark admits.opens (by decide) (by decide),
            cut_mark (.inl rfl) (by decide) (by decide),
            cut_object (.inl rfl) targeted.word (by simp [isRightMark]),
            cut_behind_of_isRightMark (by decide),
            cut_test (.inr rfl) (.inr present) named matched.plain closed,
            cut_behind_of_isRightMark (by decide), parts]
          simp
  | number _ | tooDeep => exact (typeable _ (mem_nodes_self _)).1.elim

end LockExpr
end WorldLocks
