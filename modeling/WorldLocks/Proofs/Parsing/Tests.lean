import WorldLocks.Lock.Parser
import WorldLocks.Proofs.Parts.Patterns

/-! The tests of a lock that is read.  Every reader leaves a suffix of what it was given, and every
test in what it makes of the text was read at some place in between. -/

set_option autoImplicit false

namespace WorldLocks

open Cursor

namespace LockExpr

mutual

/-- The attribute tests of a tree, in order: name and pattern. -/
def tests : LockExpr → List (Text × Text)
  | .or terms | .and terms => testsIn terms
  | .not inner => tests inner
  | .attrTest name pattern => [(name, pattern)]
  | .indirectAttr _ (some test) => [test]
  | .number _ | .ref _ _ | .indirect _ | .indirectLock _ | .indirectAttr _ none | .tooDeep => []

def testsIn : List LockExpr → List (Text × Text)
  | [] => []
  | term :: later => tests term ++ testsIn later

end

theorem tests_chain {combine : List LockExpr → LockExpr}
    (combines : ∀ terms, (combine terms).tests = testsIn terms) (terms : List LockExpr) :
    (chain combine terms).tests = testsIn terms := by
  unfold chain
  split
  · simp [testsIn]
  · exact combines terms

end LockExpr

namespace TestPlace

variable {text : Text}

/-- The test as it is read, without the blanks around its name and pattern. -/
def test (place : TestPlace text) : Text × Text := (Text.trim place.name, Text.trim place.pattern)

def within {whole : Text} (place : TestPlace text) (passed : Text) (split : whole = passed ++ text) :
    TestPlace whole where
  before := passed ++ place.before
  name := place.name
  pattern := place.pattern
  behind := place.behind
  split := by rw [split, List.append_assoc, ← place.split]
  reads := place.reads

def whole {name pattern : Text}
    (reads : attrTest? (name ++ ':' :: (pattern ++ [])) = some ((name, pattern), [])) :
    TestPlace (name ++ ':' :: (pattern ++ [])) :=
  ⟨[], name, pattern, [], rfl, reads⟩

def ofReads {ahead behind : Text} {name pattern : Text}
    (reads : attrTest? ahead = some ((name, pattern), behind)) : TestPlace ahead where
  before := []
  name := name
  pattern := pattern
  behind := behind
  split := (attrTest?_eq_some reads).1
  reads := (attrTest?_eq_some reads).1 ▸ reads

end TestPlace

namespace LockExpr

/-- What was read of a text leaves a suffix of it, and its tests have places in the text. -/
structure ReadsFrom (ahead : Text) (tests : List (Text × Text)) (behind : Text) : Prop where
  suffix : behind <:+ ahead
  places : ∀ test ∈ tests, ∃ place : TestPlace ahead, place.test = test

namespace ReadsFrom

variable {ahead middle behind : Text} {first second : List (Text × Text)}

theorem nothing (suffix : behind <:+ ahead) : ReadsFrom ahead [] behind := ⟨suffix, by simp⟩

theorem andThen (one : ReadsFrom ahead first middle) (two : ReadsFrom middle second behind) :
    ReadsFrom ahead (first ++ second) behind := by
  refine ⟨two.suffix.trans one.suffix, fun test member => ?_⟩
  rcases List.mem_append.mp member with early | late
  · exact one.places test early
  · obtain ⟨place, here⟩ := two.places test late
    obtain ⟨passed, split⟩ := one.suffix
    exact ⟨place.within passed split.symm, here⟩

theorem after (suffix : middle <:+ ahead) (reads : ReadsFrom middle first behind) :
    ReadsFrom ahead first behind := by
  simpa using (nothing suffix).andThen reads

theorem before (reads : ReadsFrom ahead first middle) (suffix : behind <:+ middle) :
    ReadsFrom ahead first behind := by
  simpa using reads.andThen (nothing suffix)

theorem ofTest {name pattern : Text} (reads : attrTest? ahead = some ((name, pattern), behind)) :
    ReadsFrom ahead [(Text.trim name, Text.trim pattern)] behind := by
  refine ⟨?_, fun test member => ⟨.ofReads reads, (List.mem_singleton.mp member).symm⟩⟩
  rw [(attrTest?_eq_some reads).1]
  exact ⟨name ++ ':' :: pattern, by simp⟩

end ReadsFrom

def Reads (reader : Reader) : Prop :=
  ∀ ahead, ReadsFrom ahead (reader ahead).1.tests (reader ahead).2

/-! ## Suffixes -/

theorem beforeOperator_suffix (inGroup : Bool) (ahead : Text) : beforeOperator inGroup ahead <:+ ahead :=
  List.dropWhile_suffix _

theorem readName_suffix (ahead : Text) : (readName ahead).2 <:+ ahead :=
  (run_suffix _ _).trans (skipBlanks_suffix ahead)

/-! ## Readers -/

theorem readTerms_reads {reader : Reader} (reads : Reads reader) (operator : Char) (inGroup : Bool)
    (bound : Nat) (ahead : Text) :
    ReadsFrom ahead (testsIn (readTerms operator inGroup reader bound ahead).1)
      (readTerms operator inGroup reader bound ahead).2 := by
  induction bound generalizing ahead with
  | zero =>
      have first := (reads ahead).before (beforeOperator_suffix inGroup _)
      simpa [readTerms, testsIn] using first
  | succ bound ih =>
      have first := (reads ahead).before (beforeOperator_suffix inGroup _)
      unfold readTerms
      dsimp only
      cases eats : eat? operator (beforeOperator inGroup (reader ahead).2) with
      | none => simpa [testsIn] using first
      | some next => exact first.andThen ((ih next).after (suffix_of_eat? eats))

theorem readChain_reads {reader : Reader} (reads : Reads reader) (operator : Char)
    {combine : List LockExpr → LockExpr}
    (combines : ∀ terms, (combine terms).tests = testsIn terms) (inGroup : Bool) :
    Reads (readChain operator combine inGroup reader) := by
  intro ahead
  have terms := readTerms_reads reads operator inGroup ahead.length ahead
  simpa [readChain, tests_chain combines] using terms

theorem readAlternatives_reads {reader : Reader} (reads : Reads reader) (inGroup : Bool) :
    Reads (readAlternatives inGroup reader) :=
  readChain_reads (readChain_reads reads '&' (fun _ => by simp [tests]) inGroup) '|'
    (fun _ => by simp [tests]) inGroup

theorem readIndirect_reads : Reads readIndirect := by
  intro ahead
  have blanks := skipBlanks_suffix ahead
  unfold readIndirect
  dsimp only
  cases opens : eat? '(' (skipBlanks ahead) with
  | none => exact .nothing ((readName_suffix _).trans blanks)
  | some inside =>
      have target := ((readName_suffix inside).trans (suffix_of_eat? opens)).trans blanks
      have closes (behind : Text) : eat ')' (skipBlanks behind) <:+ behind :=
        (eat_suffix ')' _).trans (skipBlanks_suffix behind)
      dsimp only
      cases equals : eat? '=' (readName inside).2 with
      | none => exact .nothing ((closes _).trans target)
      | some condition =>
          have passed := ((skipBlanks_suffix condition).trans (suffix_of_eat? equals)).trans target
          dsimp only
          cases reads : attrTest? (skipBlanks condition) with
          | none => exact .nothing ((closes _).trans passed)
          | some read => exact ((ReadsFrom.ofTest reads).before (closes _)).after passed

theorem readPrimary_reads : Reads readPrimary := by
  intro ahead
  have passed {behind : Text} (suffix : behind <:+ ahead) : skipBlanks behind <:+ ahead :=
    (skipBlanks_suffix behind).trans suffix
  unfold readPrimary
  dsimp only
  split
  case' h_1 equals => replace passed := passed (suffix_of_eat? equals)
  case' h_2 plus => replace passed := passed (suffix_of_eat? plus)
  case' h_3 => replace passed := passed List.suffix_rfl
  -- Whatever the mark was, what is behind it is read alike.
  all_goals
    dsimp only
    split
    · exact .nothing ((run_suffix _ _).trans passed)
    · split
      next reads => exact (ReadsFrom.ofTest reads).after passed
      next => exact .nothing ((readName_suffix _).trans passed)

theorem readAtom_reads (nesting : Nat) (inGroup : Bool) : Reads (readAtom nesting inGroup) := by
  induction nesting using Nat.strongRecOn generalizing inGroup with
  | ind nesting ih =>
      intro ahead
      have blanks := skipBlanks_suffix ahead
      unfold readAtom
      split
      next => exact .nothing List.nil_suffix
      next => exact .nothing List.nil_suffix
      next inside fewer opens =>
        have group := readAlternatives_reads (ih fewer (Nat.lt_succ_self fewer) true) true inside
        refine (group.before ((eat_suffix ')' _).trans (skipBlanks_suffix _))).after ?_
        exact (opens ▸ List.suffix_cons _ _).trans blanks
      next inside fewer negates =>
        have negated := ih fewer (Nat.lt_succ_self fewer) inGroup inside
        exact negated.after ((negates ▸ List.suffix_cons _ _).trans blanks)
      next inside indirect =>
        exact (readIndirect_reads inside).after ((indirect ▸ List.suffix_cons _ _).trans blanks)
      next => exact (readPrimary_reads _).after blanks

theorem tests_parse {text : Text} {test : Text × Text} (member : test ∈ (parse text).tests) :
    ∃ place : TestPlace text, place.test = test :=
  (readAlternatives_reads (readAtom_reads maxNesting false) false text).places test member

/-- Compiling and decompiling copy the pattern of a test exactly where no word that is looked up
meets it. -/
theorem tests_copied_or_replaced (text : Text) :
    (∀ test ∈ (parse text).tests, ∃ place : TestPlace text, place.test = test) ∧
      ∀ place : TestPlace text,
        (place.Uncut → ∃ before after, place.CopiedBetween before after) ∧
          (¬ place.Uncut → ∃ before word after, place.ReplacedBetween before word after) :=
  ⟨fun _ member => tests_parse member, fun place => place.copied_or_replaced⟩

/-- A pattern without a dot is copied, and of one with a dot the word behind the dot is looked up. -/
theorem tests_copied_or_replaced_at_dot :
    let plain := @TestPlace.whole ['s', 'e', 'x'] ['m', '*'] rfl
    let dotted := @TestPlace.whole ['s', 'e', 'x'] ['a', '.', 'a', 'l'] rfl
    (∃ place : TestPlace ['s', 'e', 'x', ':', 'm', '*'], place.test = plain.test) ∧
      (∃ before after, plain.CopiedBetween before after) ∧
        ∃ before word after, dotted.ReplacedBetween before word after := by
  intro plain dotted
  have unmarked : ∀ c ∈ ['m', '*'], isRightMark c = false ∧ c ≠ '[' := by simp [isRightMark]
  have uncut : plain.Uncut := TestPlace.uncut_of_plain (by decide +kernel) unmarked
  have cut : ¬ dotted.Uncut := by
    intro uncut
    have parts : lockParts ['s', 'e', 'x', ':', 'a', '.', 'a', 'l'] =
        LockPart.copy ['s', 'e', 'x', ':', 'a', '.'] ++ [LockPart.object ['a', 'l']] := by
      decide +kernel
    rcases uncut _ _ _ parts with ends | starts
    · exact absurd ends (by decide +kernel)
    · exact absurd starts (by decide +kernel)
  exact ⟨(tests_copied_or_replaced _).1 _ (by decide +kernel),
    ((tests_copied_or_replaced _).2 plain).1 uncut, ((tests_copied_or_replaced _).2 dotted).2 cut⟩

end LockExpr
end WorldLocks
