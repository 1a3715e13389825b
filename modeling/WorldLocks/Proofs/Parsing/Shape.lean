import WorldLocks.Proofs.Parsing.Tidy

/-! The shape of the trees that are read.  Between two marks that nest there may be a chain of
alternatives and in it one of conditions, so a tree is little more than twice as high as its groups
and negations nest.  Where they nest too deeply the rest of the text is given up, so nothing is read
behind such a place. -/

set_option autoImplicit false

namespace WorldLocks.LockExpr

open Cursor

variable {tree : LockExpr} {terms : List LockExpr} {reader : Reader} {limit : Nat} {behind : Text}

/-! ## Height -/

/-- The height of a tree, which is one for a leaf. -/
def height (tree : LockExpr) : Nat := tree.nesting + 1

theorem nestingIn_le (within : ∀ term ∈ terms, term.nesting ≤ limit) : nestingIn terms ≤ limit := by
  induction terms with
  | nil => exact Nat.zero_le limit
  | cons term later ih =>
      obtain ⟨here, others⟩ := List.forall_mem_cons.mp within
      rw [nestingIn]
      exact Nat.max_le.mpr ⟨here, ih others⟩

/-- Whether the operators of what is read enclose one another at most so deep. -/
def ReadsWithin (limit : Nat) (reader : Reader) : Prop := ∀ ahead, (reader ahead).1.nesting ≤ limit

theorem nesting_chain_le {combine : List LockExpr → LockExpr}
    (combines : ∀ terms, (combine terms).nesting = nestingIn terms + 1)
    (within : ∀ term ∈ terms, term.nesting ≤ limit) :
    (chain combine terms).nesting ≤ limit + 1 := by
  unfold chain
  split
  · next term => exact Nat.le_succ_of_le (within term List.mem_cons_self)
  · rw [combines]
    exact Nat.succ_le_succ (nestingIn_le within)

theorem ReadsWithin.chain {combine : List LockExpr → LockExpr}
    (combines : ∀ terms, (combine terms).nesting = nestingIn terms + 1)
    (reads : ReadsWithin limit reader) (operator : Char) (inGroup : Bool) :
    ReadsWithin (limit + 1) (readChain operator combine inGroup reader) := by
  intro ahead
  have within := forall_mem_readTerms (·.nesting ≤ limit) reads operator inGroup ahead.length ahead
  exact nesting_chain_le combines within

theorem ReadsWithin.alternatives (reads : ReadsWithin limit reader) (inGroup : Bool) :
    ReadsWithin (limit + 2) (readAlternatives inGroup reader) := by
  have conditions : ReadsWithin (limit + 1) (readChain '&' .and inGroup reader) :=
    reads.chain (fun terms => by rw [nesting]) '&' inGroup
  exact conditions.chain (fun terms => by rw [nesting]) '|' inGroup

/-! ## Giving up -/

/-- Among leaves that are read one after the other, only the last one may stand for nesting that is
too deep, and then nothing is left of the text. -/
def GivesUpLast (leaves : List LockExpr) (behind : Text) : Prop :=
  .tooDeep ∈ leaves → behind = [] ∧ ∃ before, leaves = before ++ [.tooDeep] ∧ .tooDeep ∉ before

/-- Whether nothing is read behind nesting that is too deep. -/
def GivesUpAtEnd (reader : Reader) : Prop :=
  ∀ ahead, GivesUpLast (reader ahead).1.leaves (reader ahead).2

theorem GivesUpLast.append {first later : List LockExpr} (complete : .tooDeep ∉ first)
    (last : GivesUpLast later behind) : GivesUpLast (first ++ later) behind := by
  intro member
  obtain ⟨ended, before, split, once⟩ := last ((List.mem_append.mp member).resolve_left complete)
  refine ⟨ended, first ++ before, by rw [split, List.append_assoc], ?_⟩
  exact fun within => (List.mem_append.mp within).elim complete once

theorem beforeOperator_nil (inGroup : Bool) : beforeOperator inGroup [] = [] := rfl

theorem givesUpLast_readTerms (reads : GivesUpAtEnd reader) (operator : Char) (inGroup : Bool)
    (bound : Nat) (ahead : Text) :
    GivesUpLast (leavesIn (readTerms operator inGroup reader bound ahead).1)
      (readTerms operator inGroup reader bound ahead).2 := by
  -- A term at whose end the text is given up is the last one, as no operator can follow.
  have last : ∀ ahead, GivesUpLast (leavesIn [(reader ahead).1])
      (beforeOperator inGroup (reader ahead).2) := by
    intro ahead member
    rw [leavesIn_singleton] at member ⊢
    obtain ⟨ended, only⟩ := reads ahead member
    exact ⟨by rw [ended, beforeOperator_nil], only⟩
  induction bound generalizing ahead with
  | zero =>
      unfold readTerms
      exact last ahead
  | succ bound ih =>
      unfold readTerms
      dsimp only
      cases more : eat? operator (beforeOperator inGroup (reader ahead).2) with
      | none => exact last ahead
      | some next =>
          dsimp only
          rw [leavesIn_cons]
          refine GivesUpLast.append (fun member => ?_) (ih next)
          rw [(reads ahead member).1, beforeOperator_nil] at more
          cases more

theorem GivesUpAtEnd.chain {combine : List LockExpr → LockExpr}
    (combines : ∀ terms, (combine terms).leaves = leavesIn terms)
    (reads : GivesUpAtEnd reader) (operator : Char) (inGroup : Bool) :
    GivesUpAtEnd (readChain operator combine inGroup reader) := by
  intro ahead
  have last := givesUpLast_readTerms reads operator inGroup ahead.length ahead
  rwa [← leaves_chain combines] at last

theorem GivesUpAtEnd.alternatives (reads : GivesUpAtEnd reader) (inGroup : Bool) :
    GivesUpAtEnd (readAlternatives inGroup reader) :=
  (reads.chain leaves_and '&' inGroup).chain leaves_or '|' inGroup

/-! ## Operands -/

/-- What is read with so much nesting still allowed. -/
structure Shallow (limit : Nat) (read : LockExpr × Text) : Prop where
  within : read.1.nesting ≤ 2 * limit
  last : GivesUpLast read.1.leaves read.2

theorem Shallow.of_leaf {leaf : LockExpr} (unnested : leaf.nesting = 0)
    (complete : .tooDeep ∉ leaf.leaves) (limit : Nat) (behind : Text) :
    Shallow limit (leaf, behind) :=
  ⟨unnested ▸ Nat.zero_le _, fun member => absurd member complete⟩

theorem readSubject_shallow (limit : Nat) (kind : RefKind) (ahead : Text) :
    Shallow limit (readSubject kind ahead) := by
  unfold readSubject
  dsimp only
  split
  · exact .of_leaf (by rw [nesting]) (by simp [leaves, nodes, descendants]) limit _
  · split <;> exact .of_leaf (by rw [nesting]) (by simp [leaves, nodes, descendants]) limit _

theorem readIndirect_shallow (limit : Nat) (ahead : Text) : Shallow limit (readIndirect ahead) := by
  unfold readIndirect
  dsimp only
  split
  · exact .of_leaf (by rw [nesting]) (by simp [leaves, nodes, descendants]) limit _
  · split
    · exact .of_leaf (by rw [nesting]) (by simp [leaves, nodes, descendants]) limit _
    · split <;> exact .of_leaf (by rw [nesting]) (by simp [leaves, nodes, descendants]) limit _

theorem tooDeep_shallow : Shallow 0 (.tooDeep, []) where
  within := by rw [nesting]
  last := fun _ => ⟨rfl, [], by simp [leaves, nodes, descendants, isLeaf], List.not_mem_nil⟩

/-! ## Trees -/

theorem Shallow.alternatives (reads : ∀ ahead, Shallow limit (reader ahead)) (inGroup : Bool)
    (ahead : Text) : Shallow (limit + 1) (readAlternatives inGroup reader ahead) where
  within := ReadsWithin.alternatives (fun ahead => (reads ahead).within) inGroup ahead
  last := GivesUpAtEnd.alternatives (fun ahead => (reads ahead).last) inGroup ahead

theorem Shallow.not {inner : LockExpr} (shallow : Shallow limit (inner, behind)) :
    Shallow (limit + 1) (.not inner, behind) where
  within := by
    have within : inner.nesting ≤ 2 * limit := shallow.within
    rw [nesting]
    omega
  last := by
    rw [leaves_not]
    exact shallow.last

/-- Closing marks are passed over behind a group, and nothing stays nothing. -/
theorem Shallow.group (shallow : Shallow limit (tree, behind)) :
    Shallow limit (tree, eat ')' (skipBlanks behind)) where
  within := shallow.within
  last := by
    intro member
    obtain ⟨ended, once⟩ := shallow.last member
    obtain rfl : behind = [] := ended
    exact ⟨rfl, once⟩

theorem readAtom_shallow (limit : Nat) (inGroup : Bool) (ahead : Text) :
    Shallow limit (readAtom limit inGroup ahead) := by
  induction limit using Nat.strongRecOn generalizing inGroup ahead with
  | ind limit ih =>
      rcases head_cases ahead with ⟨c, inside, starts, marked⟩ | bare
      case inr =>
        rw [readAtom_bare limit inGroup bare]
        exact readSubject_shallow limit .any ahead
      rcases eq_of_isLeftMark marked with rfl | rfl | rfl | rfl | rfl
      · cases limit with
        | zero => rw [readAtom_exhausted (.inr starts)]; exact tooDeep_shallow
        | succ fewer =>
            rw [readAtom_not starts]
            exact (ih fewer (Nat.lt_succ_self fewer) inGroup inside).not
      · cases limit with
        | zero => rw [readAtom_exhausted (.inl starts)]; exact tooDeep_shallow
        | succ fewer =>
            rw [readAtom_group starts]
            exact (Shallow.alternatives (ih fewer (Nat.lt_succ_self fewer) true) true inside).group
      · rw [readAtom_indirect starts]
        exact readIndirect_shallow limit inside
      · rw [readAtom_is starts]
        exact readSubject_shallow limit .is inside
      · rw [readAtom_carries starts]
        exact readSubject_shallow limit .carries inside

/-- A tree that is read from any text is at most so high, its operators have terms to combine, its
numbers are not negative, and it has at most one leaf for nesting that is too deep, which is its
last leaf. -/
theorem parse_shape (text : Text) :
    (parse text).height ≤ 2 * maxNesting + 3 ∧
      (∀ terms, .or terms ∈ (parse text).nodes ∨ .and terms ∈ (parse text).nodes →
        2 ≤ terms.length) ∧
      (∀ value, .number value ∈ (parse text).nodes → 0 ≤ value) ∧
      (.tooDeep ∈ (parse text).leaves →
        ∃ before, (parse text).leaves = before ++ [.tooDeep] ∧ .tooDeep ∉ before) := by
  have shallow : Shallow (maxNesting + 1)
      (readAlternatives false (readAtom maxNesting false) text) :=
    Shallow.alternatives (readAtom_shallow maxNesting false) false text
  refine ⟨Nat.succ_le_succ shallow.within, ?_, ?_, fun member => (shallow.last member).2⟩
  · rintro terms (member | member)
    · exact parse_tidy text _ member
    · exact parse_tidy text _ member
  · intro value member
    exact (parse_tidy text _ member).1

/-- A number, and behind it one negation more than may nest. -/
def tooManyNegations : Text := "1|".toList ++ List.replicate (maxNesting + 1) '!'

theorem parse_shape_tooManyNegations :
    ∃ terms, .or terms ∈ (parse tooManyNegations).nodes ∧ 2 ≤ terms.length ∧
      .number 1 ∈ (parse tooManyNegations).nodes ∧ (0 : Int) ≤ 1 ∧
      .tooDeep ∈ (parse tooManyNegations).leaves ∧
      ∃ before, (parse tooManyNegations).leaves = before ++ [.tooDeep] ∧ .tooDeep ∉ before := by
  obtain ⟨-, operators, numbers, deep⟩ := parse_shape tooManyNegations
  have read : parse tooManyNegations =
      .or [.number 1, (List.replicate maxNesting ()).foldr (fun _ => .not) .tooDeep] := by cbv
  have leaves : (parse tooManyNegations).leaves = [.number 1, .tooDeep] := by cbv
  have operator : .or [.number 1, (List.replicate maxNesting ()).foldr (fun _ => .not) .tooDeep] ∈
      (parse tooManyNegations).nodes := by
    rw [← read]
    exact mem_nodes_self _
  have givenUp : .tooDeep ∈ (parse tooManyNegations).leaves := by simp [leaves]
  have number : .number 1 ∈ (parse tooManyNegations).leaves := by simp [leaves]
  have inside : .number 1 ∈ (parse tooManyNegations).nodes := (List.mem_filter.mp number).1
  exact ⟨_, operator, operators _ (.inl operator), inside, numbers 1 inside, givenUp, deep givenUp⟩

-- A smaller bound on the height would not do.
example : (parse ((List.replicate maxNesting "0|0&(".toList).flatten ++ "0|0&0".toList)).height =
    2 * maxNesting + 3 := by decide +kernel

end WorldLocks.LockExpr
